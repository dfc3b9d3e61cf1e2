import OnceInit.Proofs.Discipline
import OnceInit.Proofs.Smooth

/-! Where the mutex has gone. It is left with a thread only by a refusal to let go of it, and once this has happened
nobody gets far enough to be refused again, until the mutex is freed from outside. -/

namespace OnceInit

def keepers (es : List Event) : List ThreadId := es.filterMap Event.keeper

theorem keepers_append (es fs : List Event) : keepers (es ++ fs) = keepers es ++ keepers fs :=
  List.filterMap_append

theorem mem_keepers {t : ThreadId} {es : List Event} :
    t ∈ keepers es ↔ ∃ c code, c.leaves = true ∧ .call t (.refused c code) ∈ es := by
  rw [keepers, List.mem_filterMap]
  constructor
  · rintro ⟨e, he, hk⟩
    unfold Event.keeper at hk
    split at hk
    · next u c code =>
      split at hk
      · next hc =>
        cases hk
        exact ⟨c, code, hc, he⟩
      · cases hk
    · cases hk
  · rintro ⟨c, code, hc, he⟩
    exact ⟨_, he, if_pos hc⟩

theorem keepers_of_letsGo {es : List Event} (hl : Machine.LetsGo es) : keepers es = [] :=
  List.filterMap_eq_nil_iff.mpr (Machine.letsGo_iff.mp hl)

theorem keepers_append_of_letsGo (es : List Event) {fs : List Event} (hl : Machine.LetsGo fs) :
    keepers (es ++ fs) = keepers es := by
  rw [keepers_append, keepers_of_letsGo hl, List.append_nil]

theorem Task.node_of_entering {k : Task}
    (hp : k.point = .locking ∨ k.point = .contending ∨ k.point = .waking) :
    k.node = .call .lock (.go .contending) (k.fail .lock) ∨ ∃ w, k.node = .take w k.entered := by
  rcases hp with hp | hp | hp
  · exact .inl (by rw [node, hp])
  · exact .inr ⟨false, by rw [node, hp]⟩
  · exact .inr ⟨true, by rw [node, hp]⟩

namespace Machine

variable {s : Setup} {ok : OnceInit.Step → Prop} {cells : GuardId → Cell} {m m₀ m₁ : Machine}
  {h h₀ es : List Event} {t u : ThreadId} {k : Task} {n : Next}

/-- The mutex has just been freed from outside, or the process has just begun. -/
inductive Freed (s : Setup) (cells : GuardId → Cell) : Machine → List Event → Prop
  | start : Freed s cells (start cells) []
  | forced {m : Machine} {h : List Event} (reaches : Reaches s (fun _ => True) (.start cells) m h)
      (settled : m.settled = true) (alive : m.fate = none) :
      Freed s cells (m.begin s .forceUnlock).1 (h ++ (m.begin s .forceUnlock).2)

theorem Freed.reaches (hf : Freed s cells m h) : Reaches s (fun _ => True) (.start cells) m h := by
  cases hf with
  | start => exact .start
  | forced hr hs ha => exact hr.begin .forceUnlock hs ha trivial

theorem Reaches.freed (hr : Reaches s ok (.start cells) m h) : ∃ m₀ h₀ h₁,
    Freed s cells m₀ h₀ ∧ Reaches s (· ≠ .forceUnlock) m₀ m h₁ ∧ h = h₀ ++ h₁ := by
  induction hr with
  | start => exact ⟨_, _, _, .start, .start, rfl⟩
  | begin st hr hs ha _ ih =>
    by_cases hst : st = .forceUnlock
    · subst hst
      exact ⟨_, _, [], .forced (hr.mono fun _ _ => trivial) hs ha, .start, (List.append_nil _).symm⟩
    · obtain ⟨m₀, h₀, h₁, hf, since, rfl⟩ := ih
      exact ⟨m₀, h₀, _, hf, since.begin st hs ha hst, List.append_assoc ..⟩
  | turn _ hu ih =>
    obtain ⟨m₀, h₀, h₁, hf, since, rfl⟩ := ih
    exact ⟨m₀, h₀, _, hf, since.turn hu, List.append_assoc ..⟩

theorem Freed.free (hf : Freed s cells m h) : m.owner = none := by
  cases hf <;> rfl

structure Jammed (m : Machine) (t : ThreadId) : Prop where
  owner : m.owner = some t
  entering : m.Entering

theorem letsGo_news (t : ThreadId) (k : Task) (n : Next) : LetsGo (n.report t k ++ n.notes s t k) :=
  fun u _ _ he => absurd he (call_not_mem_news n u _)

theorem Jammed.act (hj : m.Jammed u) (hr : m.running = some t) (hk : m.tasks t = some k)
    (ha : Act s m t k m₁ es n) : (m₁.advance t k n).Jammed u ∧ LetsGo es := by
  rcases Task.node_of_entering (hj.entering t k hr hk) with hd | ⟨w, hd⟩
  · cases ha with
    | refused hn hc =>
      cases hd.symm.trans hn
      refine ⟨⟨hj.owner, entering_of_idle rfl⟩, fun u c code he => ?_⟩
      cases List.mem_singleton.mp he
      rfl
    | lock hn =>
      cases hd.symm.trans hn
      exact ⟨⟨hj.owner, entering_of_task rfl (put_same ..) (.inr (.inl rfl))⟩, fun _ _ _ he => nomatch he⟩
    | unlock hn | broadcast hn | took hn | read hn | asked hn | wrote hn => cases hd.symm.trans hn
  · cases ha with
    | took hn free => cases free.symm.trans hj.owner
    | refused hn | lock hn | unlock hn | broadcast hn | read hn | asked hn | wrote hn => cases hd.symm.trans hn

theorem Jammed.played (hj : m.Jammed u) (hr : m.running = some t) (hk : m.tasks t = some k)
    {r : Machine × List Event} (hp : Played s m t k r) : r.1.Jammed u ∧ LetsGo r.2 := by
  cases hp with
  | act ha =>
    obtain ⟨hj, hl⟩ := hj.act hr hk ha
    exact ⟨hj, hl.append (letsGo_news t k _)⟩
  | slept hn => rcases Task.node_of_entering (hj.entering t k hr hk) with hd | ⟨w, hd⟩ <;> cases hd.symm.trans hn
  | parked => exact ⟨⟨hj.owner, entering_of_idle rfl⟩, by simp [LetsGo, park]⟩

theorem owner_begin {st : OnceInit.Step} (hn : st ≠ .forceUnlock) : (m.begin s st).1.owner = m.owner := by
  have ho := onset s m st
  generalize m.begin s st = r at ho ⊢
  cases ho with
  | freed => exact absurd rfl hn
  | armed | poked | skipped | declined | woken | launched | closed => rfl

def Balanced (m : Machine) (es : List Event) : Prop :=
  (keepers es = [] ∧ m.Loose) ∨ ∃ t, keepers es = [t] ∧ m.Jammed t

theorem Balanced.begin (hb : m.Balanced h) (hs : m.Seated) (hr : m.running = none) {st : OnceInit.Step}
    (hn : st ≠ .forceUnlock) : (m.begin s st).1.Balanced (h ++ (m.begin s st).2) := by
  have hl : LetsGo (m.begin s st).2 := fun u c code he => absurd he (begin_calls st u _)
  have ho := owner_begin (s := s) (m := m) hn
  rw [Balanced, keepers_append_of_letsGo h hl]
  rcases hb with ⟨hk, hm⟩ | ⟨t, hk, hj⟩
  · exact .inl ⟨hk, loose_of_free (ho.trans (hm.free hr))⟩
  · exact .inr ⟨t, hk, ho.trans hj.owner, hs.entering_begin hr st⟩

theorem Loose.balanced (hm : m.Loose) (ho : m.Owned) (hr : m.running = some t) (hk : m.tasks t = some k)
    {r : Machine × List Event} (hp : Played s m t k r) : r.1.Balanced r.2 := by
  by_cases hl : LetsGo r.2
  · exact .inl ⟨keepers_of_letsGo hl, hm.played hr hk hp hl⟩
  · obtain ⟨u, c, code, he, hc⟩ : ∃ u c code, .call u (.refused c code) ∈ r.2 ∧ c.leaves = true := by
      simpa [LetsGo] using hl
    obtain ⟨rfl, -, n, f, hn, rfl⟩ := hp.refused he
    refine .inr ⟨u, ?_, ho.inside u k hr hk ((Task.inside_of_call hn).trans hc), entering_of_idle ?_⟩
    · have hx : Event.keeper (.call u (.refused c code)) = some u := if_pos hc
      rw [keepers, List.filterMap_cons_some hx]
      exact congrArg (u :: ·) (keepers_of_letsGo (letsGo_news u k (f code)))
    · simp [advance, Task.after_refused hn code]

theorem Balanced.turn (hb : m.Balanced h) (hs : m.Seated) (ho : m.Owned) (hu : m.settled = false) :
    (m.turn s).1.Balanced (h ++ (m.turn s).2) := by
  obtain ⟨-, ⟨t, k, hr, hk, hp⟩ | ⟨t, rest, hr, hq, ht⟩⟩ := hs.turn_cases (s := s) hu
  · rcases hb with ⟨hz, hm⟩ | ⟨u, hz, hj⟩
    · have hp := hm.balanced ho hr hk hp
      rwa [Balanced, keepers_append, hz, List.nil_append]
    · obtain ⟨hj, hl⟩ := hj.played hr hk hp
      exact .inr ⟨u, (keepers_append_of_letsGo h hl).trans hz, hj⟩
  · rw [ht, List.append_nil]
    rcases hb with ⟨hz, hm⟩ | ⟨u, hz, hj⟩
    · exact .inl ⟨hz, loose_of_free (hm.free hr)⟩
    · exact .inr ⟨u, hz, hj.owner, hs.entering_resume hr hq⟩

theorem Freed.balanced (hf : Freed s cells m₀ h₀) (hr : Reaches s (· ≠ .forceUnlock) m₀ m h) : m.Balanced h := by
  induction hr with
  | start => exact .inl ⟨rfl, loose_of_free hf.free⟩
  | begin st hr hs ha hn ih =>
    have hr := hf.reaches.trans (hr.mono fun _ _ => trivial)
    exact ih.begin hr.seated (idle_of_settled hs ha).1 hn
  | turn hr hu ih =>
    have hr := hf.reaches.trans (hr.mono fun _ _ => trivial)
    exact ih.turn hr.seated hr.owned hu

theorem Balanced.owner_iff (hb : m.Balanced h) (hr : m.running = none) : m.owner = some t ↔ t ∈ keepers h := by
  rcases hb with ⟨hz, hm⟩ | ⟨u, hz, hj⟩
  · simp [hz, hm.free hr]
  · simp [hz, hj.owner, eq_comm]

theorem Balanced.length_le (hb : m.Balanced h) : (keepers h).length ≤ 1 := by
  rcases hb with ⟨hz, -⟩ | ⟨u, hz, -⟩ <;> simp [hz]

theorem Played.blocked {r : Machine × List Event} (hp : Played s m t k r) (he : .call u .blocked ∈ r.2) :
    m.owner ≠ none ∧ ∃ w n, k.node = .take w n := by
  cases hp with
  | slept => simp at he
  | @parked w n hn taken => exact ⟨taken, w, n, hn⟩
  | @act m₁ es n ha =>
    have he := (List.mem_append.mp he).resolve_right (call_not_mem_news n u _)
    cases ha.not_pause _ he

theorem Reaches.not_blocked (hr : Reaches s ok (.start cells) m h) (hl : LetsGo h) (t : ThreadId) :
    .call t .blocked ∉ h := by
  induction hr with
  | start => nofun
  | begin st hr hs ha hn ih =>
    intro he
    exact (List.mem_append.mp he).elim (ih hl.left) (begin_calls st t _)
  | @turn m h hr hu ih =>
    intro he
    refine (List.mem_append.mp he).elim (ih hl.left) fun he => ?_
    have hc := hr.calm_of_letsGo hl.left
    obtain ⟨-, ⟨u, k, hrun, hk, hp⟩ | ⟨u, rest, -, -, ht⟩⟩ := hr.seated.turn_cases (s := s) hu
    · obtain ⟨taken, w, n, hn⟩ := hp.blocked he
      exact taken (hc.loose.free_outside hrun hk (Task.outside_of_take hn))
    · simp [ht] at he

/-- Every run has gone on from the start of the process, or from the last time that the mutex was freed from outside.
What has been refused since then tells where the mutex is, whoever wakes and whatever is written over the cells. -/
theorem mutex_account (hr : Reaches s (fun _ => True) (.start cells) m h) :
    (∃ m₀ h₀ es, Freed s cells m₀ h₀ ∧ Reaches s (· ≠ .forceUnlock) m₀ m es ∧ h = h₀ ++ es) ∧
    (∀ m₀ h₀ es, Freed s cells m₀ h₀ → Reaches s (· ≠ .forceUnlock) m₀ m es →
      (m.settled = true → ∀ t, m.owner = some t ↔ ∃ c code, c.leaves = true ∧ .call t (.refused c code) ∈ es) ∧
      (es.filterMap Event.keeper).length ≤ 1) ∧
    (LetsGo h → m.queue = [] ∧ ∀ t, .call t .blocked ∉ h) := by
  refine ⟨hr.freed, fun m₀ h₀ es hf since => ?_, fun hl => ⟨(hr.calm_of_letsGo hl).queue, hr.not_blocked hl⟩⟩
  have hb := hf.balanced since
  refine ⟨fun hs t => ?_, hb.length_le⟩
  rw [hb.owner_iff (hr.seated.idle hs), mem_keepers]

/-- An unlock and a wait are refused, and the mutex is freed between the two while a thread waits for it. -/
theorem mutex_account_twice : ∃ m₀ h₀ m h, Freed (.plain .owner) (fun _ => .zero .wide) m₀ h₀ ∧
    Reaches (.plain .owner) (· ≠ .forceUnlock) m₀ m h ∧ m.settled = true ∧
    .call 1 (.refused .unlock 22) ∈ h₀ ∧ .call 2 .blocked ∈ h₀ ∧ .call 3 (.refused .wait 5) ∈ h ∧
    .call 1 .blocked ∈ h ∧ m.owner = some 3 ∧ (h.filterMap Event.keeper).length ≤ 1 := by
  have hr : Reaches (.plain .owner) (fun _ => True) (.start fun _ => .zero .wide) _ [] := .start
  have h₁ := (hr.begin (.act 0 0 none (some .acquire)) (by decide) (by decide) trivial).turns 9
  have h₂ := h₁.begin (.fault .unlock ⟨22, 0⟩) (by decide) (by decide) trivial
  have h₃ := (h₂.begin (.act 1 1 none (some .acquire)) (by decide) (by decide) trivial).turns 9
  have h₄ := (h₃.begin (.act 2 2 none (some .acquire)) (by decide) (by decide) trivial).turns 9
  have hf := Freed.forced h₄ (by decide) (by decide)
  have stay : ∀ {m h}, Freed (.plain .owner) (fun _ => .zero .wide) m h →
      Reaches (.plain .owner) (· ≠ .forceUnlock) m m [] := fun _ => .start
  have h₅ := ((stay hf).turns 9).begin (.fault .wait ⟨5, 0⟩) (by decide) (by decide) nofun
  have h₆ := (h₅.begin (.act 3 0 none (some .acquire)) (by decide) (by decide) nofun).turns 9
  have h₇ := (h₆.begin (.act 1 0 none (some .release)) (by decide) (by decide) nofun).turns 9
  obtain ⟨-, hs, -⟩ := mutex_account (hf.reaches.trans (h₇.mono fun _ _ => trivial))
  obtain ⟨ho, hl⟩ := hs _ _ _ hf h₇
  exact ⟨_, _, _, _, hf, h₇, by decide, by decide, by decide, by decide, by decide,
    (ho (by decide) 3).mpr ⟨.wait, 5, rfl, by decide⟩, hl⟩

end Machine
end OnceInit

import OnceInit.Proofs.Brackets
import OnceInit.Proofs.Mutex
import OnceInit.Proofs.Wakeup

/-! A process that uses its guards through initializers only needs no discipline of its callers. Between its steps each
guard is under way exactly while one of its initializers runs, complete exactly if one has completed, and nothing
is started again after that. -/

namespace OnceInit

def Setup.managed (b : Build) : Setup := ⟨b, false, fun _ => some .managed, fun t => t + 1⟩

theorem Setup.managed_drives (b : Build) (t : ThreadId) (g : GuardId) (a : Action)
    (ha : a ∉ [.acquire, .release, .abort]) :
    Step.Drives (.managed b) (fun _ => b.scheme) Scoped (.act t g none (some a)) := by
  intro kind k hk ht
  cases hk
  cases a <;> cases ht <;> first | exact ⟨rfl, trivial⟩ | simp at ha

namespace Machine

variable {s : Setup} {sch : GuardId → Scheme} {cells : GuardId → Cell} {m m₁ : Machine}
  {h es : List Event} {t : ThreadId} {k : Task} {n : Next}

theorem Reaches.calm (hr : Reaches s (Step.Drives s sch Scoped) (.start cells) m h) (hf : m.fate = none) :
    m.Calm :=
  hr.calm_of_letsGo fun u c code hm => absurd hm (hr.keeps.path.accepted hf u c code)

theorem Act.fresh (ha : Act s m t k m₁ es n) (a : List Event) : ∀ e ∈ es, e.Fresh a := by
  cases ha <;> simp [Event.Fresh]

theorem Played.fresh {r : Machine × List Event} (hp : Played s m t k r) (ha : m.fate = none)
    (hf : r.1.fate ≠ none) (a : List Event) : ∀ e ∈ r.2, e.Fresh a := by
  cases hp with
  | slept | parked => exact absurd ha hf
  | @act m₁ es n hact =>
    have hn : n ≠ .finish (.gives (.granted true)) := by
      intro hn
      simp [advance, hn, Next.doom, hact.frame, ha] at hf
    intro e he
    rcases List.mem_append.mp he with he | he
    · exact hact.fresh a e he
    · rcases List.mem_append.mp he with he | he
      · exact fresh_of_still (still_report hn e he)
      · exact fresh_of_still (still_of_note (isNote_notes s t k n e he))

theorem fate_begin (st : OnceInit.Step) : (m.begin s st).1.fate = m.fate := by
  have ho := onset s m st
  generalize m.begin s st = r at ho ⊢
  cases ho <;> rfl

theorem Reaches.fresh (hr : Reaches s (Step.Drives s sch Scoped) (.start cells) m h) : Each Event.Fresh h := by
  by_cases hf : m.fate = none
  · exact (hr.keeps.path.bracketed hf).opened
  · cases hr with
    | start => exact absurd rfl hf
    | begin st _ _ ha _ => exact absurd ((fate_begin st).trans ha) hf
    -- the last turn, which no invariant of living processes speaks about
    | @turn m h hr hu =>
      obtain ⟨ha, ⟨t, k, -, -, hp⟩ | ⟨t, rest, -, -, ht⟩⟩ := hr.keeps.seated.turn_cases (s := s) hu
      · exact (hr.keeps.path.bracketed ha).opened.append fun e he a => hp.fresh ha hf a e he
      · rw [ht] at hf
        exact absurd ha hf

theorem Calm.asleep (hm : m.Calm) (hse : m.Seated) (hs : m.settled = true) (hf : m.fate = none)
    (hk : m.tasks t = some k) : t ∈ m.sleepers := by
  obtain ⟨hr, hq⟩ := idle_of_settled hs hf
  have ht := (hse.busy t).mpr (by simp [hk])
  simpa [seats, hr, hq, hm.queue] using ht

def stack (m : Machine) (t : ThreadId) : List GuardId := (m.frames t).map Frame.guard

/-- How the guards stand between two steps of a process that began with `cells`, after the history `h`. -/
structure Tended (s : Setup) (cells : GuardId → Cell) (m : Machine) (h : List Event) : Prop where
  underWay : ∀ g, (∃ c, s.build.scheme.phaseOf (m.cells g) = .underWay c) ↔ ∃ t, g ∈ m.stack t
  owner : ∀ t g, g ∈ m.stack t → s.build.scheme.phaseOf (m.cells g) =
    .underWay (if s.build.scheme.noticesOwner (cells g).width then .takenBy (m.token s t) else .taken)
  complete : ∀ g, s.build.scheme.phaseOf (m.cells g) = .complete ↔
    (cells g).isComplete = true ∨ ∃ t b e, .closed t g b e ∈ h ∧ e.Succeeds b
  untouched : ∀ g, s.build.scheme.phaseOf (m.cells g) = .untouched ↔
    (∀ t, g ∉ m.stack t) ∧ (cells g).isComplete = false ∧ ∀ t b e, .closed t g b e ∈ h → ¬ e.Succeeds b
  ends : ∀ st t g b e, .closed t g b e ∈ (m.step s st).2 ↔
    st = .finish t e ∧ m.tasks t = none ∧ ∃ rest, m.frames t = ⟨g, b⟩ :: rest

theorem Act.closed_not_mem (ha : Act s m t k m₁ es n) (u : ThreadId) (g : GuardId) (b : Bool) (e : Ending) :
    .closed u g b e ∉ es := by
  cases ha <;> simp

theorem closed_not_mem_turn (u : ThreadId) (g : GuardId) (b : Bool) (e : Ending) : .closed u g b e ∉ (m.turn s).2 := by
  intro he
  obtain ⟨t, k, -, -, hp⟩ | ⟨ht, -, -⟩ := turn_played s m
  · generalize m.turn s = r at hp he
    cases hp with
    | slept | parked => cases List.mem_pair.mp he <;> contradiction
    | act ha =>
      rcases List.mem_append.mp he with he | he
      · exact ha.closed_not_mem u g b e he
      · obtain ⟨_, _, hx⟩ | ⟨_, hx⟩ | ⟨_, hx⟩ | ⟨_, hx⟩ := news_cases he <;> cases hx
  · simp [ht] at he

theorem closed_not_mem_drain (u : ThreadId) (g : GuardId) (b : Bool) (e : Ending) :
    .closed u g b e ∉ (m.drain s).2 := by
  fun_induction drain s m with
  | case1 => simp
  | case2 m _ _ ih =>
    intro he
    exact (List.mem_append.mp he).elim (closed_not_mem_turn u g b e) ih

theorem closed_mem_step_iff (hf : m.fate = none) {st : OnceInit.Step} {g : GuardId} {b : Bool} {e : Ending} :
    .closed t g b e ∈ (m.step s st).2 ↔
      st = .finish t e ∧ m.tasks t = none ∧ ∃ rest, m.frames t = ⟨g, b⟩ :: rest := by
  rw [step_of_alive hf, prepend, List.mem_append, or_iff_left (closed_not_mem_drain t g b e)]
  constructor
  · intro he
    have ho := onset s m st
    generalize m.begin s st = r at ho he
    cases ho with
    | @closed u f rest e' free top =>
      obtain ⟨rfl, rfl, rfl, rfl⟩ : t = u ∧ g = f.guard ∧ b = f.fallible ∧ e = e' := by
        simpa [emit, launch] using he
      exact ⟨rfl, free, rest, top⟩
    | armed | poked | freed | skipped | declined | woken | launched => simp [launch] at he
  · rintro ⟨rfl, free, rest, top⟩
    simp [begin, free, top, emit]

theorem phase_eq_untouched_iff (p : Phase) :
    p = .untouched ↔ (¬ ∃ c, p = .underWay c) ∧ ¬ p = .complete := by
  cases p <;> simp

theorem Reaches.tended (hz : ∀ g c, s.build.scheme.phaseOf (cells g) ≠ .underWay c)
    (hr : Reaches s (Step.Drives s (fun _ => s.build.scheme) Scoped) (.start cells) m h)
    (hs : m.settled = true) (hf : m.fate = none) : m.Tended s cells h := by
  have hp := hr.keeps.path
  have hb := hp.bracketed hf
  have hh := hp.held hb.contract
  have rest : ∀ t k, m.tasks t = some k → k.op = .acquire ∧ k.point = .waking := by
    intro t k hk
    obtain ⟨k', me, ha⟩ := hp.watched t ((hr.calm hf).asleep hr.keeps.seated hs hf hk)
    cases hk.symm.trans ha.task
    exact ⟨ha.acquires, ha.waking⟩
  have dues : ∀ t, (m.ledger h).dues t = [] := by
    intro t
    cases hk : (m.ledger h).tasks t with
    | none => exact Ledger.dues_of_none hk
    | some k => rw [Ledger.dues_of_some hk, Task.dues_eq_nil (by rw [(rest t k hk).2]; rfl)]
  have holds : ∀ t g, Holds h t g ↔ g ∈ m.stack t := by
    intro t g
    have hc := hb.holds t g
    rw [Ledger.charge, dues] at hc
    exact hc
  have underWay : ∀ g, (∃ c, s.build.scheme.phaseOf (m.cells g) = .underWay c) ↔ ∃ t, g ∈ m.stack t := by
    intro g
    constructor
    · intro hc
      obtain ⟨c, hc⟩ := hc
      obtain ⟨t, ht | ⟨k, hk, -, hpt⟩⟩ := hp.covered hz (hp.accepted hf) g c hc
      · exact ⟨t, (holds t g).mp ht⟩
      · cases (rest t k hk).2.symm.trans hpt
    · intro ht
      obtain ⟨t, ht⟩ := ht
      exact hh.phaseOf ((holds t g).mpr ht)
  have complete : ∀ g, s.build.scheme.phaseOf (m.cells g) = .complete ↔
      (cells g).isComplete = true ∨ Succeeded h g := by
    intro g
    rw [Scheme.phaseOf_eq_complete_iff]
    have hc := hb.closed g
    simp only [dues, List.not_mem_nil, exists_false, or_false] at hc
    exact (hh.complete g).trans (or_congr_right hc.symm)
  exact {
    underWay := underWay
    owner := by
      intro t g ht
      obtain ⟨me, hme, hc⟩ := hh.claimed t g ((holds t g).mpr ht)
      have hw := hp.width g
      change m.cells g = _ at hc
      rw [hc, Scheme.phaseOf_claimed, hw, token_of_known hme]
    complete := complete
    untouched := by
      intro g
      rw [phase_eq_untouched_iff, underWay, complete]
      simp [Succeeded]
    ends := fun st t g b e => closed_mem_step_iff hf }

end Machine
end OnceInit

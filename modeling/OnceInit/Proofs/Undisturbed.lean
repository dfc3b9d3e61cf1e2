import OnceInit.Proofs.Discipline
import OnceInit.Proofs.HandOver
import OnceInit.Proofs.Standing

/-! Guards that are none of a step's business. All guards share one condition variable, and whoever sleeps is woken by a
release or an abort of any of them. A thread that waits for another guard looks at its cell, finds the claim that it
waits for, and goes back to sleep. -/

namespace OnceInit

def callsOf (t : ThreadId) (es : List Event) : List Mark :=
  es.filterMap fun
    | .call u x => if u = t then some x else none
    | _ => none

theorem callsOf_append (t : ThreadId) (es fs : List Event) : callsOf t (es ++ fs) = callsOf t es ++ callsOf t fs :=
  List.filterMap_append

theorem callsOf_eq_nil {t : ThreadId} {es : List Event} (hs : ∀ x, .call t x ∉ es) : callsOf t es = [] := by
  refine List.filterMap_eq_nil_iff.mpr fun e he => ?_
  split
  · next u x =>
    refine if_neg fun hu => hs x ?_
    rwa [← hu]
  · rfl

def Event.disturbs (g : GuardId) : Event → Bool
  | write _ _ d _ => d = g
  | ended _ _ d (.gives (.granted true)) => d = g
  | _ => false

namespace Machine

variable {s : Setup} {sch : GuardId → Scheme} {cells : GuardId → Cell} {m m₀ m₁ : Machine} {h es : List Event}
  {t u : ThreadId} {i j k : Task} {g : GuardId} {me : Token} {n : Next} {cs : List Mark} {r : Machine × List Event}

section Played

variable (hp : Played s m u j r)

include hp

theorem Played.calls_own {x : Mark} (he : .call t x ∈ r.2) : t = u := by
  cases hp with
  | slept => exact (by simpa using he : _ ∧ _).1
  | parked => exact (by simpa [park] using he : _ ∧ _).1
  | @act m₁ es n ha =>
    replace he := (List.mem_append.mp he).resolve_right (call_not_mem_news n t _)
    cases ha with
    | lock | asked | read | wrote => simp at he
    | refused | unlock | broadcast | took => exact (by simpa using he : _ ∧ _).1

theorem Played.places : m.ready ⊆ r.1.ready ∧
    (m.sleepers ⊆ r.1.sleepers ∨ j.point = .announcing ∧ m.sleepers ⊆ r.1.ready ∧ r.1.tasks u = none) := by
  cases hp with
  | slept => exact ⟨List.subset_append_left .., .inl (List.subset_append_left ..)⟩
  | parked => exact ⟨List.Subset.refl _, .inl (List.Subset.refl _)⟩
  | act ha =>
    cases ha with
    | refused | lock | took | read | asked | wrote => exact ⟨List.Subset.refl _, .inl (List.Subset.refl _)⟩
    | unlock => exact ⟨List.subset_append_left .., .inl (List.Subset.refl _)⟩
    | broadcast hn =>
      cases Task.calls hn with
      | broadcast hp =>
        refine ⟨List.subset_append_left .., .inr ⟨hp, fun v hv => ?_, put_same ..⟩⟩
        exact List.mem_append_right _ (mem_wakeOrder.mpr hv)

end Played

structure Quiet (sch : GuardId → Scheme) (m : Machine) (g : GuardId) : Prop where
  underWay : ∃ c, (sch g).phaseOf (m.cells g) = .underWay c
  unsettled : ∀ u j, m.tasks u = some j → j.guard = g → j.op.settles = false
  ungranted : ∀ u j, m.tasks u = some j → j.guard = g → j.point ≠ .leaving (.granted true)

theorem Quiet.not_write (hq : m.Quiet sch g) (hj : m.tasks u = some j) (hg : j.guard = g)
    (hs : j.scheme = sch j.guard) (hf : j.Fits (m.cells j.guard) (m.tokens.known u)) (new : Width → Cell) (n : Next) :
    j.node ≠ .write new n := by
  intro hn
  subst hg
  obtain ⟨c, hc⟩ := hq.underWay
  cases Task.writes hn with
  | claim hp =>
    simp only [Task.Fits, hp] at hf
    cases (hs ▸ hf.2.2).symm.trans hc
  | store hp =>
    simp only [Task.Fits, hp] at hf
    cases (hq.unsettled u j hj rfl).symm.trans hf

theorem Act.point_ne_granted (ha : Act s m u j m₁ es n) (hw : ∀ new x, j.node ≠ .write new x)
    (hn : n.after j = some k) : k.point ≠ .leaving (.granted true) := by
  cases ha with
  | refused hx => cases (Task.after_refused hx _).symm.trans hn
  | lock hx | unlock hx | broadcast hx =>
    intro hp
    have ho := (Task.outside_of_called hx hn).1
    rw [hp] at ho
    cases ho
  | took hx =>
    cases (Task.after_take hx).2.symm.trans hn
    split <;> nofun
  | read hx =>
    obtain ⟨k', hk, -, hp, -⟩ := Task.after_read hx (m.cells j.guard)
    cases hk.symm.trans hn
    exact hp
  | asked hx =>
    obtain ⟨k', hk, -, hp, -⟩ := Task.after_ask hx (m.token s u)
    cases hk.symm.trans hn
    exact hp
  | wrote hx => exact absurd hx (hw _ _)

theorem Played.point_ne_granted (hp : Played s m u j r) (hw : ∀ new x, j.node ≠ .write new x)
    (hn : j.point ≠ .leaving (.granted true)) (hj : m.tasks u = some j) (hk : r.1.tasks u = some k) :
    k.point ≠ .leaving (.granted true) := by
  cases hp with
  | act ha => exact ha.point_ne_granted hw ((put_same ..).symm.trans hk)
  | slept =>
    cases (put_same ..).symm.trans hk
    nofun
  | parked =>
    cases hj.symm.trans hk
    exact hn

theorem Act.point_of_granted {b : Bool} (ha : Act s m u j m₁ es (.finish (.gives (.granted b)))) :
    j.point = .leaving (.granted b) := by
  obtain ⟨c, n, r, hn, hx | ⟨f, hx⟩⟩ := ha.called_of_finish
  · exact Task.point_of_granted hn hx
  · cases hx

theorem Played.disturbs {e : Event} (hp : Played s m u j r) (he : e ∈ r.2) (hd : e.disturbs g = true) :
    j.guard = g ∧ ((∃ new n, j.node = .write new n) ∨ j.point = .leaving (.granted true)) := by
  cases hp with
  | slept =>
    obtain rfl | rfl : e = _ ∨ e = _ := by simpa using he
    all_goals cases hd
  | parked =>
    obtain rfl | rfl : e = _ ∨ e = _ := by simpa [park] using he
    all_goals cases hd
  | @act m₁ es n ha =>
    rcases List.mem_append.mp he with hes | hes
    · cases ha with
      | lock | asked => cases hes
      | refused | unlock | broadcast | took | read =>
        cases List.mem_singleton.mp hes
        cases hd
      | wrote hn =>
        cases List.mem_singleton.mp hes
        exact ⟨of_decide_eq_true hd, .inl ⟨_, _, hn⟩⟩
    · obtain ⟨x, rfl, rfl⟩ | ⟨d, rfl⟩ | ⟨x, rfl⟩ | ⟨a, rfl⟩ := news_cases hes
      · unfold Event.disturbs at hd
        split at hd
        · next hx => cases hx
        · next hx =>
          cases hx
          exact ⟨of_decide_eq_true hd, .inr ha.point_of_granted⟩
        · cases hd
      all_goals cases hd

theorem Quiet.played (hq : m.Quiet sch g) (hj : m.tasks u = some j) (hs : j.scheme = sch j.guard)
    (hf : j.Fits (m.cells j.guard) (m.tokens.known u)) (hp : Played s m u j r) :
    r.1.Quiet sch g ∧ r.1.cells g = m.cells g ∧ ∀ e ∈ r.2, e.disturbs g = false := by
  have hw := fun hg => hq.not_write hj hg hs hf
  have hc : r.1.cells g = m.cells g := by
    rcases hp.cells_cases with hc | ⟨new, n, c, hn, hc⟩
    · rw [hc]
    · rw [hc, put_of_ne]
      exact fun hg => hw hg.symm new n hn
  refine ⟨⟨hc.symm ▸ hq.underWay, fun v i hi hg => ?_, fun v i hi hg => ?_⟩, hc, fun e he => ?_⟩
  · obtain ⟨i₀, p, hi₀, rfl⟩ := hp.task hj hi
    exact hq.unsettled v i₀ hi₀ hg
  · by_cases hv : v = u
    · subst hv
      obtain ⟨j', p, hj', rfl⟩ := hp.task hj hi
      cases hj.symm.trans hj'
      exact hp.point_ne_granted (hw hg) (hq.ungranted v j hj hg) hj hi
    · exact hq.ungranted v i ((hp.task_of_ne hv).symm.trans hi) hg
  · by_contra hd
    obtain ⟨hg, ⟨new, n, hn⟩ | hx⟩ := hp.disturbs he (by simpa using hd)
    · exact hw hg new n hn
    · exact hq.ungranted u j hj hg hx

def Tame (m : Machine) : Prop := ∀ u j, m.tasks u = some j → j.op.settles = false

theorem Tame.played (ht : m.Tame) (hj : m.tasks u = some j) (hp : Played s m u j r) : r.1.Tame := by
  intro v i hi
  obtain ⟨i₀, p, hi₀, rfl⟩ := hp.task hj hi
  exact ht v i₀ hi₀

inductive Stays (m : Machine) (t : ThreadId) (k : Task) : List Mark → Prop
  | asleep (task : m.tasks t = some k) (mem : t ∈ m.sleepers)
      (one : ∃ v, ∀ u j, m.tasks u = some j → j.op.settles = true → u = v) : Stays m t k []
  | roused (task : m.tasks t = some k) (mem : t ∈ m.ready) (tame : m.Tame) : Stays m t k []
  | awake (task : m.tasks t = some k) (running : m.running = some t) (tame : m.Tame) : Stays m t k []
  | looking {p : Point} (task : m.tasks t = some { k with point := p }) (running : m.running = some t)
      (point : p = .reading ∨ p = .judging (m.cells k.guard) ∨ p = .waiting) (tame : m.Tame) : Stays m t k [.woke]
  | back (task : m.tasks t = some k) (mem : t ∈ m.sleepers) (tame : m.Tame) : Stays m t k [.woke, .slept]

theorem Tame.asleep (tame : m.Tame) (task : m.tasks t = some k) (mem : t ∈ m.sleepers) : m.Stays t k [] :=
  .asleep task mem ⟨t, fun u j hj ho => nomatch (tame u j hj).symm.trans ho⟩

theorem Stays.of_ne (hx : m.Stays t k cs) (hr : m.running = some u) (hj : m.tasks u = some j)
    (hf : j.Fits (m.cells j.guard) (m.tokens.known u)) (hu : t ≠ u) (hp : Played s m u j r) : r.1.Stays t k cs := by
  have ht := hp.task_of_ne hu
  have hann : j.point = .announcing → j.op.settles = true := fun ha => by simpa only [Task.Fits, ha] using hf
  obtain ⟨hready, hplaces⟩ := hp.places
  cases hx with
  | asleep task mem one =>
    obtain ⟨v, hv⟩ := one
    rcases hplaces with hs | ⟨ha, hs, hd⟩
    · refine .asleep (ht.trans task) (hs mem) ⟨v, fun w i hi ho => ?_⟩
      obtain ⟨i₀, p, hi₀, rfl⟩ := hp.task hj hi
      exact hv w i₀ hi₀ ho
    · refine .roused (ht.trans task) (hs mem) fun w i hi => ?_
      obtain ⟨i₀, p, hi₀, rfl⟩ := hp.task hj hi
      by_contra ho
      have hw : w = u := (hv w i₀ hi₀ (by simpa using ho)).trans (hv u j hj (hann ha)).symm
      subst hw
      cases hd.symm.trans hi
  | roused task mem tame => exact .roused (ht.trans task) (hready mem) (tame.played hj hp)
  | awake _ running => exact absurd (Option.some.inj (running.symm.trans hr)) hu
  | looking _ running => exact absurd (Option.some.inj (running.symm.trans hr)) hu
  | back task mem tame =>
    refine .back (ht.trans task) (hplaces.elim (fun hs => hs mem) fun ha => ?_) (tame.played hj hp)
    cases (tame u j hj).symm.trans (hann ha.1)

theorem callsOf_news (t : ThreadId) (es : List Event) (n : Next) :
    callsOf t (es ++ (n.report u j ++ n.notes s u j)) = callsOf t es := by
  rw [callsOf_append, callsOf_eq_nil fun x => call_not_mem_news n t x, List.append_nil]

theorem Act.stays {p : Point} (ha : Act s m t j m₁ es n) (hu : m.Unarmed) (hr : m.running = some t)
    (hj : m.tasks t = some j) (hn : n.after j = some { k with point := p })
    (hp : p = .reading ∨ p = .judging (m₁.cells k.guard) ∨ p = .waiting) (tame : m.Tame)
    (hc : cs ++ callsOf t es = [.woke]) : (m.turn s).1.Stays t k (cs ++ callsOf t (m.turn s).2) := by
  have hplayed : Played s m t j (m₁.advance t j n, es ++ (n.report t j ++ n.notes s t j)) := .act ha
  rw [ha.turn_eq (hu.accepts j) hr hj, callsOf_news, hc]
  refine .looking ((put_same ..).trans hn) ?_ hp (tame.played hj hplayed)
  simp [advance, hn]

theorem Seated.not_ready (hs : m.Seated) (hr : m.running = some t) : t ∉ m.ready := by
  have hn := hs.nodup
  rw [seats, hr] at hn
  intro ht
  simp [ht] at hn

section Own

variable (ho : k.op = .acquire) (hp : k.point = .waking) (hs : k.scheme = sch k.guard) (hk : m.Kept sch k me)
  (ht : m.tokens.known t = some me)

include ho hp hs hk ht

theorem Stays.own (hx : m.Stays t k cs) (hseat : m.Seated) (hcalm : m.Calm) (hu : m.Unarmed)
    (hr : m.running = some t) : (m.turn s).1.Stays t k (cs ++ callsOf t (m.turn s).2) := by
  obtain ⟨c, hc, hne⟩ := hk
  obtain ⟨hcomplete, hclaim, hfree⟩ := (Scheme.phaseOf_eq_underWay_iff ..).mp hc
  cases hx with
  | asleep _ mem | back _ mem => exact absurd mem (hseat.awake hr)
  | roused _ mem => exact absurd mem (hseat.not_ready hr)
  | awake task _ tame =>
    have hn : k.node = .take true k.entered := by rw [Task.node, hp]
    have free : m.owner = none := hcalm.loose.free_outside hr task (Task.outside_of_take hn)
    refine (Act.took hn free).stays (p := .reading) hu hr task ?_ (.inl rfl) tame (by simp [callsOf])
    rw [(Task.after_take hn).2, ho]
    rfl
  | @looking p task _ point tame =>
    obtain rfl | rfl | rfl := point
    · refine (Act.read rfl).stays hu hr task (p := .judging (m.cells k.guard)) ?_ (.inr (.inl rfl)) tame
        (by simp [callsOf])
      simp [Task.seen, ho, hcomplete, Next.after]
    · refine (Act.asked rfl).stays hu hr task (p := .waiting) ?_ (.inr (.inr rfl)) tame (by simp [callsOf])
      rw [token_of_known ht, Task.judge_of_underWay (k := { k with point := _ }) (hs ▸ hc) hne]
      rfl
    · have hslept := turn_slept (s := s) hr task rfl (hu.refusal .wait)
      have hc : [Mark.woke] ++ callsOf t [.call t .slept, .answer t .waiting] = [.woke, .slept] := by simp [callsOf]
      rw [hslept, hc]
      refine .back ?_ (by simp [dozing]) ?_
      · exact (put_same ..).trans (by rw [← hp])
      · exact tame.played task (hslept ▸ played_turn hr task)

end Own

structure Spared (sch : GuardId → Scheme) (m : Machine) (t : ThreadId) (k : Task) (c : Cell) (es : List Event) :
    Prop where
  cell : m.cells k.guard = c
  quiet : m.Quiet sch k.guard
  events : ∀ e ∈ es, e.disturbs k.guard = false
  stays : m.Stays t k (callsOf t es)

theorem Stays.resume (hx : m.Stays t k cs) (hr : m.running = none) {rest : List ThreadId} (hq : m.ready = u :: rest) :
    Stays { m with running := some u, ready := rest } t k cs := by
  cases hx with
  | asleep task mem one => exact .asleep task mem one
  | roused task mem tame =>
    rw [hq] at mem
    cases mem with
    | head => exact .awake task rfl tame
    | tail _ mem => exact .roused task mem tame
  | awake _ running | looking _ running => cases hr.symm.trans running
  | back task mem tame => exact .back task mem tame

theorem Spared.turn {c : Cell} (hx : m.Spared sch t k c es) (hr : Reaches s (Step.Smooth s sch) (.start cells) m h)
    (hu : m.settled = false) (ho : k.op = .acquire) (hp : k.point = .waking) (hs : k.scheme = sch k.guard)
    (hk : m.Kept sch k me) (ht : m.tokens.known t = some me) :
    (m.turn s).1.Spared sch t k c (es ++ (m.turn s).2) := by
  obtain ⟨-, ⟨u, j, hrun, hj, hplayed⟩ | ⟨u, rest, hrun, hq, hturn⟩⟩ := hr.seated.turn_cases (s := s) hu
  · have hf := hr.standing.fits u j hj
    obtain ⟨quiet, cell, events⟩ := hx.quiet.played hj (hr.scheme_eq hj) hf hplayed
    refine ⟨cell.trans hx.cell, quiet, fun e he => (List.mem_append.mp he).elim (hx.events e) (events e), ?_⟩
    rw [callsOf_append]
    by_cases he : t = u
    · subst he
      exact hx.stays.own ho hp hs hk ht hr.seated hr.sound.calm_of_sound hr.sound.unarmed.1 hrun
    · rw [callsOf_eq_nil fun x hm => he (hplayed.calls_own hm), List.append_nil]
      exact hx.stays.of_ne hrun hj hf he hplayed
  · rw [hturn, List.append_nil]
    exact ⟨hx.cell, ⟨hx.quiet.underWay, hx.quiet.unsettled, hx.quiet.ungranted⟩, hx.events, hx.stays.resume hrun hq⟩

theorem Poised.asleep_of_task (hp : m.Poised sch) (hj : m.tasks u = some j) : j.op = .acquire ∧ j.point = .waking := by
  obtain ⟨i, me, hd, -⟩ := hp.asleep u ((hp.busy u).mpr (by simp [hj]))
  cases hj.symm.trans hd.task
  exact ⟨hd.acquires, hd.waking⟩

theorem Poised.tame (hp : m.Poised sch) : m.Tame := fun u j hj => by rw [(hp.asleep_of_task hj).1]; rfl

theorem Poised.quiet (hp : m.Poised sch) (hk : m.Kept sch k me) : m.Quiet sch k.guard where
  underWay := by
    obtain ⟨c, hc, -⟩ := hk
    exact ⟨c, hc⟩
  unsettled := fun u j hj _ => hp.tame u j hj
  ungranted := fun u j hj _ hg => by cases (hp.asleep_of_task hj).2.symm.trans hg

theorem Poised.spared_launch (hp : m.Poised sch) (ht : t ∈ m.sleepers) (hk : m.Kept sch k me) (hkt : m.tasks t = some k)
    (free : m.tasks u = none) (hl : j.point = .locking) (hn : j.guard = k.guard → j.op.settles = false)
    (hes : ∀ e ∈ es, e.disturbs k.guard = false) (hcs : callsOf t es = []) :
    (m.launch u j).1.Spared sch t k (m.cells k.guard) es := by
  have hq := hp.quiet hk
  have htu : t ≠ u := by
    rintro rfl
    cases hkt.symm.trans free
  refine ⟨rfl, ⟨hq.underWay, fun v i hi hg => ?_, fun v i hi hg => ?_⟩, hes,
    hcs ▸ .asleep ?_ ht ⟨u, fun v i hi ho => ?_⟩⟩
  · obtain hi | ⟨-, rfl⟩ := task_of_launch hi
    · exact hq.unsettled v i hi hg
    · exact hn hg
  · obtain hi | ⟨-, rfl⟩ := task_of_launch hi
    · exact hq.ungranted v i hi hg
    · rw [hl]
      nofun
  · exact (put_of_ne _ _ htu).trans hkt
  · obtain hi | ⟨rfl, -⟩ := task_of_launch hi
    · cases (hp.tame v i hi).symm.trans ho
    · rfl

theorem disturbs_of_note {e : Event} (he : e.isNote = true) : e.disturbs g = false := by
  unfold Event.isNote at he
  split at he <;> trivial

theorem Poised.spared_begin (hp : m.Poised sch) {st : OnceInit.Step} (hst : st.Smooth s sch) (ht : t ∈ m.sleepers)
    (hkt : m.tasks t = some k) (hk : m.Kept sch k me)
    (hn : ∀ u op, op.settles = true → .began u op k.guard ∉ (m.begin s st).2) :
    (m.begin s st).1.Spared sch t k (m.cells k.guard) (m.begin s st).2 := by
  have hcs : callsOf t (m.begin s st).2 = [] := callsOf_eq_nil (begin_calls st t)
  have hq := hp.quiet hk
  have hb := hp.begins hst
  have unsettled : ∀ {u : ThreadId} {j : Task}, .began u j.op j.guard ∈ (m.begin s st).2 →
      j.guard = k.guard → j.op.settles = false := by
    intro u j hm hg
    by_contra ho
    exact hn u j.op (by simpa using ho) (hg ▸ hm)
  generalize m.begin s st = b at hb hcs unsettled ⊢
  cases hb with
  | nothing notes =>
    exact ⟨rfl, hq, fun e he => disturbs_of_note (notes e he), hcs ▸ hp.tame.asleep hkt ht⟩
  | @wakes u mem =>
    refine ⟨rfl, ⟨hq.underWay, hq.unsettled, hq.ungranted⟩, by simp, ?_⟩
    by_cases hu : t = u
    · subst hu
      exact .awake hkt rfl hp.tame
    · have tame : Tame { m with running := some u, sleepers := m.sleepers.erase u } := hp.tame
      exact tame.asleep hkt ((List.mem_erase_of_ne hu).mpr ht)
  | @starts u j _ _ _ free _ hj _ =>
    have hl : j.point = .locking := by rw [GuardKind.task?_eq hj, Task.start]
    exact hp.spared_launch ht hk hkt free hl (unsettled (u := u) (j := j) (List.mem_singleton.mpr rfl))
      (by simp [launch, Event.disturbs]) hcs
  | @closes u f rest e free top =>
    have hp' := hp.of_frames (put m.frames u rest)
    have hx := hp'.spared_launch (j := f.task s.build e) ht hk hkt free rfl
      (unsettled (List.mem_cons_of_mem _ (List.mem_singleton.mpr rfl))) (by simp [launch, emit, Event.disturbs]) hcs
    exact ⟨hx.cell, hx.quiet, hx.events, hx.stays⟩

theorem Reaches.spared {st : OnceInit.Step} {h₀ : List Event} (hr : Reaches s (Step.Smooth s sch) (.start cells) m₀ h₀)
    (hs : m₀.settled = true) (hf : m₀.fate = none) (hst : st.Smooth s sch) (ht : t ∈ m₀.sleepers)
    (hd : m₀.Dozes sch t k me) (hk : m₀.Kept sch k me)
    (hn : ∀ u op, op.settles = true → .began u op k.guard ∉ (m₀.begin s st).2)
    (hr' : Reaches s (fun _ => False) (m₀.begin s st).1 m es) :
    m.Spared sch t k (m₀.cells k.guard) ((m₀.begin s st).2 ++ es) := by
  induction hr' with
  | start =>
    rw [List.append_nil]
    exact (hr.poised hs hf).spared_begin hst ht hd.task hk hn
  | begin _ _ _ _ hno => exact hno.elim
  | @turn m es hr' hu ih =>
    have hm : Reaches s (Step.Smooth s sch) m₀ m ((m₀.begin s st).2 ++ es) :=
      (Reaches.start.begin st hs hf hst).trans (hr'.mono fun _ => False.elim)
    have hkept : m.Kept sch k me := by
      obtain ⟨c, hc, hne⟩ := hk
      exact ⟨c, ih.cell.symm ▸ hc, hne⟩
    rw [← List.append_assoc]
    exact ih.turn (hr.trans hm) hu hd.acquires hd.waking hd.scheme hkept (hr.known_mono hm hd.known)

/-- What is left as it was, for `t` which waited inside of `k`, when `m` has become `m'` by the events `es`. If it is
still ready to go on, the process has come to its end. -/
structure Undisturbed (m m' : Machine) (es : List Event) (t : ThreadId) (k : Task) : Prop where
  cell : m'.cells k.guard = m.cells k.guard
  unwritten : ∀ u op c, .write u op k.guard c ∉ es
  ungranted : ∀ u op, .ended u op k.guard (.gives (.granted true)) ∉ es
  task : m'.tasks t = some k
  waits : t ∈ m'.sleepers ∨ m'.fate ≠ none ∧ t ∈ m'.ready
  calls : callsOf t es = [] ∨ callsOf t es = [.woke, .slept]

theorem Spared.undisturbed {c : Cell} (hx : m₁.Spared sch t k c es) (hc : m.cells k.guard = c)
    (hseat : m₁.Seated) (hs : m₁.settled = true) : Undisturbed m m₁ es t k := by
  have hrun := hseat.idle hs
  have disturbs := fun e he hd => Bool.false_ne_true ((hx.events e he).symm.trans hd)
  obtain ⟨task, waits, calls⟩ : m₁.tasks t = some k ∧ (t ∈ m₁.sleepers ∨ m₁.fate ≠ none ∧ t ∈ m₁.ready) ∧
      (callsOf t es = [] ∨ callsOf t es = [.woke, .slept]) := by
    have hstays := hx.stays
    generalize callsOf t es = cs at hstays
    cases hstays with
    | asleep task mem => exact ⟨task, .inl mem, .inl rfl⟩
    | roused task mem =>
      refine ⟨task, .inr ⟨fun hf => ?_, mem⟩, .inl rfl⟩
      rw [(idle_of_settled hs hf).2] at mem
      cases mem
    | awake _ running | looking _ running => cases hrun.symm.trans running
    | back task mem => exact ⟨task, .inl mem, .inr rfl⟩
  exact ⟨hx.cell.trans hc.symm, fun u op c he => disturbs _ he (decide_eq_true rfl),
    fun u op he => disturbs _ he (decide_eq_true rfl), task, waits, calls⟩

/-- Whatever is done that releases or aborts no guard but others than the one that `t` waits for. -/
theorem no_interference {st : OnceInit.Step} (hr : Reaches s (Step.Smooth s sch) (.start cells) m h)
    (hs : m.settled = true) (ht : t ∈ m.sleepers) (hk : m.tasks t = some k) (hst : st.Drives s sch fun _ _ => True)
    (hn : ∀ u op, op.settles = true → .began u op k.guard ∉ (m.step s st).2) :
    k.op = .acquire ∧ Undisturbed m (m.step s st).1 (m.step s st).2 t k := by
  obtain ⟨i, _, ha⟩ := hr.drives.keeps.path.watched t ht
  cases hk.symm.trans ha.task
  refine ⟨ha.acquires, ?_⟩
  have unmoved : ∀ {fs}, Undisturbed m { m with faults := fs } [] t k :=
    ⟨rfl, by simp, by simp, hk, .inl ht, .inl rfl⟩
  by_cases hf : m.fate = none
  · by_cases hfault : ∃ c f, st = .fault c f
    · obtain ⟨c, f, rfl⟩ := hfault
      have harm : m.step s (.fault c f) = (m.arm c f, []) := by
        rw [step_of_alive hf, begin, drain_of_settled (m := m.arm c f) hs]
        rfl
      rw [harm]
      exact unmoved
    · have hst : st.Smooth s sch := ⟨hst.suits, fun c f hc => hfault ⟨c, f, hc⟩⟩
      obtain ⟨j, me, hd, hkept⟩ := (hr.poised hs hf).asleep t ht
      cases hk.symm.trans hd.task
      rw [step_of_alive hf] at hn ⊢
      have hx := hr.spared hs hf hst ht hd hkept (fun u op ho he => hn u op ho (List.mem_append_left _ he))
        (Reaches.start.drain (s := s))
      rw [List.nil_append] at hx
      exact hx.undisturbed rfl ((hr.begin st hs hf hst).drain.seated) (settled_drain s _)
  · have hend : m.step s st = (m, []) := step_of_ended (by simpa [Option.isSome_iff_ne_none] using hf) st
    rw [hend]
    exact unmoved

/-- While two threads wait for two guards, one of which is aborted. -/
theorem no_interference_aborted : ∃ m h,
    Reaches (.plain .owner) (Step.Smooth (.plain .owner) fun _ => .owner) (.start fun _ => .zero .wide) m h ∧
    m.sleepers = [1, 2] ∧
    .ended 2 .acquire 1 (.gives (.granted true)) ∈ (m.step (.plain .owner) (.act 0 1 none (some .abort))).2 ∧
    Undisturbed m (m.step (.plain .owner) (.act 0 1 none (some .abort))).1
      (m.step (.plain .owner) (.act 0 1 none (some .abort))).2 1 ⟨.acquire, 0, .owner, .plain, .waking⟩ := by
  have hr : Reaches (.plain .owner) (Step.Smooth (.plain .owner) fun _ => .owner)
      (.start fun _ => .zero .wide) _ [] := .start
  have hp := Setup.plain_smooth .owner
  have h₁ := (hr.begin (.act 0 0 none (some .acquire)) (by decide) (by decide) (hp ..)).turns 9
  have h₂ := (h₁.begin (.act 1 0 none (some .acquire)) (by decide) (by decide) (hp ..)).turns 9
  have h₃ := (h₂.begin (.act 0 1 none (some .acquire)) (by decide) (by decide) (hp ..)).turns 9
  have h₄ := (h₃.begin (.act 2 1 none (some .acquire)) (by decide) (by decide) (hp ..)).turns 9
  refine ⟨_, _, h₄, by decide, ?_, (no_interference h₄ (by decide) (by decide) (by decide)
    (Setup.plain_drives .owner 0 1 .abort) fun u op _ he => ?_).2⟩
  · rw [step_eq_turns (n := 40) (by decide) (by decide)]
    decide
  · rw [step_of_alive (by decide)] at he
    cases List.mem_singleton.mp ((List.mem_append.mp he).resolve_right (not_began_of_drain _ u op 0))

end Machine
end OnceInit

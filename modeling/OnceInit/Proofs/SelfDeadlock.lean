import OnceInit.Proofs.HandOver

/-! A thread that asks for a guard which it holds. Where claims name their owners it is told at once, and it alone is
ever told so. Where they do not it waits, and it waits for ever. -/

namespace OnceInit

def Point.pending : Point → Bool
  | .locking | .contending | .reading | .judging _ | .waiting | .waking => true
  | _ => false

namespace Ledger

variable {cells : GuardId → Cell} {sch : GuardId → Scheme} {ok : Deed → Prop} {l₀ l l' : Ledger}
  {t u : ThreadId} {d : Deed} {k : Task} {n : Next} {g : GuardId}

structure Stuck (l : Ledger) (t : ThreadId) (g : GuardId) : Prop where
  holds : Holds l.past t g
  waits : ∃ k, l.tasks t = some k ∧ k.op = .acquire ∧ k.guard = g ∧ k.point.pending = true

theorem Step.not_ended {k' : Task} {es : List Event} (hs : l.Step sch t d l') (hk' : l'.tasks u = some k')
    (hp : l'.past = l.past ++ es) (o : Op) (g : GuardId) (r : Outcome) : .ended u o g r ∉ es := by
  intro he
  obtain ⟨es', hp', ht⟩ := hs.news
  obtain rfl := List.append_cancel_left (hp.symm.trans hp')
  obtain rfl := ht _ he
  have quiet : ∀ {k : Task} {n : Next} {ev : List Event}, n.after k = some k' → es = ev ++ n.report u k →
      (∀ e ∈ ev, ∀ o g r, e ≠ .ended u o g r) → False := by
    intro k n ev ha hes hev
    rw [Next.report_of_after ha, List.append_nil] at hes
    exact hev _ (hes ▸ he) o g r rfl
  clear hp'
  cases hs with
  | note hn =>
    obtain rfl := List.append_cancel_left hp
    rw [← List.mem_singleton.mp he] at hn
    cases hn
  | begin | close =>
    simp only [Ledger.launch, Ledger.add, List.append_assoc, List.append_cancel_left_eq] at hp
    rw [← hp] at he
    simp at he
  | wake => simp_all
  | @called k c =>
    refine quiet ((put_same ..).symm.trans hk') (List.append_cancel_left hp).symm ?_
    cases c <;> simp [Call.marks]
  | refused | took | read | asked | wrote =>
    exact quiet ((put_same ..).symm.trans hk') (List.append_cancel_left hp).symm (by simp)

theorem Held.pending (hl : l.Held cells sch) (hs : l.Sound sch) (hst : l.Step sch t d l')
    (hn : (sch k.guard).noticesOwner (l.cells k.guard).width = false) (hd : ∀ c, d ≠ .refused c)
    (hh : Holds l.past t k.guard) (hk : l.tasks t = some k) (ho : k.op = .acquire) (hp : k.point.pending = true) :
    d ≠ .wrote ∧ ∃ p : Point, l'.tasks t = some { k with point := p } ∧ p.pending = true := by
  obtain ⟨hq, hf⟩ := hs.fits t k hk
  obtain ⟨me, -, hc⟩ := hl.claimed t k.guard hh
  cases hst with
  | note | wake => exact ⟨by simp, k.point, hk, hp⟩
  | begin _ _ _ free | close _ free => cases hk.symm.trans free
  | called hk' _ hnode =>
    cases hk.symm.trans hk'
    cases Task.calls hnode with
    | lock | wait => exact ⟨by simp, _, put_same .., rfl⟩
    | unlock hp' | yield hp' | broadcast hp' =>
      rw [hp'] at hp
      cases hp
  | refused => exact absurd rfl (hd _)
  | took hk' _ hnode =>
    cases hk.symm.trans hk'
    refine ⟨by simp, _, (put_same ..).trans (Task.after_take hnode).2, ?_⟩
    rw [ho]
    rfl
  | read hk' _ hnode =>
    cases hk.symm.trans hk'
    simp only [Task.node, Task.point_of_read hnode, Node.read.injEq] at hnode
    subst hnode
    have hseen : k.seen (l.cells k.guard) = .go (.judging (l.cells k.guard)) := by
      simp [Task.seen, ho, hl.not_complete hh]
    exact ⟨by simp, _, (put_same ..).trans (by rw [hseen]; rfl), rfl⟩
  | asked me' hk' _ hnode =>
    cases hk.symm.trans hk'
    obtain ⟨c, hpt⟩ := Task.point_of_ask hnode
    simp only [Task.node, hpt, Node.ask.injEq] at hnode
    subst hnode
    simp only [Task.Fits, hpt] at hf
    obtain ⟨-, rfl, -⟩ := hf
    have hjudge : k.judge (l.cells k.guard) me' = .tell (.waiting k.guard) .waiting := by
      rw [Task.judge, hc, hq, Scheme.claimOf_claimed, hn]
      rfl
    exact ⟨by simp, _, (put_same ..).trans (by rw [hjudge]; rfl), rfl⟩
  | wrote hk' _ hnode =>
    cases hk.symm.trans hk'
    cases Task.writes hnode with
    | claim hp' | store hp' =>
      rw [hp'] at hp
      cases hp

theorem Stuck.step (hl : l.Stuck t g) (hh : l.Held cells sch) (hs : l.Sound sch) (hst : l.Step sch u d l')
    (hn : (sch g).noticesOwner (l.cells g).width = false) (hd : ∀ c, d ≠ .refused c) : l'.Stuck t g := by
  obtain ⟨hold, k, hk, ho, rfl, hp⟩ := hl
  by_cases hu : u = t
  · subst hu
    obtain ⟨hw, p, hk', hp'⟩ := hh.pending hs hst hn hd hold hk ho hp
    exact ⟨hst.holds_mono hw hold, _, hk', ho, rfl, hp'⟩
  · refine ⟨?_, k, (hst.tasks_of_ne (Ne.symm hu)).trans hk, ho, rfl, hp⟩
    by_cases hw : d = .wrote
    · subst hw
      cases hst with
      | wrote _ _ hnode =>
        rw [past_write _ hnode, holds_write]
        exact ⟨hold, fun e => hu e.2.1⟩
    · exact hst.holds_mono hw hold

theorem Path.stuck (h₀ : Path sch ok (start cells) l₀) (hp : Path sch ok l₀ l) (hc : Contract l.past)
    (hr : ∀ u c code, .call u (.refused c code) ∉ l.past) (hn : (sch g).noticesOwner (cells g).width = false)
    (hs : l₀.Stuck t g) : l.Stuck t g ∧ ∃ es, l.past = l₀.past ++ es ∧ ∀ o c r, .ended t o c r ∉ es := by
  induction hp with
  | refl => exact ⟨hs, [], (List.append_nil _).symm, by simp⟩
  | @step l l' u d hp _ _ hst ih =>
    obtain ⟨es, he, ht⟩ := hst.news
    rw [he] at hc hr
    obtain ⟨hl, es₀, he₀, hn₀⟩ := ih hc.left fun v c code hm => hr v c code (List.mem_append_left _ hm)
    have hpath := h₀.trans hp
    have hd : ∀ c, d ≠ .refused c := by
      rintro c rfl
      cases hst with
      | refused code =>
        have he' := List.append_cancel_left he
        exact hr u c code (by rw [← he']; simp)
    have hl' := hl.step (hpath.held hc.left) hpath.sound hst (hpath.width g ▸ hn) hd
    obtain ⟨k', hk', -⟩ := hl'.waits
    refine ⟨hl', es₀ ++ es, by rw [he, he₀, List.append_assoc], fun o c r hm => ?_⟩
    exact (List.mem_append.mp hm).elim (hn₀ o c r) (hst.not_ended hk' he o c r)

end Ledger
namespace Machine

variable {s : Setup} {sch : GuardId → Scheme} {m m' : Machine} {h : List Event} {t : ThreadId} {k : Task}
  {g : GuardId} {o : Op} {f : Failure} {st : OnceInit.Step}

def Unfailed (r : Machine × List Event) : Prop := r.1.fate = none ∧ ∀ u o d f, .ended u o d (.fails f) ∉ r.2

section Acquire

variable (hp : m.Poised sch) (ho : k.op = .acquire) (hl : k.point = .locking)

include hp ho hl

theorem Poised.acquire_unfailed (hc : k.scheme.phaseOf (m.cells k.guard) ≠ .underWay (.takenBy (m.token s t))) :
    Unfailed ((m.doing t k).drain s) := by
  cases hq : k.scheme.phaseOf (m.cells k.guard) with
  | complete =>
    rw [hp.atRest.drain_complete ho hl hq]
    exact ⟨hp.alive, by simp⟩
  | untouched =>
    rw [hp.atRest.drain_granted ho hl hq]
    exact ⟨hp.alive, fun _ _ _ _ he => by cases (ended_of_granting he).2.2⟩
  | underWay c =>
    rw [hp.atRest.drain_dozing ho hl hq fun e => hc (e ▸ hq)]
    exact ⟨hp.alive, by simp [ended_not_mem_log]⟩

end Acquire

theorem Poised.inspect_unfailed (hp : m.Poised sch) (hi : k.op = .inspect) (hl : k.point = .locking) :
    Unfailed ((m.doing t k).drain s) := by
  rw [hp.atRest.drain_inspected hi hl]
  exact ⟨hp.alive, by simp⟩

theorem Poised.woken_unfailed (hp : m.Poised sch) (ht : t ∈ m.sleepers) :
    Unfailed (drain s { m with running := some t, sleepers := m.sleepers.erase t }) := by
  rw [hp.drain_woken ht]
  exact ⟨hp.alive, fun _ _ _ _ he => by cases ended_of_visit he⟩

theorem Poised.launch_unfailed (hp : m.Poised sch) (hd : m.tokens.Distinct) (free : m.tasks t = none)
    (hl : k.point = .locking)
    (hc : k.op = .acquire → k.scheme.phaseOf (m.cells k.guard) ≠ .underWay (.takenBy (m.token s t))) :
    Unfailed ((m.doing t k).drain s) := by
  cases ho : k.op with
  | acquire => exact hp.acquire_unfailed ho hl (hc ho)
  | inspect => exact hp.inspect_unfailed ho hl
  | release | abort =>
    have hh := hp.handsOver (s := s) hd free (by rw [ho]; rfl) hl
    exact ⟨hh.alive, hh.unfailed⟩

theorem Poised.step_acquire (hp : m.Poised sch) (hst : st.Smooth s sch)
    (hb : .began t .acquire g ∈ (m.step s st).2) :
    ∃ k kind other a, s.kinds g = some kind ∧ kind.task? s.build g other a = some k ∧ k.op = .acquire ∧
      k.guard = g ∧ k.scheme = sch g ∧ k.point = .locking ∧
      m.step s st = prepend [.began t .acquire g] ((m.doing t k).drain s) := by
  have hbegins := hp.begins hst
  rw [step_of_alive hp.alive] at hb ⊢
  generalize m.begin s st = b at hb hbegins
  replace hb := (List.mem_append.mp hb).resolve_right (not_began_of_drain _ t .acquire g)
  cases hbegins with
  | nothing hes => cases hes _ hb
  | wakes => cases hb
  | @starts u k kind other a free hkind hk hsch =>
    obtain ⟨rfl, ho, rfl⟩ : t = u ∧ .acquire = k.op ∧ g = k.guard := by simpa [launch] using hb
    exact ⟨k, kind, other, a, hkind, hk, ho.symm, rfl, hsch, by rw [GuardKind.task?_eq hk]; rfl, by rw [ho]; rfl⟩
  | @closes u f rest e =>
    obtain ⟨-, ho, -⟩ : t = u ∧ .acquire = (f.task s.build e).op ∧ g = (f.task s.build e).guard := by
      simpa [launch, emit] using hb
    have hs := (e.within f.fallible).settles_op
    rw [show (e.within f.fallible).op = .acquire from ho.symm] at hs
    cases hs

theorem Poised.failed (hp : m.Poised sch) (hd : m.tokens.Distinct) (hst : st.Smooth s sch)
    (he : .ended t o g (.fails f) ∈ (m.step s st).2) :
    .began t .acquire g ∈ (m.step s st).2 ∧ o = .acquire ∧ f = .deadlock .acquire ∧
      (sch g).phaseOf (m.cells g) = .underWay (.takenBy (m.token s t)) ∧
      (m.step s st).1.tokens.known t = some (m.token s t) ∧ ∀ u, .call u .slept ∉ (m.step s st).2 := by
  have hbegins := hp.begins hst
  rw [step_of_alive hp.alive] at he ⊢
  generalize m.begin s st = b at he hbegins
  rcases List.mem_append.mp he with hb | he
  · cases hbegins with
    | nothing hes => cases hes _ hb
    | wakes => cases hb
    | starts => simp [launch] at hb
    | closes => simp [launch, emit] at hb
  · cases hbegins with
    | nothing =>
      rw [drain_of_settled hp.settled] at he
      cases he
    | wakes ht => exact absurd he ((hp.woken_unfailed ht).2 t o g f)
    | @closes u x rest e free =>
      have hh := (hp.of_frames (put m.frames u rest)).handsOver (s := s) (k := x.task s.build e) hd free
        (Ending.settles_op _) rfl
      exact absurd he (hh.unfailed t o g f)
    | @starts u k kind other a free hkind hk hsch =>
      have hl : k.point = .locking := by rw [GuardKind.task?_eq hk]; rfl
      by_cases hc : k.op = .acquire ∧ k.scheme.phaseOf (m.cells k.guard) = .underWay (.takenBy (m.token s u))
      · obtain ⟨ho, hc⟩ := hc
        have hdrain := hp.atRest.drain_deadlock ho hl hc
        have notes := isNote_notes s u k (.finish (.fails (.deadlock .acquire)))
        rw [show (m.launch u k).1 = m.doing u k from rfl, hdrain] at he
        obtain ⟨rfl, rfl, rfl, rfl⟩ : t = u ∧ o = .acquire ∧ g = k.guard ∧ f = .deadlock .acquire := by
          rcases List.mem_append.mp he with he | he
          · simpa using he
          · cases notes _ he
        rw [show (m.launch t k).1 = m.doing t k from rfl, hdrain]
        refine ⟨by simp [prepend, launch, ho], rfl, rfl, hsch ▸ hc, Registry.known_ask .., fun v hv => ?_⟩
        simp only [launch, prepend, List.mem_append] at hv
        rcases hv with hv | hv | hv
        · simp at hv
        · simp at hv
        · cases notes _ hv
      · exact absurd he ((hp.launch_unfailed hd free hl fun ho hq => hc ⟨ho, hq⟩).2 t o g f)

section Holders

variable {w : GuardId → Width} {me : Token} (hr : Reaches s (Step.Smooth s sch) (.start fun g => .zero (w g)) m h)
  (hc : Contract h)

include hr hc

theorem Reaches.claim_of_holds (hh : Holds h t g) : m.tokens.known t = some (m.token s t) ∧
    (sch g).phaseOf (m.cells g) =
      .underWay (if (sch g).noticesOwner (w g) then .takenBy (m.token s t) else .taken) := by
  have hp := hr.drives.keeps.path
  obtain ⟨me, hme, hcell⟩ := (hp.held hc).claimed t g hh
  have hw : ((m.ledger h).cells g).width = w g := (hp.width g).trans (Cell.width_zero _)
  change m.cells g = _ at hcell
  rw [token_of_known hme, hcell, Scheme.phaseOf_claimed, hw]
  exact ⟨hme, rfl⟩

theorem Reaches.holder_of_claim (hs : m.settled = true) (hf : m.fate = none)
    (hq : (sch g).phaseOf (m.cells g) = .underWay (.takenBy me)) :
    ∃ u, Holds h u g ∧ m.tokens.known u = some me ∧ (sch g).noticesOwner (w g) = true := by
  have hz : ∀ g c, (sch g).phaseOf (Cell.zero (w g)) ≠ .underWay c := fun g c => by
    rw [Scheme.phaseOf_zero]
    simp
  obtain ⟨u, hu | ⟨k, hk, -, hpt⟩⟩ := hr.drives.keeps.path.covered hz hr.sound.unarmed.2 g _ hq
  · obtain ⟨hknown, hq'⟩ := hr.claim_of_holds hc hu
    have he := Phase.underWay.inj (hq'.symm.trans hq)
    split at he
    · next hn =>
      cases he
      exact ⟨u, hu, hknown, hn⟩
    · cases he
  · have hp := hr.poised hs hf
    obtain ⟨k', me, hd, -⟩ := hp.asleep u ((hp.busy u).mpr (by rw [show m.tasks u = some k from hk]; rfl))
    cases hd.task.symm.trans hk
    cases hd.waking.symm.trans hpt

end Holders

/-- What `es`, which happens in a step to `m'` after the history `h`, says about threads that acquire what they hold. -/
structure Detects (s : Setup) (sch : GuardId → Scheme) (w : GuardId → Width) (h : List Event) (m' : Machine)
    (es : List Event) : Prop where
  sound : ∀ t op g f, .ended t op g (.fails f) ∈ es → op = .acquire ∧ f = .deadlock .acquire ∧
    .began t .acquire g ∈ es ∧ (sch g).noticesOwner (w g) = true ∧ Holds h t g ∧ ∀ u, .call u .slept ∉ es
  complete : ∀ t g, .began t .acquire g ∈ es → (sch g).noticesOwner (w g) = true → Holds h t g →
    .ended t .acquire g (.fails (.deadlock .acquire)) ∈ es
  parked : ∀ t g, .began t .acquire g ∈ es → (sch g).noticesOwner (w g) = false → Holds h t g →
    t ∈ m'.waiters s g ∧ ∀ m'' h'', Reaches s (Step.Smooth s sch) m' m'' h'' → Contract (h ++ es ++ h'') →
      m''.wants g t = true ∧ ∀ op d r, .ended t op d r ∉ h''
  managed : ∀ t g, s.kinds g = some .managed → w g = s.build.width → .began t .acquire g ∈ es →
    (m'.fate = some (.deadlock .acquire) ↔ s.build.layout.noticesOwner = true ∧ Holds h t g)

theorem Reaches.still_stuck {w : GuardId → Width} {h' : List Event}
    (hr : Reaches s (Step.Smooth s sch) (.start fun g => .zero (w g)) m h)
    (hr' : Reaches s (Step.Smooth s sch) m m' h') (hc : Contract (h ++ h'))
    (hn : (sch g).noticesOwner (w g) = false) (hs : (m.ledger h).Stuck t g) :
    m'.wants g t = true ∧ ∀ op d r, .ended t op d r ∉ h' := by
  have hm := hr.drives.keeps
  have h₀ : Keeps s sch (fun op p => p.Suits op) (m.ledger h) m h := ⟨hm.seated, hm.framed, .refl⟩
  obtain ⟨⟨-, k, hk, -, hg, -⟩, es, he, hes⟩ := hm.path.stuck (h₀.reaches hr'.drives).path hc
    (hr.trans hr').sound.unarmed.2 (by rwa [Cell.width_zero]) hs
  obtain rfl := List.append_cancel_left he
  exact ⟨by rw [wants, show m'.tasks t = some k from hk]; simpa using hg, hes⟩

section Step

variable {w : GuardId → Width} (hr : Reaches s (Step.Smooth s sch) (.start fun g => .zero (w g)) m h)
  (hs : m.settled = true) (hf : m.fate = none) (hst : st.Smooth s sch) (hc : Contract (h ++ (m.step s st).2))

include hr hs hst

theorem Reaches.known_step {me : Token} (hk : m.tokens.known t = some me) :
    (m.step s st).1.tokens.known t = some me := hr.known_mono (Reaches.start.step hs hst) hk

include hf hc

theorem Reaches.fails_of_held (hb : .began t .acquire g ∈ (m.step s st).2)
    (hn : (sch g).noticesOwner (w g) = true) (hh : Holds h t g) :
    .ended t .acquire g (.fails (.deadlock .acquire)) ∈ (m.step s st).2 := by
  obtain ⟨k, kind, other, a, -, -, ho, rfl, hsch, hl, he⟩ := (hr.poised hs hf).step_acquire hst hb
  obtain ⟨-, hq⟩ := hr.claim_of_holds hc.left hh
  rw [hn, if_pos rfl, ← hsch] at hq
  rw [he, (hr.poised hs hf).atRest.drain_deadlock ho hl hq]
  simp [prepend]

theorem Reaches.waits_of_held (hb : .began t .acquire g ∈ (m.step s st).2)
    (hn : (sch g).noticesOwner (w g) = false) (hh : Holds h t g) : t ∈ (m.step s st).1.waiters s g ∧
      ((m.step s st).1.ledger (h ++ (m.step s st).2)).Stuck t g := by
  obtain ⟨k, kind, other, a, -, -, ho, rfl, hsch, hl, he⟩ := (hr.poised hs hf).step_acquire hst hb
  obtain ⟨-, hq⟩ := hr.claim_of_holds hc.left hh
  rw [hn, if_neg (by simp), ← hsch] at hq
  rw [he, (hr.poised hs hf).atRest.drain_dozing ho hl hq (by simp)]
  refine ⟨mem_waiters.mpr ⟨by simp [prepend, dozing], _, put_same .., rfl⟩, ?_, _, put_same .., ho, rfl, rfl⟩
  refine holds_mono ?_ hh
  rintro e hm u op d c rfl
  simp [prepend, Setup.log] at hm

end Step

end Machine
end OnceInit

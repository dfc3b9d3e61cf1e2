import OnceInit.Proofs.ExactlyOnce
import OnceInit.Proofs.Waiting

/-! Threads that may be preempted anywhere, between any two calls or accesses. Of the mutex it is only supposed that it
is taken while it is free, and that no call is refused. -/

namespace OnceInit

def Deed.Moves (t : ThreadId) (o o' : Option ThreadId) : Deed → Prop
  | .took => o = none ∧ o' = some t
  | .called .unlock | .called .wait => o' = none
  | .refused _ => False
  | _ => o' = o

/-- Any thread may act at any time. -/
inductive Interleaved (sch : GuardId → Scheme) (cells : GuardId → Cell) : Ledger → Option ThreadId → Prop
  | start : Interleaved sch cells (.start cells) none
  | step {l l' : Ledger} {o o' : Option ThreadId} {t : ThreadId} {d : Deed}
      (run : Interleaved sch cells l o) (step : l.Step sch t d l') (mutex : d.Moves t o o') :
      Interleaved sch cells l' o'

namespace Ledger

variable {cells : GuardId → Cell} {sch : GuardId → Scheme} {l l' : Ledger} {o o' : Option ThreadId}
  {t : ThreadId} {d : Deed} {g : GuardId}

def Guarded (l : Ledger) (o : Option ThreadId) : Prop :=
  ∀ t k, l.tasks t = some k → k.point.inside = true → o = some t

theorem Guarded.vacant (hl : l.Guarded none) : l.Vacant := by
  intro t k hk
  by_contra hi
  exact nomatch hl t k hk (by simpa using hi)

theorem Guarded.owner_of_ne (hl : l.Guarded o) (hs : l.Step sch t d l') (hd : d.Moves t o o')
    {u : ThreadId} (hu : u ≠ t) (ho : o = some u) : o' = some u := by
  cases hs with
  | note | begin | close | wake | read | asked | wrote => exact hd.trans ho
  | took => exact nomatch hd.1.symm.trans ho
  | refused => exact hd.elim
  | @called k c n r hk _ hn =>
    have hc : c.leaves ≠ true := by
      intro hc
      have := hl t k hk ((Task.inside_of_call hn).trans hc)
      exact hu (Option.some.inj (ho.symm.trans this))
    cases c with
    | lock | broadcast => exact hd.trans ho
    | unlock | wait => exact absurd rfl hc

theorem Guarded.step (hl : l.Guarded o) (hs : l.Step sch t d l') (hf : l.Sound sch)
    (hd : d.Moves t o o') : l'.Guarded o' := by
  intro u k' hk' hi
  by_cases hu : u = t
  · subst hu
    cases hs with
    | note | wake => exact hd.trans (hl u k' hk' hi)
    | begin | close =>
      cases (put_same ..).symm.trans hk'
      cases hi
    | refused => exact hd.elim
    | took => exact hd.2
    | called hk _ hn =>
      rw [(Task.fits_called (hf.fits u _ hk).2 hn ((put_same ..).symm.trans hk')).2] at hi
      cases hi
    | read hk _ hn => exact hd.trans (hl u _ hk (Task.inside_of_read hn))
    | asked _ hk _ hn => exact hd.trans (hl u _ hk (Task.inside_of_ask hn))
    | wrote hk _ hn => exact hd.trans (hl u _ hk (Task.inside_of_write hn))
  · exact hl.owner_of_ne hs hd hu (hl u k' ((hs.tasks_of_ne hu).symm.trans hk') hi)

end Ledger

namespace Interleaved

variable {cells : GuardId → Cell} {sch : GuardId → Scheme} {l : Ledger} {o : Option ThreadId}

theorem path (hr : Interleaved sch cells l o) :
    l.Guarded o ∧ Ledger.Path sch (fun d => ∀ c, d ≠ .refused c) (.start cells) l := by
  induction hr with
  | start => exact ⟨fun t k hk => (nomatch hk), .refl⟩
  | @step l l' o o' t d _ hs hd ih =>
    obtain ⟨hl, hp⟩ := ih
    refine ⟨hl.step hs hp.sound hd, hp.step ?_ ?_ hs⟩
    · rintro c rfl
      exact hd
    · rintro rfl
      obtain ⟨rfl, -⟩ := hd
      exact hl.vacant

end Interleaved

/-- Some thread is inside of a release or an abort that has written `g`, and has made no broadcast since. -/
def Ledger.Announcing (l : Ledger) (g : GuardId) : Prop :=
  ∃ u k a c b, l.tasks u = some k ∧ k.guard = g ∧ k.op.settles = true ∧
    l.past = a ++ .write u k.op g c :: b ∧ .call u .announced ∉ b ∧ ∀ op d, .began u op d ∉ b

theorem Ledger.Accounted.announcing {l : Ledger} {t : ThreadId} {g : GuardId} (ha : l.Accounted)
    (hn : ∀ u c code, .call u (.refused c code) ∉ l.past)
    (hu : Unannounced g (sinceSlept t l.past)) : l.Announcing g := by
  obtain ⟨p, a, u, op, c, b, hp, -, ho, hb, hw⟩ := ha.owed hu
  rcases hw with ⟨k, hk, rfl, rfl, -, hq⟩ | ⟨x, call, code, y, rfl, -, hx, -⟩
  · exact ⟨u, k, p ++ a, c, b, hk, rfl, ho, by rw [hp, List.append_assoc], hb, hq⟩
  · refine absurd ?_ (hn u call code)
    rw [hp]
    simp [hx]

/-- Preemption gives nothing away: what callers rely on holds at every moment, and a thread sleeps in an acquire only
over a guard that is under way, or until the broadcast that some thread is about to make. -/
theorem safe_under_preemption {sch : GuardId → Scheme} {w : GuardId → Width} {l : Ledger}
    {o : Option ThreadId} (hr : Interleaved sch (fun g => .zero (w g)) l o) (hc : Contract l.past) :
    Exclusive sch l.cells l.past ∧
      ∀ t ∈ l.sleepers, ∃ k, l.tasks t = some k ∧ k.op = .acquire ∧
        ((∃ c, (sch k.guard).phaseOf (l.cells k.guard) = .underWay c) ∨ l.Announcing k.guard) := by
  obtain ⟨-, hp⟩ := hr.path
  refine ⟨(hp.held hc).exclusive fun g => Cell.isComplete_zero (w g), ?_⟩
  intro t ht
  obtain ⟨k, me, ha⟩ := hp.watched t ht
  refine ⟨k, ha.task, ha.acquires, ?_⟩
  rcases ha.watched with ⟨c, hq, -⟩ | hu
  · exact .inl ⟨c, hq⟩
  · exact .inr (hp.accounted.announcing (hp.unrefused fun c hk => hk c rfl) hu)

/-- A release of thread 0 has left the mutex and not yet made its broadcast, and thread 1 sleeps. -/
theorem safe_under_preemption_window : ∃ l o,
    Interleaved (fun _ => .owner) (fun _ => .zero .wide) l o ∧ Contract l.past ∧ 1 ∈ l.sleepers ∧
    Scheme.owner.phaseOf (l.cells 0) = .complete ∧ l.Announcing 0 := by
  have r₀ : Interleaved (fun _ => .owner) (fun _ => .zero .wide) _ none := .start
  have r₁ := r₀.step (.begin .acquire 0 .plain rfl) (t := 0) rfl
  have r₂ := r₁.step (.called (t := 0) rfl (by decide) rfl) rfl
  have r₃ := r₂.step (.took (t := 0) rfl (by decide) rfl) ⟨rfl, rfl⟩
  have r₄ := r₃.step (.read (t := 0) rfl (by decide) rfl) rfl
  have r₅ := r₄.step (.asked (t := 0) ⟨1, by decide⟩ rfl (by decide) rfl nofun) rfl
  have r₆ := r₅.step (.wrote (t := 0) rfl (by decide) rfl) rfl
  have r₇ := r₆.step (.called (t := 0) rfl (by decide) rfl) rfl
  have r₈ := r₇.step (.begin .acquire 0 .plain rfl) (t := 1) rfl
  have r₉ := r₈.step (.called (t := 1) rfl (by decide) rfl) rfl
  have r₁₀ := r₉.step (.took (t := 1) rfl (by decide) rfl) ⟨rfl, rfl⟩
  have r₁₁ := r₁₀.step (.read (t := 1) rfl (by decide) rfl) rfl
  have r₁₂ := r₁₁.step (.asked (t := 1) ⟨2, by decide⟩ rfl (by decide) rfl nofun) rfl
  have r₁₃ := r₁₂.step (.called (t := 1) rfl (by decide) rfl) rfl
  have r₁₄ := r₁₃.step (.begin .release 0 .plain rfl) (t := 0) rfl
  have r₁₅ := r₁₄.step (.called (t := 0) rfl (by decide) rfl) rfl
  have r₁₆ := r₁₅.step (.took (t := 0) rfl (by decide) rfl) ⟨rfl, rfl⟩
  have r₁₇ := r₁₆.step (.wrote (t := 0) rfl (by decide) rfl) rfl
  have r₁₈ := r₁₇.step (.called (t := 0) rfl (by decide) rfl) rfl
  obtain ⟨k, hk, -, hw⟩ := (safe_under_preemption r₁₈ (by decide)).2 1 (by decide)
  have hg : k = ⟨.acquire, 0, .owner, .plain, .waking⟩ := Option.some.inj (hk.symm.trans (by decide))
  subst hg
  refine ⟨_, _, r₁₈, by decide, by decide, by decide, hw.resolve_left ?_⟩
  rintro ⟨c, hc⟩
  exact absurd (hc.symm.trans (by decide : _ = Phase.complete)) (by simp)

end OnceInit

import OnceInit.Cell.Claim

/-! How far a variable is, as its cell shows it. -/

namespace OnceInit

inductive Phase
  | untouched
  | underWay (c : Claim)
  | complete
  deriving DecidableEq

def Scheme.phaseOf (s : Scheme) (c : Cell) : Phase :=
  if c.isComplete then .complete
  else match s.claimOf c with
    | .free => .untouched
    | claim => .underWay claim

namespace Scheme

theorem phaseOf_eq_complete_iff (s : Scheme) (c : Cell) :
    s.phaseOf c = .complete ↔ c.isComplete = true := by
  unfold phaseOf
  split
  · simp_all
  · split <;> simp_all

theorem phaseOf_eq_untouched_iff (s : Scheme) (c : Cell) :
    s.phaseOf c = .untouched ↔ c.isComplete = false ∧ s.claimOf c = .free := by
  unfold phaseOf
  split
  · simp_all
  · split <;> simp_all

theorem phaseOf_eq_underWay_iff (s : Scheme) (c : Cell) (k : Claim) :
    s.phaseOf c = .underWay k ↔ c.isComplete = false ∧ s.claimOf c = k ∧ k ≠ .free := by
  unfold phaseOf
  cases c.isComplete with
  | true => simp
  | false => cases s.claimOf c <;> cases k <;> simp

@[simp] theorem phaseOf_zero (s : Scheme) (w : Width) : s.phaseOf (.zero w) = .untouched := by
  rw [phaseOf_eq_untouched_iff]
  exact ⟨Cell.isComplete_zero w, claimOf_zero s w⟩

@[simp] theorem phaseOf_complete (s : Scheme) (c : Cell) : s.phaseOf c.complete = .complete :=
  (phaseOf_eq_complete_iff s _).mpr (Cell.isComplete_complete c)

theorem phaseOf_claimed (s : Scheme) (w : Width) (t : Token) :
    s.phaseOf (s.claimed w t) = .underWay (if s.noticesOwner w then .takenBy t else .taken) := by
  rw [phaseOf_eq_underWay_iff]
  refine ⟨isComplete_claimed s w t, claimOf_claimed s w t, ?_⟩
  split <;> simp

end Scheme

def Phase.outline : Phase → Outline
  | untouched => .word "Uninitialized"
  | underWay c => .apply "InProgress" c.outline
  | complete => .word "Initialized"

def Phase.guardOutline (p : Phase) : Outline := .record "StaticGuard" (.cons "state" p.outline .nil)

end OnceInit

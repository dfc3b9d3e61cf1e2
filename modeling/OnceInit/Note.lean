import OnceInit.Cell.Claim
import OnceInit.Failure
import OnceInit.Table

/-! What operations write into the log. -/

namespace OnceInit

inductive Note
  | granted (g : GuardId) (s : Scheme)
  | waiting (g : GuardId)
  | released (g : GuardId)
  | aborted (g : GuardId)
  | fatal (op : Op) (kind : Kind)
  deriving DecidableEq

namespace Note

def level : Note → String
  | fatal .. => "ERROR"
  | _ => "TRACE"

theorem level_eq_error_iff {n : Note} : n.level = "ERROR" ↔ ∃ op kind, n = fatal op kind := by
  cases n <;> simp [level]

def message : Note → String
  | granted .. => "initialization granted"
  | waiting _ => "waiting for initializer"
  | released _ => "initialization released"
  | aborted _ => "initialization aborted"
  | fatal .. => "unrecoverable guard failure"

end Note
end OnceInit

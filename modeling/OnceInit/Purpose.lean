import OnceInit.Cell.Phase
import OnceInit.Failure

/-! Why a thread runs an operation. The operation itself is the same for all purposes; they differ in what
its result means to the caller, and in whether the caller can be told of a failure at all. -/

namespace OnceInit

inductive Value
  | granted (yes : Bool)
  | done
  | phase (p : Phase)
  deriving DecidableEq

inductive Outcome
  | gives (v : Value)
  | fails (f : Failure)
  deriving DecidableEq

inductive View
  | phase
  | isComplete
  | line
  | lines
  deriving DecidableEq

inductive Ending
  | completed
  | failed (message : String)
  | panicked (message : String)
  deriving DecidableEq

inductive Purpose
  | plain
  | hook
  | view (v : View)
  | opening (fallible : Bool)
  | closing (e : Ending)
  deriving DecidableEq

inductive Answer
  | waiting
  | blocked
  | inside
  | terminated
  | granted (yes : Bool)
  | done
  | phase (p : Phase)
  | failure (f : Failure)
  | code (yes : Bool)
  | isComplete (yes : Bool)
  | text (s : String)
  | ran (yes : Bool)
  | initFailed (message : String)
  | panicked (message : String)
  | noGuard
  | unsupported
  deriving DecidableEq

def View.answer : View → Phase → Answer
  | phase, p => .phase p
  | isComplete, p => .isComplete (p = .complete)
  | line, p => .text p.guardOutline.inline
  | lines, p => .text (p.guardOutline.indented 0)

namespace Ending

/-- An initializer that cannot fail takes a failure for a success. -/
def within (fallible : Bool) : Ending → Ending
  | failed msg => if fallible then failed msg else completed
  | e => e

def op : Ending → Op
  | completed => .release
  | _ => .abort

def answer : Ending → Answer
  | completed => .ran true
  | failed msg => .initFailed msg
  | panicked msg => .panicked msg

theorem settles_op (e : Ending) : e.op.settles = true := by
  cases e <;> rfl

end Ending

/-- Only a plain caller is told of failures. For all others they end the process. -/
def Purpose.hearsFailures : Purpose → Bool
  | plain => true
  | _ => false

theorem Purpose.hearsFailures_eq_true_iff {p : Purpose} : p.hearsFailures = true ↔ p = .plain := by
  cases p <;> simp [hearsFailures]

theorem Purpose.hearsFailures_eq_false_iff {p : Purpose} : p.hearsFailures = false ↔ p ≠ .plain := by
  cases p <;> simp [hearsFailures]

def Purpose.answer : Purpose → Value → Answer
  | hook, .granted b => .code b
  | opening _, .granted true => .inside
  | opening _, .granted false => .ran false
  | view v, .phase p => v.answer p
  | closing e, .done => e.answer
  | _, .granted b => .granted b
  | _, .done => .done
  | _, .phase p => .phase p

end OnceInit

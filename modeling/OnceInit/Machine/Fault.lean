/-! Faults armed against the platform's calls. Those of one call form a queue: each use of the call meets the
oldest, which strikes when its delay has run out. -/

namespace OnceInit

structure Fault where
  code : Int
  delay : Nat
  deriving DecidableEq

namespace Fault

def strike : List Fault → Option Int × List Fault
  | [] => (none, [])
  | ⟨code, 0⟩ :: rest => (some code, rest)
  | ⟨code, n + 1⟩ :: rest => (none, ⟨code, n⟩ :: rest)

@[simp] theorem strike_nil : strike [] = (none, []) := rfl

end Fault
end OnceInit

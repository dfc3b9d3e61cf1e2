import OnceInit.Text.Outline

/-! What can go wrong in an operation on a guard: one of the platform's calls fails, or a thread runs into its
own claim. The message of a failure names the operation, what went wrong, and the call to blame. -/

namespace OnceInit

inductive Op
  | acquire
  | release
  | abort
  | inspect
  deriving DecidableEq

namespace Op

def name : Op → String
  | acquire => "Acquire"
  | release => "Release"
  | abort => "Abort"
  | inspect => "Inspect"

def symbol : Op → String
  | acquire => "__cxa_guard_acquire"
  | release => "__cxa_guard_release"
  | abort => "__cxa_guard_abort"
  | inspect => "guard state inspection"

def settles : Op → Bool
  | release | abort => true
  | acquire | inspect => false

end Op

inductive Kind
  | lockFailed
  | unlockFailed
  | waitFailed
  | broadcastFailed
  | deadlock
  deriving DecidableEq

namespace Kind

def name : Kind → String
  | lockFailed => "LockFailed"
  | unlockFailed => "UnlockFailed"
  | waitFailed => "WaitFailed"
  | broadcastFailed => "BroadcastFailed"
  | deadlock => "Deadlock"

def describe : Kind → String
  | lockFailed => "failed to acquire mutex"
  | unlockFailed => "failed to release mutex"
  | waitFailed => "condition variable wait failed"
  | broadcastFailed => "failed to broadcast condition variable"
  | deadlock => "detected deadlock"

end Kind

inductive Call
  | lock
  | unlock
  | wait
  | broadcast
  deriving DecidableEq

namespace Call

def name : Call → String
  | lock => "lock"
  | unlock => "unlock"
  | wait => "wait"
  | broadcast => "broadcast"

def symbol : Call → String
  | lock => "pthread_mutex_lock"
  | unlock => "pthread_mutex_unlock"
  | wait => "pthread_cond_wait"
  | broadcast => "pthread_cond_broadcast"

def kind : Call → Kind
  | lock => .lockFailed
  | unlock => .unlockFailed
  | wait => .waitFailed
  | broadcast => .broadcastFailed

end Call

structure Cause where
  call : String
  code : Option Int
  deriving DecidableEq

namespace Cause

def message (c : Cause) : String :=
  match c.code with
  | some n => c.call ++ " failed with error code " ++ toString n
  | none => c.call ++ " failed"

def outline (c : Cause) : Outline :=
  .record "SyncError" (.cons "call" (.text c.call) (.cons "code" (.option (c.code.map .int)) .nil))

end Cause

structure Failure where
  op : Op
  kind : Kind
  cause : Option Cause
  deriving DecidableEq

namespace Failure

def ofCall (op : Op) (c : Call) (code : Int) : Failure := ⟨op, c.kind, some ⟨c.symbol, some code⟩⟩

def deadlock (op : Op) : Failure := ⟨op, .deadlock, none⟩

def message (f : Failure) : String :=
  f.op.symbol ++ " " ++ f.kind.describe ++
    match f.cause with
    | some c => " (" ++ c.message ++ ")"
    | none => ""

def outline (f : Failure) : Outline :=
  .record "Fatal" (.cons "op" (.word f.op.name) (.cons "kind" (.word f.kind.name)
    (.cons "cause" (.option (f.cause.map Cause.outline)) .nil)))

end Failure
end OnceInit

import OnceInit.Failure

/-! A mutex with a condition variable that remembers a panic: a thread that panics while it holds the mutex
poisons it for ever. A poisoned mutex is still handed out, together with the news, and whoever is told lets go
of it at once and reports a failure. A thread that asks for a mutex that is taken gets no further until somebody
lets go of it. One driving thread uses the lock step by step and may keep the mutex between steps; other threads
come to panic with the mutex in hand, or to wait. -/

namespace OnceInit

inductive Waiter
  | asleep
  | woken
  | finished (failure : Option Cause)
  deriving DecidableEq

def Waiter.isFinished : Waiter → Bool
  | finished _ => true
  | _ => false

def Waiter.wake : Waiter → Waiter
  | asleep => woken
  | w => w

structure PoisonLock where
  locked : Bool
  poisoned : Bool
  kept : Bool
  waiters : List Waiter
  deriving DecidableEq

namespace PoisonLock

inductive Step
  | lock
  | unlock
  | drop
  | broadcast
  | panicHeld
  | startWaiter
  | joinWaiter
  deriving DecidableEq

inductive Result
  | ok
  | panicked
  | skipped
  | failed (c : Cause)
  deriving DecidableEq

def lockCause : Cause := ⟨"Mutex::lock", none⟩
def waitCause : Cause := ⟨"Condvar::wait", none⟩

def fresh : PoisonLock := ⟨false, false, false, []⟩

def letGo (l : PoisonLock) : PoisonLock := { l with locked := false }

/-- A thread gets the mutex, or the failure `c` if the mutex is poisoned. Nothing comes of it as long as the mutex
is taken. -/
def obtain (l : PoisonLock) (c : Cause) : Option (PoisonLock × Option Cause) :=
  if l.locked then none
  else
    let l := { l with locked := true }
    if l.poisoned then some (l.letGo, some c) else some (l, none)

def wakeAll (l : PoisonLock) : PoisonLock := { l with waiters := l.waiters.map .wake }

def rise (l : PoisonLock) : Waiter → PoisonLock × Waiter
  | .woken =>
    match l.obtain waitCause with
    | none => (l, .woken)
    | some (l, none) => (l.letGo, .finished none)
    | some (l, some c) => (l, .finished (some c))
  | w => (l, w)

def riseAll (l : PoisonLock) : List Waiter → PoisonLock × List Waiter
  | [] => (l, [])
  | w :: ws =>
    let a := l.rise w
    let b := a.1.riseAll ws
    (b.1, a.2 :: b.2)

def settle (l : PoisonLock) : PoisonLock :=
  let r := l.riseAll l.waiters
  { r.1 with waiters := r.2 }

def Result.ofFailure : Option Cause → Result
  | none => .ok
  | some c => .failed c

def visit (l : PoisonLock) (use : PoisonLock → PoisonLock × Result) : Option (PoisonLock × Result) :=
  if l.kept then some (l, .skipped)
  else (l.obtain lockCause).map fun
    | (l, none) => use l
    | (l, some c) => (l, .failed c)

def releaseKept (l : PoisonLock) : PoisonLock × Result :=
  if l.kept then ({ l.letGo with kept := false }, .ok) else (l, .skipped)

/-- The oldest waiter is awaited, whether or not it ever comes back. -/
def join (l : PoisonLock) : Option (PoisonLock × Result) :=
  match l.waiters with
  | [] => some (l, .skipped)
  | .finished r :: ws => some ({ l with waiters := ws }, .ofFailure r)
  | _ :: _ => none

def rouses (l : PoisonLock) : Step → Bool
  | .broadcast => true
  | .joinWaiter => !l.kept && !l.waiters.any Waiter.isFinished
  | _ => false

def rouse (l : PoisonLock) (st : Step) : PoisonLock := if l.rouses st then l.wakeAll else l

def act (l : PoisonLock) : Step → Option (PoisonLock × Result)
  | .lock => l.visit fun l => ({ l with kept := true }, .ok)
  | .unlock | .drop => some l.releaseKept
  | .broadcast => some (l, .ok)
  | .panicHeld => l.visit fun l => ({ l.letGo with poisoned := true }, .panicked)
  | .startWaiter => l.visit fun l => ({ l.letGo with waiters := l.waiters ++ [.asleep] }, .ok)
  | .joinWaiter => if l.kept then some (l, .skipped) else l.settle.join

/-- The lock after a step and what comes of it, if the step ever ends. -/
def step (l : PoisonLock) (st : Step) : Option (PoisonLock × Result) :=
  ((l.rouse st).act st).map fun r => (r.1.settle, r.2)

structure Entry where
  lock : PoisonLock
  step : Step
  result : Result
  deriving DecidableEq

def play (l : PoisonLock) : List Step → List Entry
  | [] => []
  | st :: steps =>
    match l.step st with
    | none => []
    | some (l', r) => ⟨l, st, r⟩ :: l'.play steps

def run (l : PoisonLock) (steps : List Step) : List Result := (l.play steps).map Entry.result

def after (l : PoisonLock) : List Step → Option PoisonLock
  | [] => some l
  | st :: steps => (l.step st).bind fun r => r.1.after steps

end PoisonLock
end OnceInit

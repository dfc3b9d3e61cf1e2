import OnceInit.Note
import OnceInit.Purpose

/-! What happens while threads run, in order. A stretch of a thread's running ends with its answer. -/

namespace OnceInit

/-- A call as its caller sees it. Being blocked is not the end of a call, nor is going to sleep. -/
inductive Mark
  | locked
  | blocked
  | unlocked
  | slept
  | woke
  | announced
  | refused (c : Call) (code : Int)
  deriving DecidableEq

def Mark.text : Mark → String
  | locked => "lock"
  | blocked => "blocked"
  | unlocked => "unlock"
  | slept => "wait"
  | woke => "wake"
  | announced => "broadcast"
  | refused c code => c.name ++ "!" ++ toString code

inductive Skip
  | busy
  | notInside
  | notWaiting
  deriving DecidableEq

def Skip.name : Skip → String
  | busy => "busy"
  | notInside => "not_in_init"
  | notWaiting => "not_waiting"

/-- An initializer of `g` that `t` runs is `opened` when it starts and `closed` when it comes to its end, by `e` as it
really was, whatever is made of it. -/
inductive Event
  | began (t : ThreadId) (op : Op) (g : GuardId)
  | ended (t : ThreadId) (op : Op) (g : GuardId) (r : Outcome)
  | call (t : ThreadId) (m : Mark)
  | read (t : ThreadId) (g : GuardId) (c : Cell)
  | write (t : ThreadId) (op : Op) (g : GuardId) (c : Cell)
  | opened (t : ThreadId) (g : GuardId)
  | closed (t : ThreadId) (g : GuardId) (fallible : Bool) (e : Ending)
  | log (t : ThreadId) (n : Note)
  | answer (t : ThreadId) (a : Answer)
  | skip (s : Skip)
  deriving DecidableEq

structure Stretch where
  thread : ThreadId
  answer : Answer
  calls : List Mark
  log : List Note
  deriving DecidableEq

inductive Ran
  | stretch (s : Stretch)
  | skip (s : Skip)
  deriving DecidableEq

namespace Event

/-- Cuts what happened into stretches. The first two arguments hold the calls and notes of the stretch that has
begun. -/
def stretchesFrom (calls : List Mark) (log : List Note) : List Event → List Ran
  | [] => []
  | call _ m :: es => stretchesFrom (calls ++ [m]) log es
  | Event.log _ n :: es => stretchesFrom calls (log ++ [n]) es
  | answer t a :: es => .stretch ⟨t, a, calls, log⟩ :: stretchesFrom [] [] es
  | Event.skip s :: es => .skip s :: stretchesFrom calls log es
  | _ :: es => stretchesFrom calls log es

def stretches (es : List Event) : List Ran := stretchesFrom [] [] es

end Event
end OnceInit

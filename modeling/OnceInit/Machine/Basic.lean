import OnceInit.Layout
import OnceInit.Machine.Event
import OnceInit.Machine.Fault
import OnceInit.Task
import OnceInit.Token.Registry

/-! The state of a process in which threads run one at a time: the guards' cells, one mutex and one condition
variable for all of them, and the threads. A thread inside an operation has a task. It runs, or it is ready to be
resumed, or it is parked: in the queue of the mutex, or asleep at the condition variable. The frames of a
thread are the initializers that it is running, innermost first. -/

namespace OnceInit

inductive GuardKind
  | plain (s : Scheme)
  | managed
  deriving DecidableEq

structure Setup where
  build : Build
  newestFirst : Bool
  kinds : GuardId → Option GuardKind
  systemId : ThreadId → Int

def Setup.log (s : Setup) (t : ThreadId) (n : Note) : List Event :=
  if s.build.tracing then [.log t n] else []

def Setup.wakeOrder (s : Setup) (ts : List ThreadId) : List ThreadId :=
  if s.newestFirst then ts.reverse else ts

structure Frame where
  guard : GuardId
  fallible : Bool
  deriving DecidableEq

structure Machine where
  cells : GuardId → Cell
  owner : Option ThreadId
  queue : List ThreadId
  sleepers : List ThreadId
  ready : List ThreadId
  running : Option ThreadId
  tasks : ThreadId → Option Task
  frames : ThreadId → List Frame
  faults : Call → List Fault
  tokens : Registry
  fate : Option Failure

inductive Status
  | idle
  | inside
  | waiting
  | blocked
  deriving DecidableEq

def Status.name : Status → String
  | idle => "idle"
  | inside => "in_init"
  | waiting => "waiting"
  | blocked => "blocked"

namespace Machine

def start (cells : GuardId → Cell) : Machine where
  cells := cells
  owner := none
  queue := []
  sleepers := []
  ready := []
  running := none
  tasks := fun _ => none
  frames := fun _ => []
  faults := fun _ => []
  tokens := .fresh
  fate := none

def settled (m : Machine) : Bool := m.fate.isSome || (m.running.isNone && m.ready.isEmpty)

theorem settled_start (cells : GuardId → Cell) : (start cells).settled = true := rfl

def stderr (m : Machine) : String :=
  match m.fate with
  | some f => f.message ++ "\n"
  | none => ""

def depth (m : Machine) (t : ThreadId) : Nat := (m.frames t).length

def status (m : Machine) (t : ThreadId) : Status :=
  if t ∈ m.sleepers then .waiting
  else if (m.tasks t).isSome then .blocked
  else if m.depth t = 0 then .idle
  else .inside

/-- The mutex becomes free and the first thread in its queue, if any, may go on. It is not asked who owned
the mutex. -/
def unlock (m : Machine) : Machine :=
  { m with owner := none, queue := m.queue.tail, ready := m.ready ++ m.queue.head?.toList }

def broadcast (s : Setup) (m : Machine) : Machine :=
  { m with sleepers := [], ready := m.ready ++ s.wakeOrder m.sleepers }

def arm (m : Machine) (c : Call) (f : Fault) : Machine :=
  { m with faults := put m.faults c (m.faults c ++ [f]) }

def spend (m : Machine) (c : Call) : Machine :=
  { m with faults := put m.faults c (Fault.strike (m.faults c)).2 }

def refusal (m : Machine) (c : Call) : Option Int := (Fault.strike (m.faults c)).1

def token (s : Setup) (m : Machine) (t : ThreadId) : Token := (m.tokens.ask t (s.systemId t)).1

def register (s : Setup) (m : Machine) (t : ThreadId) : Machine :=
  { m with tokens := (m.tokens.ask t (s.systemId t)).2 }

def poke (m : Machine) (g : GuardId) (c : Cell) : Machine :=
  { m with cells := put m.cells g c }

def launch (m : Machine) (t : ThreadId) (k : Task) : Machine × List Event :=
  ({ m with running := some t, tasks := put m.tasks t (some k) }, [.began t k.op k.guard])

end Machine
end OnceInit

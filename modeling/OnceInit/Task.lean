import OnceInit.Note
import OnceInit.Purpose

/-! The operations on a guard, as programs. A task is an operation together with the point that a thread has
reached in it, and `Task.node` says what the thread asks of its surroundings there and how it goes on. All
reading and writing of cells lies between a lock and the unlock, wait or drop that follows it; an acquire that
wakes up starts over with what it reads then. -/

namespace OnceInit

/-- `contending` is inside lock until the mutex is free, and `waking` inside wait. `judging` an acquire has
read a cell that is not complete and needs its own token; `yielding` it has met a claim of its own. -/
inductive Point
  | locking
  | contending
  | reading
  | judging (c : Cell)
  | claiming (me : Token)
  | storing
  | waiting
  | waking
  | leaving (v : Value)
  | yielding
  | announcing
  deriving DecidableEq

inductive Next
  | go (p : Point)
  | tell (n : Note) (p : Point)
  | finish (r : Outcome)

inductive Node
  | call (c : Call) (next : Next) (refused : Int → Next)
  | take (woken : Bool) (next : Next)
  | read (next : Cell → Next)
  | ask (next : Token → Next)
  | write (new : Width → Cell) (next : Next)

structure Task where
  op : Op
  guard : GuardId
  scheme : Scheme
  purpose : Purpose
  point : Point
  deriving DecidableEq

namespace Task

def start (op : Op) (g : GuardId) (s : Scheme) (p : Purpose) : Task := ⟨op, g, s, p, .locking⟩

def entered (k : Task) : Next := .go (if k.op.settles then .storing else .reading)

def seen (k : Task) (c : Cell) : Next :=
  if k.op = .inspect then .go (.leaving (.phase (k.scheme.phaseOf c)))
  else if c.isComplete then .go (.leaving (.granted false))
  else .go (.judging c)

def judge (k : Task) (c : Cell) (me : Token) : Next :=
  match k.scheme.claimOf c with
  | .free => .go (.claiming me)
  | .taken => .tell (.waiting k.guard) .waiting
  | .takenBy t => if t = me then .go .yielding else .tell (.waiting k.guard) .waiting

def stored (k : Task) (w : Width) : Cell :=
  if k.op = .release then (Cell.zero w).complete else Cell.zero w

def storedNote (k : Task) : Note :=
  if k.op = .release then .released k.guard else .aborted k.guard

def fail (k : Task) (c : Call) (code : Int) : Next := .finish (.fails (.ofCall k.op c code))

def deadlock (k : Task) : Next := .finish (.fails (.deadlock k.op))

def node (k : Task) : Node :=
  match k.point with
  | .locking => .call .lock (.go .contending) (k.fail .lock)
  | .contending => .take false k.entered
  | .reading => .read k.seen
  | .judging c => .ask (k.judge c)
  | .claiming me =>
    .write (fun w => k.scheme.claimed w me) (.tell (.granted k.guard k.scheme) (.leaving (.granted true)))
  | .storing => .write k.stored (.tell k.storedNote (.leaving .done))
  | .waiting => .call .wait (.go .waking) (k.fail .wait)
  | .waking => .take true k.entered
  | .leaving v =>
    .call .unlock (if k.op.settles then .go .announcing else .finish (.gives v)) (k.fail .unlock)
  | .yielding => .call .unlock k.deadlock (fun _ => k.deadlock)
  | .announcing => .call .broadcast (.finish (.gives .done)) (k.fail .broadcast)

end Task
end OnceInit

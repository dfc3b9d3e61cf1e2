import OnceInit.Machine.Basic

/-! One turn of the machine: the running thread does the one thing that its task asks for, or, when no thread
runs, the first ready one is resumed. -/

namespace OnceInit

def Task.opens (k : Task) (v : Value) : List Frame :=
  match k.purpose, v with
  | .opening fallible, .granted true => [⟨k.guard, fallible⟩]
  | _, _ => []

namespace Machine

variable (s : Setup) (m : Machine) (t : ThreadId) (k : Task)

def enter (v : Value) : Machine := { m with frames := put m.frames t (k.opens v ++ m.frames t) }

def deliver : Outcome → Machine × List Event
  | .gives v =>
    ({ m.enter t k v with running := none, tasks := put m.tasks t none },
      .ended t k.op k.guard (.gives v) :: (k.opens v).map (fun f => .opened t f.guard) ++
        [.answer t (k.purpose.answer v)])
  | .fails f =>
    if k.purpose.hearsFailures then
      ({ m with running := none, tasks := put m.tasks t none },
        [.ended t k.op k.guard (.fails f), .answer t (.failure f)])
    else
      ({ m with running := none, tasks := put m.tasks t none, fate := some f },
        .ended t k.op k.guard (.fails f) :: s.log t (.fatal f.op f.kind) ++ [.answer t .terminated])

def place (p : Point) : Machine := { m with tasks := put m.tasks t (some { k with point := p }) }

def proceed : Next → Machine × List Event
  | .go p => (m.place t k p, [])
  | .tell n p => (m.place t k p, s.log t n)
  | .finish r => m.deliver s t k r

def emit (e : Event) (r : Machine × List Event) : Machine × List Event := (r.1, e :: r.2)

def sleep (r : Machine × List Event) : Machine × List Event :=
  ({ r.1.unlock with running := none, sleepers := r.1.sleepers ++ [t] },
    .call t .slept :: r.2 ++ [.answer t .waiting])

def park : Machine × List Event :=
  ({ m with running := none, queue := m.queue ++ [t] }, [.call t .blocked, .answer t .blocked])

/-- A call that is not refused. To lock is only to enter the call; the mutex is taken once it is free. -/
def serve (next : Next) : Call → Machine × List Event
  | .lock => m.proceed s t k next
  | .unlock => emit (.call t .unlocked) (m.unlock.proceed s t k next)
  | .wait => sleep t (m.proceed s t k next)
  | .broadcast => emit (.call t .announced) ((m.broadcast s).proceed s t k next)

def invoke (c : Call) (next : Next) (refused : Int → Next) : Machine × List Event :=
  match m.refusal c with
  | some code => emit (.call t (.refused c code)) ((m.spend c).proceed s t k (refused code))
  | none => (m.spend c).serve s t k next c

def take (woken : Bool) (next : Next) : Machine × List Event :=
  match m.owner with
  | none =>
    emit (.call t (if woken then .woke else .locked)) ({ m with owner := some t }.proceed s t k next)
  | some _ => m.park t

def perform : Machine × List Event :=
  match k.node with
  | .call c next refused => m.invoke s t k c next refused
  | .take woken next => m.take s t k woken next
  | .read next =>
    emit (.read t k.guard (m.cells k.guard)) (m.proceed s t k (next (m.cells k.guard)))
  | .ask next => (m.register s t).proceed s t k (next (m.token s t))
  | .write new next =>
    emit (.write t k.op k.guard (new (m.cells k.guard).width))
      ((m.poke k.guard (new (m.cells k.guard).width)).proceed s t k next)

def turn : Machine × List Event :=
  match m.running with
  | some t =>
    match m.tasks t with
    | some k => m.perform s t k
    | none => ({ m with running := none }, [])
  | none =>
    match m.ready with
    | t :: rest => ({ m with running := some t, ready := rest }, [])
    | [] => (m, [])

end Machine
end OnceInit

import OnceInit.Machine.Drain

/-! What can be done to a process from outside: one step at a time, each followed by all the turns that it
makes possible. A fault is armed, a cell is overwritten, the mutex is freed whoever owns it, a sleeper is woken
for no reason, a thread acts on a guard, or a thread's innermost initializer comes to its end. On a plain guard
a thread may act by another scheme than the guard's. An action without a name here is supported by no guard. -/

namespace OnceInit

inductive Action
  | acquire
  | release
  | abort
  | phase
  | isComplete
  | line
  | lines
  | tryInit
  | callOnce
  deriving DecidableEq

inductive Step
  | fault (c : Call) (f : Fault)
  | poke (g : GuardId) (c : Cell)
  | forceUnlock
  | spurious (t : ThreadId)
  | act (t : ThreadId) (g : GuardId) (other : Option Scheme) (a : Option Action)
  | finish (t : ThreadId) (e : Ending)

def GuardKind.task? (b : Build) (g : GuardId) (other : Option Scheme) :
    GuardKind → Action → Option Task
  | plain s, .acquire => some (.start .acquire g (other.getD s) .plain)
  | plain s, .release => some (.start .release g (other.getD s) .plain)
  | plain s, .abort => some (.start .abort g (other.getD s) .plain)
  | plain s, .phase => some (.start .inspect g (other.getD s) .plain)
  | plain _, _ => none
  | managed, .acquire => some (.start .acquire g b.scheme .hook)
  | managed, .release => some (.start .release g b.scheme .hook)
  | managed, .abort => some (.start .abort g b.scheme .hook)
  | managed, .phase => some (.start .inspect g b.scheme (.view .phase))
  | managed, .isComplete => some (.start .inspect g b.scheme (.view .isComplete))
  | managed, .line => some (.start .inspect g b.scheme (.view .line))
  | managed, .lines => some (.start .inspect g b.scheme (.view .lines))
  | managed, .tryInit => some (.start .acquire g b.scheme (.opening true))
  | managed, .callOnce => some (.start .acquire g b.scheme (.opening false))

def Frame.task (b : Build) (f : Frame) (e : Ending) : Task :=
  .start (e.within f.fallible).op f.guard b.scheme (.closing (e.within f.fallible))

namespace Machine

def begin (s : Setup) (m : Machine) : Step → Machine × List Event
  | .fault c f => (m.arm c f, [])
  | .poke g c => (m.poke g c, [])
  | .forceUnlock => (m.unlock, [])
  | .spurious t =>
    if t ∈ m.sleepers then ({ m with running := some t, sleepers := m.sleepers.erase t }, [])
    else (m, [.skip .notWaiting])
  | .act t g other a =>
    if (m.tasks t).isSome then (m, [.skip .busy])
    else match s.kinds g with
      | none => (m, [.answer t .noGuard])
      | some kind =>
        match a.bind (kind.task? s.build g other) with
        | none => (m, [.answer t .unsupported])
        | some k => m.launch t k
  | .finish t e =>
    if (m.tasks t).isSome then (m, [.skip .busy])
    else match m.frames t with
      | [] => (m, [.skip .notInside])
      | f :: rest =>
        emit (.closed t f.guard f.fallible e)
          (launch { m with frames := put m.frames t rest } t (f.task s.build e))

def step (s : Setup) (m : Machine) (st : Step) : Machine × List Event :=
  if m.fate.isSome then (m, [])
  else
    let b := m.begin s st
    prepend b.2 (b.1.drain s)

theorem step_of_ended {s : Setup} {m : Machine} (h : m.fate.isSome = true) (st : Step) :
    m.step s st = (m, []) := by
  rw [step, if_pos h]

theorem settled_step {s : Setup} {m : Machine} (h : m.settled = true) (st : Step) :
    (m.step s st).1.settled = true := by
  unfold step
  split
  · exact h
  · exact settled_drain s _

def run (s : Setup) (m : Machine) (steps : List Step) : Machine :=
  steps.foldl (fun m st => (m.step s st).1) m

theorem settled_run {s : Setup} {m : Machine} (h : m.settled = true) (steps : List Step) :
    (m.run s steps).settled = true := by
  induction steps generalizing m with
  | nil => exact h
  | cons st steps ih => exact ih (settled_step h st)

structure Scene where
  machine : Machine
  ran : List Ran

def play (s : Setup) (m : Machine) : List Step → List Scene
  | [] => []
  | st :: steps =>
    if m.fate.isSome then []
    else
      let r := m.step s st
      ⟨r.1, Event.stretches r.2⟩ :: r.1.play s steps

end Machine
end OnceInit

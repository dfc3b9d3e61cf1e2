import OnceInit.Proofs.FatalFailures
import OnceInit.Proofs.Standing

/-! Running an initializer through a guard and calling the hooks around it. In the place of a caller that has a guard run
an initializer there may be one that acquires the guard, runs the initializer itself if it has been granted the guard,
and releases or aborts the guard by how the initializer came to its end. Guards cannot tell them apart, and the two
processes go on in lock step. -/

namespace OnceInit

def Value.Suits : Value → Op → Prop
  | granted _, op => op = .acquire
  | done, op => op.settles = true
  | phase _, op => op = .inspect

def Purpose.hooked : Purpose → Purpose
  | opening _ | closing _ => hook
  | p => p

def Answer.hooked : Answer → Answer
  | inside => code true
  | ran false => code false
  | ran true | initFailed _ | panicked _ => done
  | a => a

def Event.hooked : Event → Option Event
  | opened .. | closed .. => none
  | answer t a => some (.answer t a.hooked)
  | e => some e

def Ending.hook (fallible : Bool) : Ending → Action
  | completed => .release
  | failed _ => if fallible then .abort else .release
  | panicked _ => .abort

def Action.hooked : Action → Action
  | tryInit | callOnce => acquire
  | a => a

/-- The step in which the hook is called that `st` comes down to. The end of an initializer is a release or an abort of
the innermost guard of its thread. -/
def Step.hooked (s : Setup) (m : Machine) : OnceInit.Step → OnceInit.Step
  | .act t g other a => .act t g other (if s.kinds g = some .managed then a.map Action.hooked else a)
  | .finish t e =>
    match m.frames t with
    | [] => .finish t e
    | f :: _ => .act t f.guard none (some (e.hook f.fallible))
  | st => st

theorem Value.Suits.not_granted {e : Ending} {b : Bool} (hv : (granted b).Suits e.op) : False := by
  have hs := e.settles_op
  rw [hv] at hs
  cases hs

theorem Purpose.hooked_answer {p : Purpose} {op : Op} {v : Value} (hp : p.Suits op) (hv : v.Suits op) :
    (p.answer v).hooked = p.hooked.answer v := by
  cases p with
  | plain | hook => cases v <;> rfl
  | view w => cases v <;> cases w <;> rfl
  | opening => rcases v with (_ | _) | _ | _ <;> rfl
  | closing e =>
    cases hp
    cases v with
    | granted => exact hv.not_granted.elim
    | done => cases e <;> rfl
    | phase => rfl

theorem Purpose.hears_hooked (p : Purpose) : p.hooked.hearsFailures = p.hearsFailures := by
  cases p <;> rfl

theorem Task.suits_of_called {k : Task} {c : Call} {r : Int → Next} {v : Value} {x : Cell} {own : Option Token}
    (hf : k.Fits x own) (hn : k.node = .call c (.finish (.gives v)) r) : v.Suits k.op := by
  generalize hx : Next.finish (.gives v) = n at hn
  cases calls hn with
  | lock | wait | yield => cases hx
  | unlock hp =>
    split at hx
    · cases hx
    · cases hx
      simp only [Fits, hp] at hf
      cases v with
      | granted yes => cases yes <;> exact hf.1
      | done | phase => exact hf.1
  | broadcast hp =>
    cases hx
    show k.op.settles = true
    simpa only [Fits, hp] using hf

def Task.hooked (k : Task) : Task := k.recast Purpose.hooked

theorem Task.opens_hooked (k : Task) (v : Value) : k.hooked.opens v = [] := by
  obtain ⟨op, g, c, p, pt⟩ := k
  cases p <;> rfl

theorem GuardKind.task?_hooked (kind : GuardKind) (b : Build) (g : GuardId) (other : Option Scheme) (a : Option Action) :
    (if some kind = some managed then a.map Action.hooked else a).bind (kind.task? b g other) =
      (a.bind (kind.task? b g other)).map Task.hooked := by
  cases kind with
  | plain c =>
    rw [if_neg (by simp)]
    rcases a with _ | _ | _ | _ | _ | _ | _ | _ | _ | _ <;> rfl
  | managed =>
    rw [if_pos rfl]
    rcases a with _ | _ | _ | _ | _ | _ | _ | _ | _ | _ <;> rfl

theorem Frame.task?_hooked (b : Build) (f : Frame) (e : Ending) :
    GuardKind.managed.task? b f.guard none (e.hook f.fallible) = some (f.task b e).hooked := by
  unfold Frame.task
  cases e with
  | completed | panicked => rfl
  | failed => cases f.fallible <;> rfl

namespace Machine

variable {s : Setup} {ok : OnceInit.Step → Prop} {cells : GuardId → Cell} {m : Machine} {h : List Event}
  {t : ThreadId} {k : Task} {n : Next}

def hooked (m : Machine) : Machine := m.recast Purpose.hooked

def relay (r : Machine × List Event) : Machine × List Event := (r.1.hooked, r.2.filterMap Event.hooked)

theorem relay_prepend (es : List Event) (r : Machine × List Event) :
    relay (prepend es r) = prepend (es.filterMap Event.hooked) (relay r) := by
  rw [relay, prepend, List.filterMap_append]
  rfl

theorem relay_sleep (t : ThreadId) (r : Machine × List Event) : relay (sleep t r) = sleep t (relay r) := by
  rw [relay, sleep, List.filterMap_append]
  rfl

theorem hooked_log (s : Setup) (t : ThreadId) (n : Note) :
    (s.log t n).filterMap Event.hooked = s.log t n := by
  unfold Setup.log
  split <;> rfl

theorem hooked_news (hp : k.purpose.Suits k.op) (hn : ∀ v, n = .finish (.gives v) → v.Suits k.op) :
    (n.report t k ++ n.notes s t k).filterMap Event.hooked = n.report t k.hooked ++ n.notes s t k.hooked := by
  cases n with
  | go => rfl
  | tell x => exact hooked_log s t x
  | finish r =>
    cases r with
    | gives v =>
      have ho : ((k.opens v).map fun f => Event.opened t f.guard).filterMap Event.hooked = [] := by
        simp [List.filterMap_eq_nil_iff, Event.hooked]
      have hended : (Event.ended t k.op k.guard (.gives v)).hooked = some (.ended t k.op k.guard (.gives v)) := rfl
      change (_ :: _ ++ [_]).filterMap Event.hooked = .ended t k.op k.guard (.gives v) ::
        (k.hooked.opens v).map _ ++ [.answer t (k.purpose.hooked.answer v)]
      rw [← Purpose.hooked_answer hp (hn v rfl), Task.opens_hooked, List.filterMap_append,
        List.filterMap_cons_some hended, ho]
      rfl
    | fails f =>
      have hh : k.hooked.purpose.hearsFailures = k.purpose.hearsFailures := k.purpose.hears_hooked
      simp only [Next.report, Next.notes, hh]
      split
      · rfl
      · rw [List.filterMap_append, List.filterMap_append, hooked_log]
        rfl

theorem hooked_proceed (hr : m.running = some t) (hp : k.purpose.Suits k.op)
    (hn : ∀ v, n = .finish (.gives v) → v.Suits k.op) :
    m.hooked.proceed s t k.hooked n = relay (m.proceed s t k n) := by
  have hf : n.frames k.hooked = [] := by
    rcases n with _ | _ | ⟨v | _⟩
    · rfl
    · rfl
    · exact k.opens_hooked v
    · rfl
  have hd : n.doom k.hooked = n.doom k := by
    rcases n with _ | _ | ⟨_ | f⟩
    · rfl
    · rfl
    · rfl
    · rw [Next.doom, Next.doom, show k.hooked.purpose.hearsFailures = _ from k.purpose.hears_hooked]
  have ha : (m.advance t k n).hooked = m.hooked.advance t k.hooked n := recast_advance hf hd
  rw [proceed_eq (m := m.hooked) hr, proceed_eq hr, ← hooked_news hp hn, ← ha]
  rfl

theorem hooked_perform (hr : m.running = some t) (hp : k.purpose.Suits k.op)
    (hf : k.Fits (m.cells k.guard) (m.tokens.known t)) :
    m.hooked.perform s t k.hooked = relay (m.perform s t k) := by
  unfold perform
  rw [show k.hooked.node = k.node from rfl]
  cases hn : k.node with
  | call c n refused =>
    have hv : ∀ v, n = .finish (.gives v) → v.Suits k.op := by
      rintro v rfl
      exact Task.suits_of_called hf hn
    simp only [invoke]
    rw [show m.hooked.refusal c = m.refusal c from rfl]
    cases m.refusal c with
    | some code =>
      have hc : ∀ v, refused code = .finish (.gives v) → v.Suits k.op := by
        obtain ⟨f, hc⟩ := Task.refused_eq hn code
        simp [hc]
      exact congrArg (emit _) (hooked_proceed (m := m.spend c) hr hp hc)
    | none =>
      cases c with
      | lock => exact hooked_proceed (m := m.spend .lock) hr hp hv
      | unlock => exact congrArg (emit _) (hooked_proceed (m := (m.spend .unlock).unlock) hr hp hv)
      | broadcast => exact congrArg (emit _) (hooked_proceed (m := (m.spend .broadcast).broadcast s) hr hp hv)
      | wait =>
        cases Task.calls hn with
        | wait =>
          have hs := hooked_proceed (s := s) (m := m.spend .wait) (n := .go .waking) hr hp (by simp)
          exact (congrArg (sleep t) hs).trans (relay_sleep t _).symm
  | take w n =>
    simp only [take]
    rw [show m.hooked.owner = m.owner from rfl]
    cases m.owner with
    | none =>
      have hv : ∀ v, n = .finish (.gives v) → v.Suits k.op := fun v hv =>
        absurd hv (Task.ne_finish_of_after (Task.after_take hn).2 _)
      exact congrArg (emit _) (hooked_proceed (m := { m with owner := some t }) hr hp hv)
    | some u => rfl
  | read f =>
    obtain ⟨k', ha, -⟩ := Task.after_read hn (m.cells k.guard)
    exact congrArg (emit _) (hooked_proceed hr hp fun v hv => absurd hv (Task.ne_finish_of_after ha _))
  | ask f =>
    obtain ⟨k', ha, -⟩ := Task.after_ask hn (m.token s t)
    exact hooked_proceed (m := m.register s t) hr hp fun v hv => absurd hv (Task.ne_finish_of_after ha _)
  | write new n =>
    obtain ⟨v, ha⟩ := Task.after_write hn
    exact congrArg (emit _) (hooked_proceed (m := m.poke k.guard (new (m.cells k.guard).width)) hr hp
      fun v hv => absurd hv (Task.ne_finish_of_after ha _))

theorem hooked_turn (hm : m.Standing s) : m.hooked.turn s = relay (m.turn s) := by
  unfold turn
  rw [show m.hooked.running = m.running from rfl, show m.hooked.ready = m.ready from rfl]
  cases hr : m.running with
  | some t =>
    simp only
    rw [show m.hooked.tasks t = (m.tasks t).map Task.hooked from rfl]
    cases hk : m.tasks t with
    | some k => exact hooked_perform hr (hm.suits t k hk) (hm.fits t k hk)
    | none => rfl
  | none =>
    simp only
    split <;> rfl

theorem Reaches.hooked_drain (hr : Reaches s ok (.start cells) m h) : m.hooked.drain s = relay (m.drain s) := by
  revert h
  fun_induction Machine.drain s m with
  | case1 m hs =>
    intro h _
    exact drain_of_settled (m := m.hooked) hs
  | case2 m hs =>
    rename_i r ih
    intro h hr
    have ht : m.hooked.turn s = relay r := hooked_turn hr.standing
    rw [drain_of_not_settled (m := m.hooked) (Bool.eq_false_iff.mpr hs), ht, relay_prepend]
    exact congrArg (prepend _) (ih (hr.turn (Bool.eq_false_iff.mpr hs)))

theorem hooked_launch (m : Machine) (t : ThreadId) (k : Task) :
    relay (m.launch t k) = m.hooked.launch t k.hooked :=
  congrArg (·, [Event.began t k.op k.guard]) (recast_launch Purpose.hooked m t k)

theorem isSome_hooked (m : Machine) (t : ThreadId) : (m.hooked.tasks t).isSome = (m.tasks t).isSome :=
  Option.isSome_map

theorem hooked_begin (hm : m.Standing s) (st : OnceInit.Step) :
    m.hooked.begin s (st.hooked s m) = relay (m.begin s st) := by
  cases st with
  | fault | poke | forceUnlock => rfl
  | spurious t =>
    simp only [begin, Step.hooked]
    rw [show m.hooked.sleepers = m.sleepers from rfl]
    split <;> rfl
  | act t g other a =>
    simp only [begin, Step.hooked, isSome_hooked]
    split
    · rfl
    · cases s.kinds g with
      | none => rfl
      | some kind =>
        simp only [GuardKind.task?_hooked]
        cases a.bind (kind.task? s.build g other) with
        | none => rfl
        | some k => exact (hooked_launch m t k).symm
  | finish t e =>
    cases hfr : m.frames t with
    | nil =>
      simp only [begin, Step.hooked, isSome_hooked, hfr]
      split <;> rfl
    | cons f rest =>
      have hg : s.kinds f.guard = some .managed := hm.frames t f (by simp [hfr])
      simp only [begin, Step.hooked, isSome_hooked, hg, hfr, Option.bind_some, Frame.task?_hooked]
      split
      · rfl
      · exact (hooked_launch { m with frames := put m.frames t rest } t (f.task s.build e)).symm

theorem Reaches.hooked_step (hr : Reaches s ok (.start cells) m h) (hs : m.settled = true) (st : OnceInit.Step)
    (hk : ok st) : m.hooked.step s (st.hooked s m) = relay (m.step s st) := by
  by_cases hf : m.fate = none
  · rw [step_of_alive (m := m.hooked) hf, step_of_alive hf, relay_prepend, hooked_begin hr.standing]
    exact congrArg (prepend _) (hr.begin st hs hf hk).hooked_drain
  · have hend : m.fate.isSome = true := Option.isSome_iff_ne_none.mpr hf
    rw [step_of_ended (m := m.hooked) hend, step_of_ended hend]
    rfl

/-- The steps in which the hooks are called that the steps of a process come down to, one by one. -/
def inPlace (s : Setup) (m : Machine) : List OnceInit.Step → List OnceInit.Step
  | [] => []
  | st :: steps => st.hooked s m :: inPlace s (m.step s st).1 steps

theorem Reaches.hooked_run (hr : Reaches s (fun _ => True) (.start cells) m h) (hs : m.settled = true)
    (steps : List OnceInit.Step) : m.hooked.run s (m.inPlace s steps) = (m.run s steps).hooked := by
  induction steps generalizing m h with
  | nil => rfl
  | cons st steps ih =>
    have hst := hr.hooked_step hs st trivial
    have hrun := ih (hr.step hs trivial) (settled_step hs st)
    calc m.hooked.run s (m.inPlace s (st :: steps))
        = (m.hooked.step s (st.hooked s m)).1.run s ((m.step s st).1.inPlace s steps) := rfl
      _ = (m.run s (st :: steps)).hooked := by
        rw [hst]
        exact hrun

end Machine
end OnceInit

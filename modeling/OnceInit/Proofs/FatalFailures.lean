import OnceInit.Proofs.Initializers

/-! What becomes of failures. An operation is the same whatever it is run for. Only a plain caller learns what it gives
as it is, failures included; any other purpose makes something else of the value, and of a failure the end of the
process. So a process does what it would do if all of its callers were plain, up to the first failure of which a
caller cannot be told. -/

namespace OnceInit

/-- What a caller with the purpose `p` is told where a plain one is told `a`. -/
def Answer.retold : Purpose → Answer → Answer
  | .hook, granted yes => code yes
  | .view .isComplete, phase q => isComplete (q = .complete)
  | .view .line, phase q => text q.guardOutline.inline
  | .view .lines, phase q => text (q.guardOutline.indented 0)
  | .opening _, granted true => inside
  | .opening _, granted false => ran false
  | .closing .completed, done => ran true
  | .closing (.failed msg), done => initFailed msg
  | .closing (.panicked msg), done => panicked msg
  | _, a => a

theorem Answer.retold_eq_self {p : Purpose} {a : Answer} (ha : a = waiting ∨ a = blocked ∨ ∃ f, a = failure f) :
    a.retold p = a := by
  rcases ha with rfl | rfl | ⟨f, rfl⟩ <;>
    cases p with
    | plain | hook | opening => rfl
    | view w => cases w <;> rfl
    | closing e => cases e <;> rfl

theorem Purpose.retold_answer (p : Purpose) (v : Value) : .retold p (plain.answer v) = p.answer v := by
  cases p with
  | plain | hook => cases v <;> rfl
  | view w => cases v <;> cases w <;> rfl
  | opening => rcases v with (_ | _) | _ | _ <;> rfl
  | closing e => cases v <;> cases e <;> rfl

theorem Purpose.answer_ne_failure (p : Purpose) (v : Value) (f : Failure) : p.answer v ≠ .failure f := by
  cases p with
  | plain | hook => cases v <;> nofun
  | view w => cases v <;> cases w <;> nofun
  | opening => rcases v with (_ | _) | _ | _ <;> nofun
  | closing e => cases v <;> cases e <;> nofun

namespace Event

def retold (p : ThreadId → Purpose) : Event → Event
  | answer t a => .answer t (.retold (p t) a)
  | e => e

def isSeen : Event → Bool
  | opened .. | closed .. => false
  | _ => true

def unheard (p : ThreadId → Purpose) : Event → Option Failure
  | ended t _ _ (.fails f) => if p t = .plain then none else some f
  | _ => none

end Event

structure Retells (p : ThreadId → Purpose) (es es' : List Event) : Prop where
  seen : es'.filter Event.isSeen = es.map (Event.retold p)
  heard : ∀ e ∈ es, e.unheard p = none
  told : ∀ t f, .answer t (.failure f) ∈ es' → p t = .plain

namespace Retells

variable {p : ThreadId → Purpose} {t : ThreadId} {es es' fs fs' : List Event}

theorem nil : Retells p [] [] := ⟨rfl, by simp, by simp⟩

theorem append (h : Retells p es es') (h' : Retells p fs fs') : Retells p (es ++ fs) (es' ++ fs') where
  seen := by rw [List.filter_append, List.map_append, h.seen, h'.seen]
  heard := List.forall_mem_append.mpr ⟨h.heard, h'.heard⟩
  told := fun t f he => (List.mem_append.mp he).elim (h.told t f) (h'.told t f)

theorem one {e : Event} (seen : e.isSeen = true) (same : e.retold p = e) (heard : e.unheard p = none)
    (silent : ∀ t a, e ≠ .answer t a) : Retells p [e] [e] where
  seen := by rw [List.filter_cons_of_pos seen, List.map_singleton, same, List.filter_nil]
  heard := List.forall_mem_singleton.mpr heard
  told := fun t f he => absurd (List.mem_singleton.mp he).symm (silent t _)

theorem unseen (hs : ∀ e ∈ es', e.isSeen = false ∧ ∀ t a, e ≠ .answer t a) : Retells p [] es' where
  seen := List.filter_eq_nil_iff.mpr fun e he => by simp [(hs e he).1]
  heard := List.forall_mem_nil _
  told := fun t f he => absurd rfl ((hs _ he).2 t _)

theorem parks (t : ThreadId) (c : Mark) {a : Answer} (ha : a = .waiting ∨ a = .blocked) :
    Retells p [.call t c, .answer t a] [.call t c, .answer t a] := by
  have hr : a.retold (p t) = a := Answer.retold_eq_self (ha.imp_right .inl)
  rcases ha with rfl | rfl
  · exact ⟨by simp [Event.isSeen, Event.retold, hr], by simp [Event.unheard], by simp⟩
  · exact ⟨by simp [Event.isSeen, Event.retold, hr], by simp [Event.unheard], by simp⟩

theorem log (s : Setup) (t : ThreadId) (n : Note) : Retells p (s.log t n) (s.log t n) := by
  unfold Setup.log
  split
  · exact one rfl rfl rfl (by simp)
  · exact nil

theorem gives (k : Task) (v : Value) (hk : k.purpose = p t) :
    Retells p [.ended t k.op k.guard (.gives v), .answer t (Purpose.plain.answer v)]
      (.ended t k.op k.guard (.gives v) :: (k.opens v).map (fun f => .opened t f.guard) ++
        [.answer t (k.purpose.answer v)]) where
  seen := by
    have hn : ((k.opens v).map fun f => Event.opened t f.guard).filter Event.isSeen = [] := by
      simp [List.filter_eq_nil_iff, Event.isSeen]
    rw [List.filter_append, List.filter_cons_of_pos rfl, hn]
    simp [Event.isSeen, Event.retold, Purpose.retold_answer, hk]
  heard := by simp [Event.unheard]
  told := by
    intro u f he
    simp [Ne.symm (Purpose.answer_ne_failure _ _ _)] at he

theorem fails (k : Task) (f : Failure) (hk : k.purpose = p t) (hh : k.purpose = .plain) :
    Retells p [.ended t k.op k.guard (.fails f), .answer t (.failure f)]
      [.ended t k.op k.guard (.fails f), .answer t (.failure f)] where
  seen := by
    have hr : Answer.retold (p t) (.failure f) = .failure f := Answer.retold_eq_self (.inr (.inr ⟨f, rfl⟩))
    simp [Event.isSeen, Event.retold, hr]
  heard := by simp [Event.unheard, ← hk, hh]
  told := by
    intro u f' he
    simp only [List.mem_cons, reduceCtorEq, Event.answer.injEq, List.not_mem_nil, or_false, false_or] at he
    rw [he.1, ← hk, hh]

end Retells

def Task.recast (f : Purpose → Purpose) (k : Task) : Task := { k with purpose := f k.purpose }

def Task.bare (k : Task) : Task := { k with purpose := .plain }

namespace Next

variable (f : Purpose → Purpose) (k : Task) (n : Next)

theorem after_recast : n.after (k.recast f) = (n.after k).map (Task.recast f) := by
  cases n <;> rfl

theorem frames_bare : n.frames k.bare = [] := by
  rcases n with _ | _ | ⟨_ | _⟩ <;> rfl

theorem doom_bare : n.doom k.bare = none := by
  rcases n with _ | _ | ⟨_ | _⟩ <;> rfl

end Next

/-- What an action on a managed guard has done to it, and for what. -/
def Action.serves : Action → Op × Purpose
  | acquire => (.acquire, .hook)
  | release => (.release, .hook)
  | abort => (.abort, .hook)
  | phase => (.inspect, .view .phase)
  | isComplete => (.inspect, .view .isComplete)
  | line => (.inspect, .view .line)
  | lines => (.inspect, .view .lines)
  | tryInit => (.acquire, .opening true)
  | callOnce => (.acquire, .opening false)

theorem Action.task?_eq (b : Build) (g : GuardId) (other : Option Scheme) (a : Action) :
    GuardKind.managed.task? b g other a = some (.start a.serves.1 g b.scheme a.serves.2) := by
  cases a <;> rfl

namespace Machine

def recast (f : Purpose → Purpose) (m : Machine) : Machine :=
  { m with tasks := fun t => (m.tasks t).map (Task.recast f), frames := fun _ => [] }

def bare (m : Machine) : Machine :=
  { m with tasks := fun t => (m.tasks t).map Task.bare, frames := fun _ => [] }

def Speaks (m : Machine) (p : ThreadId → Purpose) : Prop := ∀ t k, m.tasks t = some k → k.purpose = p t

variable {s : Setup} {p : ThreadId → Purpose} {m : Machine} {t : ThreadId} {k : Task}

theorem recast_put_tasks (f : Purpose → Purpose) (m : Machine) (t : ThreadId) (a : Option Task) :
    (fun u => (put m.tasks t a u).map (Task.recast f)) = put (m.recast f).tasks t (a.map (Task.recast f)) := by
  funext u
  by_cases hu : u = t
  · subst hu
    simp
  · simp [put_of_ne _ _ hu, recast]

theorem recast_advance {f : Purpose → Purpose} {n : Next} (hf : n.frames (k.recast f) = [])
    (hd : n.doom (k.recast f) = n.doom k) :
    (m.advance t k n).recast f = (m.recast f).advance t (k.recast f) n := by
  simp only [advance, Next.after_recast, hf, hd, Option.isSome_map]
  simp only [recast, recast_put_tasks]
  simp

theorem recast_launch (f : Purpose → Purpose) (m : Machine) (t : ThreadId) (k : Task) :
    (m.launch t k).1.recast f = ((m.recast f).launch t (k.recast f)).1 := by
  simp only [launch, recast, recast_put_tasks]
  rfl

theorem bare_put_tasks (m : Machine) (t : ThreadId) (a : Option Task) :
    (fun u => (put m.tasks t a u).map Task.bare) = put m.bare.tasks t (a.map Task.bare) :=
  recast_put_tasks (fun _ => .plain) m t a

theorem bare_advance {n : Next} (hd : n.doom k = none) : (m.advance t k n).bare = m.bare.advance t k.bare n :=
  recast_advance (f := fun _ => .plain) (Next.frames_bare k n) ((Next.doom_bare k n).trans hd.symm)

theorem Speaks.put_tasks {m' : Machine} {a : Option Task} (hm : m.Speaks p) (ht : m'.tasks = put m.tasks t a)
    (ha : ∀ k, a = some k → k.purpose = p t) : m'.Speaks p := by
  intro u k hk
  rw [ht] at hk
  by_cases hu : u = t
  · subst hu
    exact ha k ((put_same ..).symm.trans hk)
  · exact hm u k ((put_of_ne _ _ hu).symm.trans hk)

inductive Echoes (s : Setup) (p : ThreadId → Purpose) : Machine × List Event → Machine × List Event → Prop
  | alive {m : Machine} {es es' : List Event} (alive : m.fate = none) (speaks : m.Speaks p)
      (retells : Retells p es es') : Echoes s p (m.bare, es) (m, es')
  | ended {m m' : Machine} {es es' later : List Event} {t : ThreadId} {op : Op} {g : GuardId} {f : Failure}
      (fate : m'.fate = some f) (unheard : p t ≠ .plain) (retells : Retells p es es') :
      Echoes s p (m, es ++ .ended t op g (.fails f) :: later)
        (m', es' ++ .ended t op g (.fails f) :: (s.log t (.fatal f.op f.kind) ++ [.answer t .terminated]))

theorem Echoes.prepend {es es' : List Event} {r r' : Machine × List Event} (hr : Echoes s p r r')
    (he : Retells p es es') : Echoes s p (prepend es r) (prepend es' r') := by
  cases hr with
  | alive hf hm h => exact .alive hf hm (he.append h)
  | ended hf hu h =>
    simp only [Machine.prepend, ← List.append_assoc]
    exact .ended hf hu (he.append h)

theorem Echoes.emit {e : Event} {r r' : Machine × List Event} (hr : Echoes s p r r') (he : Retells p [e] [e]) :
    Echoes s p (emit e r) (emit e r') :=
  hr.prepend he

theorem echoes_proceed (hr : m.running = some t) (hf : m.fate = none) (hm : m.Speaks p) (hk : k.purpose = p t)
    (n : Next) : Echoes s p (m.bare.proceed s t k.bare n) (m.proceed s t k n) := by
  rw [proceed_eq (m := m.bare) hr, proceed_eq hr]
  have hm' : (m.advance t k n).Speaks p := hm.put_tasks rfl fun k' ha => by rw [Task.after_eq ha]; exact hk
  have alive : ∀ {es es'}, n.doom k = none → Retells p es es' →
      Echoes s p (m.bare.advance t k.bare n, es) (m.advance t k n, es') := by
    intro es es' hd he
    rw [← bare_advance hd]
    exact .alive (by simp [advance, hd, hf]) hm' he
  cases n with
  | go q => exact alive rfl .nil
  | tell n q => exact alive rfl (.log s t n)
  | finish r =>
    cases r with
    | gives v => exact alive rfl (.gives k v hk)
    | fails f =>
      cases hh : k.purpose.hearsFailures with
      | true =>
        simp only [Next.report, Next.notes, hh, if_true]
        exact alive (by simp [Next.doom, hh]) (.fails k f hk (Purpose.hearsFailures_eq_true_iff.mp hh))
      | false =>
        simp only [Next.report, Next.notes, hh]
        change Echoes s p (_, [] ++ _ :: _) (_, [] ++ _ :: _)
        exact .ended (by simp [advance, Next.doom, hh]) (hk ▸ Purpose.hearsFailures_eq_false_iff.mp hh) .nil

theorem echoes_perform (hr : m.running = some t) (hf : m.fate = none) (hm : m.Speaks p) (hk : k.purpose = p t) :
    Echoes s p (m.bare.perform s t k.bare) (m.perform s t k) := by
  unfold perform
  rw [show k.bare.node = k.node from rfl]
  cases hn : k.node with
  | call c n refused =>
    simp only [invoke]
    rw [show m.bare.refusal c = m.refusal c from rfl]
    cases m.refusal c with
    | some code => exact (echoes_proceed (m := m.spend c) hr hf hm hk _).emit (.one rfl rfl rfl (by simp))
    | none =>
      cases c with
      | lock => exact echoes_proceed (m := m.spend .lock) hr hf hm hk n
      | unlock => exact (echoes_proceed (m := (m.spend .unlock).unlock) hr hf hm hk n).emit (.one rfl rfl rfl (by simp))
      | broadcast =>
        exact (echoes_proceed (m := (m.spend .broadcast).broadcast s) hr hf hm hk n).emit (.one rfl rfl rfl (by simp))
      | wait =>
        cases Task.calls hn with
        | wait =>
          have h := Echoes.alive (s := s) (m := (sleep t ((m.spend .wait).proceed s t k (.go .waking))).1) hf
            (hm.put_tasks rfl (by rintro _ ⟨⟩; exact hk)) (.parks t .slept (.inl rfl))
          simp only [sleep, proceed, place, unlock, bare, bare_put_tasks] at h
          exact h
  | take w n =>
    simp only [take]
    rw [show m.bare.owner = m.owner from rfl]
    cases m.owner with
    | none => exact (echoes_proceed (m := { m with owner := some t }) hr hf hm hk n).emit (.one rfl rfl rfl (by simp))
    | some u => exact .alive (m := (m.park t).1) hf hm (.parks t .blocked (.inr rfl))
  | read f =>
    exact (echoes_proceed hr hf hm hk _).emit (.one rfl rfl rfl (by simp))
  | ask f => exact echoes_proceed (m := m.register s t) hr hf hm hk _
  | write new n =>
    exact (echoes_proceed (m := m.poke k.guard (new (m.cells k.guard).width)) hr hf hm hk n).emit
      (.one rfl rfl rfl (by simp))

theorem echoes_turn (hf : m.fate = none) (hm : m.Speaks p) : Echoes s p (m.bare.turn s) (m.turn s) := by
  unfold turn
  rw [show m.bare.running = m.running from rfl, show m.bare.ready = m.ready from rfl]
  cases hr : m.running with
  | some t =>
    simp only
    rw [show m.bare.tasks t = (m.tasks t).map Task.bare from rfl]
    cases hk : m.tasks t with
    | some k => exact echoes_perform hr hf hm (hm t k hk)
    | none => exact .alive (m := { m with running := none }) hf hm .nil
  | none =>
    simp only
    split
    · next t rest _ => exact .alive (m := { m with running := some t, ready := rest }) hf hm .nil
    · exact .alive hf hm .nil

theorem echoes_drain (hf : m.fate = none) (hm : m.Speaks p) : Echoes s p (m.bare.drain s) (m.drain s) := by
  fun_induction drain s m with
  | case1 m hs =>
    rw [drain_of_settled (m := m.bare) hs]
    exact .alive hf hm .nil
  | case2 m hs r ih =>
    rw [drain_of_not_settled (m := m.bare) (Bool.eq_false_iff.mpr hs)]
    have ht : Echoes s p (m.bare.turn s) r := echoes_turn hf hm
    generalize m.bare.turn s = b at ht
    generalize r = r' at ht ih
    cases ht with
    | alive hf' hm' he => exact (ih hf' hm').prepend he
    | @ended m₁ m' es es' later t op g f hf' hu he =>
      -- the process has ended, whatever plain callers would go on to do
      rw [drain_of_settled (m := m') (by simp [settled, hf'])]
      simp only [prepend, List.append_assoc, List.cons_append, List.append_nil]
      exact .ended hf' hu he

/-- By the step, `t` has `op` done to the managed guard `g`, for the sake of `q`. -/
inductive Serves (s : Setup) (m : Machine) (t : ThreadId) : OnceInit.Step → Op → GuardId → Purpose → Prop
  | acts {g : GuardId} (other : Option Scheme) (a : Action) (guard : s.kinds g = some .managed)
      (free : m.tasks t = none) : Serves s m t (.act t g other (some a)) a.serves.1 g a.serves.2
  | succeeds {f : Frame} {rest : List Frame} {e : Ending} (guard : s.kinds f.guard = some .managed)
      (free : m.tasks t = none) (top : m.frames t = f :: rest) (good : e.Succeeds f.fallible) :
      Serves s m t (.finish t e) .release f.guard (.closing .completed)
  | fails {f : Frame} {rest : List Frame} (msg : String) (guard : s.kinds f.guard = some .managed)
      (free : m.tasks t = none) (top : m.frames t = f :: rest) (fallible : f.fallible = true) :
      Serves s m t (.finish t (.failed msg)) .abort f.guard (.closing (.failed msg))
  | panics {f : Frame} {rest : List Frame} (msg : String) (guard : s.kinds f.guard = some .managed)
      (free : m.tasks t = none) (top : m.frames t = f :: rest) :
      Serves s m t (.finish t (.panicked msg)) .abort f.guard (.closing (.panicked msg))

def purposes (m : Machine) (t : ThreadId) : Purpose := ((m.tasks t).map Task.purpose).getD .plain

theorem speaks_purposes (m : Machine) : m.Speaks m.purposes := fun t k hk => by simp [purposes, hk]

/-- What comes of a step, `high`, when threads act for the purposes `p`, and what would, `low`, if all callers were
plain. -/
structure Conveys (s : Setup) (p : ThreadId → Purpose) (low high : Machine × List Event) : Prop where
  fate : high.1.fate = low.2.findSome? (Event.unheard p)
  told : ∀ t f, .answer t (.failure f) ∈ high.2 → p t = .plain
  alive : high.1.fate = none → high.1.bare = low.1 ∧ high.2.filter Event.isSeen = low.2.map (Event.retold p)
  ended : ∀ f, high.1.fate = some f → high.1.stderr = f.message ++ "\n" ∧
    (∀ st, high.1.step s st = (high.1, [])) ∧
    ∃ es es' later t op g, p t ≠ .plain ∧ low.2 = es ++ .ended t op g (.fails f) :: later ∧
      es'.filter Event.isSeen = es.map (Event.retold p) ∧ high.2 = es' ++ .ended t op g (.fails f) ::
        ((if s.build.tracing then [.log t (.fatal f.op f.kind)] else []) ++ [.answer t .terminated])

theorem Echoes.conveys {low high : Machine × List Event} (he : Echoes s p low high) : Conveys s p low high := by
  cases he with
  | alive hf _ h =>
    exact {
      fate := by rw [hf, eq_comm, List.findSome?_eq_none_iff]; exact h.heard
      told := h.told
      alive := fun _ => ⟨rfl, h.seen⟩
      ended := fun f hf' => by cases hf.symm.trans hf' }
  | @ended m m' es es' later t op g f hf hu h =>
    exact {
      fate := by
        rw [hf, List.findSome?_append, List.findSome?_eq_none_iff.mpr h.heard]
        simp [Event.unheard, hu]
      told := by
        intro u f' hm
        refine h.told u f' ((List.mem_append.mp hm).resolve_right fun hm => ?_)
        have hl : .answer u (.failure f') ∉ s.log t (.fatal f.op f.kind) := fun he => by cases eq_of_mem_log he
        simp [hl] at hm
      alive := fun hf' => by cases hf.symm.trans hf'
      ended := by
        intro f' hf'
        cases hf.symm.trans hf'
        refine ⟨by simp [stderr, hf], fun st => step_of_ended (by simp [hf]) st, ?_⟩
        exact ⟨es, es', later, t, op, g, hu, rfl, h.seen, rfl⟩ }

end Machine

/-- The operations by themselves: all guards are plain ones of the build's scheme. -/
def Setup.exposed (s : Setup) : Setup :=
  { s with kinds := fun g => (s.kinds g).map fun
      | .plain c => .plain c
      | .managed => .plain s.build.scheme }

def Op.action : Op → Action
  | acquire => .acquire
  | release => .release
  | abort => .abort
  | inspect => .phase

namespace Machine

variable {s : Setup} {p : ThreadId → Purpose} {m : Machine} {t : ThreadId} {g : GuardId} {op : Op} {q : Purpose}
  {k : Task} {st : OnceInit.Step}

theorem drain_exposed (s : Setup) (m : Machine) : m.drain s.exposed = m.drain s := by
  fun_induction drain s m with
  | case1 m hs => exact drain_of_settled hs
  | case2 m hs r ih =>
    rw [drain_of_not_settled (Bool.eq_false_iff.mpr hs), ← ih]
    rfl

theorem step_exposed (hf : m.fate = none) (ht : m.tasks t = none) (hg : s.kinds g = some .managed) (op : Op) :
    m.bare.step s.exposed (.act t g none (some op.action)) =
      prepend [.began t op g] ((m.bare.launch t (.start op g s.build.scheme .plain)).1.drain s) := by
  have hb : m.bare.begin s.exposed (.act t g none (some op.action)) =
      m.bare.launch t (.start op g s.build.scheme .plain) := by
    have hn : m.bare.tasks t = none := by simp [bare, ht]
    have hk : s.exposed.kinds g = some (.plain s.build.scheme) := by simp [Setup.exposed, hg]
    simp only [begin, hn, hk]
    cases op <;> rfl
  rw [step_of_alive (m := m.bare) hf, hb, drain_exposed]
  rfl

theorem bare_launch (m : Machine) (t : ThreadId) (k : Task) : (m.launch t k).1.bare = (m.bare.launch t k.bare).1 :=
  recast_launch (fun _ => .plain) m t k

theorem Speaks.launch (hm : m.Speaks p) (t : ThreadId) (k : Task) : (m.launch t k).1.Speaks (put p t k.purpose) := by
  intro u j hj
  by_cases hu : u = t
  · subst hu
    cases (put_same ..).symm.trans hj
    rw [put_same]
  · rw [put_of_ne _ _ hu]
    exact hm u j ((put_of_ne _ _ hu).symm.trans hj)

theorem echoes_launch (hf : m.fate = none) (hm : m.Speaks p) (t : ThreadId) (k : Task) :
    Echoes s (put p t k.purpose) ((m.bare.launch t k.bare).1.drain s) ((m.launch t k).1.drain s) := by
  rw [← bare_launch]
  exact echoes_drain hf (hm.launch t k)

theorem Serves.free (hs : m.Serves s t st op g q) : m.tasks t = none := by
  cases hs with
  | acts _ _ _ free | succeeds _ free | fails _ _ free | panics _ _ free => exact free

theorem Serves.managed (hs : m.Serves s t st op g q) : s.kinds g = some .managed := by
  cases hs with
  | acts _ _ guard | succeeds guard | fails _ guard | panics _ guard => exact guard

theorem Serves.ne_plain (hs : m.Serves s t st op g q) : q ≠ .plain := by
  cases hs with
  | acts _ a => cases a <;> nofun
  | succeeds | fails | panics => nofun

theorem Serves.begins (hs : m.Serves s t st op g q) : ∃ fs es,
    m.begin s st = prepend es (launch { m with frames := fs } t (.start op g s.build.scheme q)) ∧
      ∀ e ∈ es, ∃ b x, e = .closed t g b x := by
  cases hs with
  | acts other a guard free =>
    refine ⟨m.frames, [], ?_, List.forall_mem_nil _⟩
    simp [begin, free, guard, Action.task?_eq, prepend]
  | @succeeds f rest e guard free top good =>
    refine ⟨put m.frames t rest, [.closed t f.guard f.fallible e], ?_, by simp⟩
    simp [begin, free, top, emit, prepend, Frame.task, Ending.within_eq_completed_iff.mpr good, Ending.op]
  | @fails f rest msg guard free top fallible =>
    refine ⟨put m.frames t rest, [.closed t f.guard f.fallible (.failed msg)], ?_, by simp⟩
    simp [begin, free, top, emit, prepend, Frame.task, Ending.within, fallible, Ending.op]
  | @panics f rest msg guard free top =>
    refine ⟨put m.frames t rest, [.closed t f.guard f.fallible (.panicked msg)], ?_, by simp⟩
    simp [begin, free, top, emit, prepend, Frame.task, Ending.within, Ending.op]

end Machine
end OnceInit

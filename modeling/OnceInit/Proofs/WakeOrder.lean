import OnceInit.Proofs.HandOver
import OnceInit.Proofs.Stretches

/-! The order in which a broadcast wakes sleepers. Where nobody aborts, whoever is woken finds that its variable is
complete or still under way, and so writes nothing and wakes nobody. Two processes whose sleepers differ in their order
then stay alike. -/

namespace OnceInit

def Step.aborts : OnceInit.Step → Bool
  | .act _ _ _ (some .abort) => true
  | .finish _ e => e ≠ .completed
  | _ => false

theorem GuardKind.eq_abort_of_task? {kind : GuardKind} {b : Build} {g : GuardId} {other : Option Scheme} {a : Action}
    {k : Task} (hk : kind.task? b g other a = some k) (ho : k.op = .abort) : a = .abort := by
  unfold GuardKind.task? at hk
  split at hk <;> cases hk <;> first | rfl | cases ho

def Setup.waking (s : Setup) (newestFirst : Bool) : Setup := { s with newestFirst := newestFirst }

namespace Machine

structure Reordered (m m' : Machine) : Prop where
  sleepers : m'.sleepers.Perm m.sleepers
  rest : m' = { m with sleepers := m'.sleepers }

structure Shuffled (xs ys : List Ran) : Prop where
  first : ys.head? = xs.head?
  resumed : ys.tail.Perm xs.tail

/-- Two scenes tell the same of the process. -/
structure Alike (x y : Scene) : Prop where
  cells : y.machine.cells = x.machine.cells
  owner : y.machine.owner = x.machine.owner
  status : ∀ t, y.machine.status t = x.machine.status t
  depth : ∀ t, y.machine.depth t = x.machine.depth t
  fate : y.machine.fate = x.machine.fate
  ran : Shuffled x.ran y.ran

variable {s : Setup} {sch : GuardId → Scheme} {cells : GuardId → Cell} {m m' : Machine} {h es : List Event}
  {t u : ThreadId} {k : Task} {g : GuardId} {me : Token} {ts : List ThreadId} {b : Bool} {c : Cell}

theorem Shuffled.refl (xs : List Ran) : Shuffled xs xs := ⟨rfl, .refl _⟩

theorem Reordered.refl (m : Machine) : m.Reordered m := ⟨.refl _, rfl⟩

theorem Reordered.alike {xs ys : List Ran} (hm : m.Reordered m') (hx : Shuffled xs ys) :
    Alike ⟨m, xs⟩ ⟨m', ys⟩ := by
  obtain ⟨hp, he⟩ := hm
  generalize m'.sleepers = ts at hp he
  subst he
  refine ⟨rfl, rfl, fun t => ?_, fun _ => rfl, rfl, hx⟩
  simp only [status, hp.mem_iff]
  rfl

theorem Poised.of_perm (hp : m.Poised sch) (hs : ts.Perm m.sleepers) : Poised sch { m with sleepers := ts } :=
  ⟨⟨hp.queue, hp.owner, hp.alive, hp.unarmed⟩, hp.running, hp.ready, hs.nodup_iff.mpr hp.nodup,
    fun t => hs.mem_iff.trans (hp.busy t), fun t ht =>
      have ⟨k, me, hd, hk⟩ := hp.asleep t (hs.mem_iff.mp ht)
      ⟨k, me, hd.of_eq rfl rfl, hk⟩⟩

structure Twins (r r' : Machine × List Event) : Prop where
  machine : Reordered r.1 r'.1
  ran : Shuffled (Event.stretches r.2) (Event.stretches r'.2)

theorem twins_of_perm {ts : List ThreadId} (hp : ts.Perm m.sleepers) : Twins (m, es) ({ m with sleepers := ts }, es) :=
  ⟨⟨hp, rfl⟩, .refl _⟩

theorem answered_settling : Event.Answered (m.settling s t k) := by
  unfold settling Setup.log
  split <;> rfl

theorem answered_visit : Event.Answered (m.visit s t) := by
  unfold visit Setup.log
  split
  · rfl
  · split
    · rfl
    · split <;> rfl

theorem stretches_settling : Event.stretches (m.settling s t k) =
    [.stretch ⟨t, k.purpose.answer .done, [.locked, .unlocked, .announced],
      if s.build.tracing then [k.storedNote] else []⟩] := by
  unfold settling Setup.log
  split <;> rfl

theorem stretches_heeding : Event.stretches (m.heeding s t k c) = Event.stretches (m.settling s t k) ++
    (s.wakeOrder m.sleepers).flatMap fun u => Event.stretches (visit s (m.roused s k.guard c) u) := by
  rw [heeding, Event.stretches_append answered_settling, Event.stretches_flatMap fun _ => answered_visit]

theorem reordered_visited {xs ys : List ThreadId} (hx : ys.Perm xs) :
    Reordered ((m.roused s g c).visited xs []) ((roused (s.waking b) { m with sleepers := ts } g c).visited ys []) := by
  refine ⟨(hx.filter _).append_left _, ?_⟩
  simp only [visited, hx.mem_iff]
  rfl

theorem Poised.twins_woken {xs ys : List ThreadId} (hp : m.Poised sch) (ht : t ∈ m.sleepers) (hx : ys.Perm xs) :
    Twins (drain s { m with running := some t, sleepers := xs })
      (drain (s.waking b) { m with running := some t, sleepers := ys }) := by
  rw [hp.drain_woken ht, hp.drain_woken ht]
  exact twins_of_perm (hx.append_right _)

section Bout

variable (hp : m.Poised sch) (hs : ts.Perm m.sleepers)

include hp hs

theorem Poised.twins_inspected (hi : k.op = .inspect) (hl : k.point = .locking) :
    Twins ((m.doing t k).drain s) ((doing { m with sleepers := ts } t k).drain (s.waking b)) := by
  rw [hp.atRest.drain_inspected hi hl, (hp.of_perm hs).atRest.drain_inspected hi hl]
  exact twins_of_perm hs

theorem Poised.twins_acquired (ho : k.op = .acquire) (hl : k.point = .locking) :
    Twins ((m.doing t k).drain s) ((doing { m with sleepers := ts } t k).drain (s.waking b)) := by
  have hp' := hp.of_perm hs
  cases hq : k.scheme.phaseOf (m.cells k.guard) with
  | complete =>
    rw [hp.atRest.drain_complete ho hl hq, hp'.atRest.drain_complete ho hl hq]
    exact twins_of_perm hs
  | untouched =>
    rw [hp.atRest.drain_granted ho hl hq, hp'.atRest.drain_granted ho hl hq]
    exact twins_of_perm hs
  | underWay c =>
    by_cases hc : c = .takenBy (m.token s t)
    · subst hc
      rw [hp.atRest.drain_deadlock ho hl hq, hp'.atRest.drain_deadlock (s := s.waking b) ho hl hq]
      exact twins_of_perm hs
    · rw [hp.atRest.drain_dozing ho hl hq hc, hp'.atRest.drain_dozing (s := s.waking b) ho hl hq hc]
      exact twins_of_perm (hs.append_right _)

theorem Poised.twins_released (free : m.tasks t = none) (ho : k.op = .release) (hl : k.point = .locking) :
    Twins ((m.doing t k).drain s) ((doing { m with sleepers := ts } t k).drain (s.waking b)) := by
  have hk : k.op.settles = true := by rw [ho]; rfl
  have hx : ((s.waking b).wakeOrder ts).Perm (s.wakeOrder m.sleepers) :=
    (wakeOrder_perm _ ts).trans (hs.trans (wakeOrder_perm s m.sleepers).symm)
  rw [hp.drain_heeded free hk hl (.inl ho), (hp.of_perm hs).drain_heeded (s := s.waking b) free hk hl (.inl ho)]
  refine ⟨reordered_visited hx, ?_⟩
  rw [stretches_heeding, stretches_heeding, stretches_settling, stretches_settling]
  exact ⟨rfl, hx.flatMap_right _⟩

end Bout

theorem Twins.prepend {r r' : Machine × List Event} (hr : Twins r r') (hq : Event.Answered es)
    (hn : Event.stretches es = []) : Twins (prepend es r) (prepend es r') := by
  refine ⟨hr.machine, ?_⟩
  simp only [Machine.prepend, Event.stretches_append hq, hn, List.nil_append]
  exact hr.ran

theorem Poised.twins_launched (hp : m.Poised sch) (hs : ts.Perm m.sleepers) (free : m.tasks t = none)
    (hl : k.point = .locking) (hn : k.op ≠ .abort) :
    Twins ((m.doing t k).drain s) ((doing { m with sleepers := ts } t k).drain (s.waking b)) := by
  cases ho : k.op with
  | acquire => exact hp.twins_acquired hs ho hl
  | release => exact hp.twins_released hs free ho hl
  | abort => exact absurd ho hn
  | inspect => exact hp.twins_inspected hs ho hl

theorem begin_reordered (hs : ts.Perm m.sleepers) (st : OnceInit.Step) : ∃ ts', ts'.Perm (m.begin s st).1.sleepers ∧
    begin (s.waking b) { m with sleepers := ts } st =
      ({ (m.begin s st).1 with sleepers := ts' }, (m.begin s st).2) := by
  cases st with
  | fault | poke | forceUnlock => exact ⟨ts, hs, rfl⟩
  | spurious t =>
    simp only [Machine.begin, hs.mem_iff]
    split
    · exact ⟨ts.erase t, hs.erase t, rfl⟩
    · exact ⟨ts, hs, rfl⟩
  | act t g other a =>
    refine ⟨ts, ?_⟩
    simp only [Machine.begin, Setup.waking]
    split
    · exact ⟨hs, rfl⟩
    · split
      · exact ⟨hs, rfl⟩
      · split <;> exact ⟨hs, rfl⟩
  | finish t e =>
    refine ⟨ts, ?_⟩
    simp only [Machine.begin]
    split
    · exact ⟨hs, rfl⟩
    · split
      · exact ⟨hs, rfl⟩
      · exact ⟨hs, rfl⟩

theorem not_began_abort {st : OnceInit.Step} (ha : st.aborts = false) (u : ThreadId) (g : GuardId) :
    .began u .abort g ∉ (m.begin s st).2 := by
  have ho := onset s m st
  generalize m.begin s st = r at ho ⊢
  cases ho with
  | armed | poked | freed | skipped | declined | woken => simp
  | @launched t k kind other a _ _ hk =>
    intro he
    have ho : k.op = .abort := (Event.began.inj (List.mem_singleton.mp he)).2.1.symm
    obtain rfl := GuardKind.eq_abort_of_task? hk ho
    cases ha
  | @closed t f rest e =>
    obtain rfl : e = .completed := by simpa [Step.aborts] using ha
    simp [launch, emit, Frame.task, Task.start, Ending.within, Ending.op]

theorem Poised.twins_step {st : OnceInit.Step} (hp : m.Poised sch) (hm : m.Reordered m') (hst : st.Smooth s sch)
    (ha : st.aborts = false) : Twins (m.step s st) (m'.step (s.waking b) st) := by
  obtain ⟨hs, he⟩ := hm
  generalize m'.sleepers = ts at hs he
  subst he
  rw [step_of_alive hp.alive, step_of_alive (m := { m with sleepers := ts }) hp.alive]
  obtain ⟨ts', hs', he'⟩ := begin_reordered (s := s) (b := b) hs st
  rw [he']
  have hbegins := hp.begins hst
  have hna := not_began_abort (s := s) (m := m) ha
  generalize m.begin s st = r at hs' hbegins hna ⊢
  cases hbegins with
  | @nothing es =>
    rw [drain_of_settled hp.settled, drain_of_settled (hp.of_perm hs').settled]
    exact twins_of_perm hs'
  | wakes ht => exact (hp.twins_woken ht hs').prepend rfl rfl
  | @starts t k kind other a free _ hk =>
    have hl : k.point = .locking := by rw [GuardKind.task?_eq hk]; rfl
    have hn : k.op ≠ .abort := fun ho => hna t k.guard (by simp [launch, ho])
    exact (hp.twins_launched hs' free hl hn).prepend rfl rfl
  | @closes t f rest e free =>
    have hn : (f.task s.build e).op ≠ .abort := fun ho => hna t f.guard <| by
      rw [← ho]
      simp [launch, emit, Frame.task, Task.start]
    exact ((hp.of_frames (put m.frames t rest)).twins_launched hs' free rfl hn).prepend rfl rfl

theorem Reaches.plays_alike {steps : List OnceInit.Step} (hr : Reaches s (Step.Smooth s sch) (.start cells) m h)
    (hs : m.settled = true) (hm : m.Reordered m') (hst : ∀ st ∈ steps, st.Smooth s sch ∧ st.aborts = false) :
    List.Forall₂ Alike (m.play s steps) (m'.play (s.waking b) steps) := by
  -- the orders drift apart for good, so the second machine is any that has the sleepers of the first in some order
  induction steps generalizing m m' h with
  | nil => exact .nil
  | cons st steps ih =>
    obtain ⟨hd, ha⟩ := hst st List.mem_cons_self
    have hfate : m'.fate = m.fate := by rw [hm.rest]
    simp only [play, hfate]
    cases hf : m.fate with
    | some f => exact .nil
    | none =>
      have ht := (hr.poised hs hf).twins_step (b := b) hm hd ha
      exact .cons (ht.machine.alike ht.ran)
        (ih (hr.step hs hd) (settled_step hs st) ht.machine fun x hx => hst x (List.mem_cons_of_mem st hx))

/-- Where nothing fails and nobody aborts, it makes no difference who is woken first. -/
theorem wake_order_immaterial {steps : List OnceInit.Step} (hst : ∀ st ∈ steps, st.Smooth s sch ∧ st.aborts = false)
    (b : Bool) : List.Forall₂ Alike ((start cells).play s steps) ((start cells).play (s.waking b) steps) :=
  Reaches.start.plays_alike (settled_start cells) (.refl _) hst

/-- Two threads wait for a guard while another is released, and so sleep again in the order in which they are woken. -/
theorem wake_order_immaterial_drifting : ∃ steps : List OnceInit.Step,
    ((start fun _ => .zero .wide).run (.plain .owner) steps).sleepers = [1, 2] ∧
    ((start fun _ => .zero .wide).run ((Setup.plain .owner).waking true) steps).sleepers = [2, 1] ∧
    List.Forall₂ Alike ((start fun _ => .zero .wide).play (.plain .owner) steps)
      ((start fun _ => .zero .wide).play ((Setup.plain .owner).waking true) steps) := by
  have hp := Setup.plain_smooth .owner
  refine ⟨[.act 0 0 none (some .acquire), .act 0 1 none (some .acquire), .act 1 1 none (some .acquire),
    .act 2 1 none (some .acquire), .act 0 0 none (some .release)], ?_, ?_,
    @wake_order_immaterial _ (fun _ => .owner) _ _ (by simp [hp, Step.aborts]) true⟩
  all_goals
    rw [run_cons_turns (n := 9) (by decide) (by decide), run_cons_turns (n := 9) (by decide) (by decide),
      run_cons_turns (n := 9) (by decide) (by decide), run_cons_turns (n := 9) (by decide) (by decide),
      run_cons_turns (n := 20) (by decide) (by decide)]
    decide

end Machine
end OnceInit

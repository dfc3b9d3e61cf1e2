import OnceInit.Proofs.Bout
import OnceInit.Proofs.Course

/-! Steps that only look. Between the steps of a run in which no call fails, a thread that looks at a guard, or that
acquires one whose variable is complete, leaves the process as it was, so that a run goes on in the same way with such
steps or without them. -/

namespace OnceInit

def Action.looks (c : Cell) : Action → Bool
  | .phase | .isComplete | .line | .lines => true
  | .acquire | .tryInit | .callOnce => c.isComplete
  | .release | .abort => false

theorem GuardKind.looks_cases {kind : GuardKind} {b : Build} {g : GuardId} {other : Option Scheme} {a : Action}
    {k : Task} {c : Cell} (hk : kind.task? b g other a = some k) (hl : a.looks c = true) :
    k.op = .inspect ∨ k.op = .acquire ∧ c.isComplete = true := by
  cases a with
  | phase | isComplete | line | lines => cases kind <;> cases hk <;> exact .inl rfl
  | acquire | tryInit | callOnce => cases kind <;> cases hk <;> exact .inr ⟨rfl, hl⟩
  | release | abort => cases hl

/-- The step is `t`'s, which is in the middle of no operation, and only looks. -/
inductive Step.Observes (s : Setup) (m : Machine) (t : ThreadId) : Step → Prop
  | act {g : GuardId} {other : Option Scheme} {a : Action} {kind : GuardKind} {k : Task} (free : m.tasks t = none)
      (kinds : s.kinds g = some kind) (task : kind.task? s.build g other a = some k)
      (looks : a.looks (m.cells g) = true) : Observes s m t (.act t g other (some a))

section Kept

variable {α : Type}

def kept : List Bool → List α → List α
  | [], xs => xs
  | _, [] => []
  | b :: bs, x :: xs => if b then x :: kept bs xs else kept bs xs

@[simp] theorem kept_nil (bs : List Bool) : kept bs ([] : List α) = [] := by
  cases bs <;> rfl

@[simp] theorem kept_all (xs : List α) : kept [] xs = xs := rfl

theorem kept_true (bs : List Bool) (x : α) (xs : List α) : kept (true :: bs) (x :: xs) = x :: kept bs xs := rfl

theorem kept_false (bs : List Bool) (x : α) (xs : List α) : kept (false :: bs) (x :: xs) = kept bs xs := rfl

end Kept

namespace Machine

variable {s : Setup} {cells : GuardId → Cell} {m : Machine} {h : List Event} {t : ThreadId} {k : Task}
  {st : OnceInit.Step} {b : Bool} {bs : List Bool} {steps : List OnceInit.Step}

/-- All that has come of a step is that `t` has locked and unlocked the mutex and has been answered. -/
structure Unseen (m : Machine) (t : ThreadId) (r : Machine × List Event) : Prop where
  same : r.1 = m
  own : ∀ e ∈ r.2, e.actor = some t
  ran : ∃ a, Event.stretches r.2 = [.stretch ⟨t, a, [.locked, .unlocked], []⟩]

theorem AtRest.done (hm : m.AtRest) (hk : m.tasks t = none) : m.done t = m := by
  have hr := hm.running
  rw [Machine.done, ← hk, put_eq_self]
  cases m
  cases hr
  rfl

theorem AtRest.unseen (hm : m.AtRest) (ho : st.Observes s m t) : m.Unseen t (m.step s st) := by
  obtain ⟨free, kinds, task, looks⟩ := ho
  rename_i g other a kind k
  have hb : m.begin s (.act t g other (some a)) = (m.doing t k, [.began t k.op k.guard]) := by
    simp [begin, free, kinds, task, launch, doing]
  have hl : k.point = .locking := by rw [GuardKind.task?_eq task]; rfl
  obtain rfl : k.guard = g := by rw [GuardKind.task?_eq task]; rfl
  rw [step_of_alive hm.alive, hb]
  obtain hi | ⟨ha, hc⟩ := GuardKind.looks_cases task looks
  · rw [hm.drain_inspected hi hl]
    exact ⟨hm.done free, by simp [prepend, Event.actor], _, rfl⟩
  · rw [hm.drain_complete ha hl ((Scheme.phaseOf_eq_complete_iff ..).mpr hc)]
    exact ⟨hm.done free, by simp [prepend, Event.actor], _, rfl⟩

/-- The steps marked `false` observe, each of them either in the state in which the run would come to it or in the one
in which the run would be if none of them were taken. -/
structure Observed (s : Setup) (m : Machine) (bs : List Bool) (steps : List OnceInit.Step) : Prop where
  sound : ∀ st ∈ steps, st.Sound
  observes : ∀ i (st : OnceInit.Step), bs[i]? = some false → steps[i]? = some st →
    ∃ t, st.Observes s (m.run s (steps.take i)) t ∨ st.Observes s (m.run s (kept bs (steps.take i))) t

theorem Observed.head (hs : m.Observed s (false :: bs) (st :: steps)) : ∃ t, st.Observes s m t := by
  obtain ⟨t, ho | ho⟩ := hs.observes 0 st rfl rfl
  · exact ⟨t, ho⟩
  · exact ⟨t, ho⟩

theorem Observed.tail (hs : m.Observed s (b :: bs) (st :: steps)) (hb : b = false → (m.step s st).1 = m) :
    (m.step s st).1.Observed s bs steps where
  sound := fun x hx => hs.sound x (List.mem_cons_of_mem _ hx)
  observes := by
    intro i x hi hx
    obtain ⟨t, ho | ho⟩ := hs.observes (i + 1) x hi hx
    · exact ⟨t, .inl ho⟩
    · refine ⟨t, .inr ?_⟩
      cases b with
      | true => exact ho
      | false =>
        rw [hb rfl]
        exact ho

theorem play_of_ended (hf : m.fate.isSome = true) (steps : List OnceInit.Step) : m.play s steps = [] := by
  cases steps with
  | nil => rfl
  | cons st steps => rw [play, if_pos hf]

theorem run_of_ended (hf : m.fate.isSome = true) (steps : List OnceInit.Step) : m.run s steps = m := by
  induction steps with
  | nil => rfl
  | cons st steps ih =>
    rw [run_cons, step_of_ended hf]
    exact ih

theorem play_of_alive (hf : m.fate = none) (st : OnceInit.Step) (steps : List OnceInit.Step) : m.play s (st :: steps) =
    ⟨(m.step s st).1, Event.stretches (m.step s st).2⟩ :: (m.step s st).1.play s steps := by
  rw [play, if_neg (by simp [hf])]

theorem Reaches.observed (hr : Reaches s Step.Sound (.start cells) m h) (hs : m.settled = true)
    (hd : m.Observed s bs steps) :
    m.play s (kept bs steps) = kept bs (m.play s steps) ∧ m.run s (kept bs steps) = m.run s steps := by
  induction steps generalizing m h bs with
  | nil => simp [play]
  | cons st steps ih =>
    cases hf : m.fate with
    | some f =>
      have hf : m.fate.isSome = true := by rw [hf]; rfl
      simp [play_of_ended hf, run_of_ended hf]
    | none =>
      cases bs with
      | nil => simp
      | cons b bs =>
        have hstep := hr.step hs (hd.sound st (by simp))
        cases b with
        | true =>
          obtain ⟨hp, hn⟩ := ih hstep (settled_step hs st) (hd.tail nofun)
          rw [kept_true, play_of_alive hf, play_of_alive hf, hp, kept_true]
          exact ⟨rfl, hn⟩
        | false =>
          obtain ⟨t, ho⟩ := hd.head
          have same := ((hr.atRest hs hf).unseen ho).same
          obtain ⟨hp, hn⟩ := ih hstep (settled_step hs st) (hd.tail fun _ => same)
          rw [kept_false, play_of_alive hf, kept_false, ← hp, same]
          rw [same] at hn
          exact ⟨rfl, hn.trans (by rw [run_cons, same])⟩

/-- Where no call fails, a step that only looks leaves no trace, whatever the process has been through, and steps that
only look can be put into a run and taken out of it, and nobody else can tell. -/
theorem observers_invisible (hr : Reaches s Step.Sound (.start cells) m h) (hs : m.settled = true) (hf : m.fate = none) :
    (∀ t (st : OnceInit.Step), st.Observes s m t → m.Unseen t (m.step s st)) ∧
    ∀ bs steps, m.Observed s bs steps →
      m.play s (kept bs steps) = kept bs (m.play s steps) ∧ m.run s (kept bs steps) = m.run s steps :=
  ⟨fun _ _ ho => (hr.atRest hs hf).unseen ho, fun _ _ hd => hr.observed hs hd⟩

/-- The system numbers no thread, so that tokens are counted. A thread waits and a cell has been overwritten when
another thread looks at the guard, acquires a complete variable and only then claims one. -/
theorem observers_invisible_counted : ∃ s m h,
    Reaches s Step.Sound (.start fun g => if g = 1 then (Cell.zero .wide).complete else .zero .wide) m h ∧
    m.sleepers = [1] ∧ m.cells 2 = .wide 0 9 0 3 2 0 0 0 ∧ m.tokens.next = 3 ∧ m.tokens.known 2 = none ∧
    m.play s [.act 2 3 none (some .acquire)] = kept [false, false]
      (m.play s [.act 2 0 none (some .phase), .act 2 1 none (some .acquire), .act 2 3 none (some .acquire)]) := by
  let s : Setup := { Setup.plain .owner with systemId := fun _ => 0 }
  have h₀ : Reaches s Step.Sound (.start fun g => if g = 1 then (Cell.zero .wide).complete else .zero .wide) _ [] :=
    .start
  have h₁ := (h₀.begin (.act 0 0 none (some .acquire)) (by decide) (by decide) nofun).turns 9
  have h₂ := (h₁.begin (.act 1 0 none (some .acquire)) (by decide) (by decide) nofun).turns 9
  have h₃ := h₂.begin (.poke 2 (.wide 0 9 0 3 2 0 0 0)) (by decide) (by decide) nofun
  refine ⟨s, _, _, h₃, by decide, by decide, by decide, by decide,
    ((observers_invisible h₃ (by decide) (by decide)).2 [false, false]
      [.act 2 0 none (some .phase), .act 2 1 none (some .acquire), .act 2 3 none (some .acquire)]
      ⟨by simp [Step.Sound], ?observes⟩).1⟩
  rintro (_ | _ | _ | i) st hi hst
  · cases hst
    exact ⟨2, .inr (.act (by decide) rfl rfl (by decide))⟩
  · cases hst
    exact ⟨2, .inr (.act (by decide) rfl rfl (by decide))⟩
  · cases hi
  · cases hi

end Machine
end OnceInit

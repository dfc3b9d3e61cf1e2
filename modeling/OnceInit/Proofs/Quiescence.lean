import OnceInit.Proofs.Mutex

/-! Every step comes to rest. A broadcast may bring back all the threads that sleep, but each operation makes one at
most, and it is the last thing that it does; between two broadcasts the effort that is left goes down with every turn.
So the number of turns is bounded by the number of threads in the middle of an operation, whatever the cells hold,
whoever has the mutex and whichever calls fail. -/

namespace OnceInit.Machine

def potential (m : Machine) : Nat := m.announcers * (15 * m.seats.length + 1) + m.effort

/-- Where a thread is when nothing is left to run. -/
inductive Rests (m : Machine) (t : ThreadId) : Status → Prop
  | idle (free : m.tasks t = none) (away : t ∉ m.seats) (frames : m.frames t = []) : Rests m t .idle
  | inside (free : m.tasks t = none) (away : t ∉ m.seats) (frames : m.frames t ≠ []) : Rests m t .inside
  | waiting {k : Task} (task : m.tasks t = some k) (parked : k.point = .contending ∨ k.point = .waking)
      (asleep : t ∈ m.sleepers) (once : t ∉ m.queue) : Rests m t .waiting
  | blocked {k : Task} (task : m.tasks t = some k) (parked : k.point = .contending ∨ k.point = .waking)
      (queued : t ∈ m.queue) (once : t ∉ m.sleepers) : Rests m t .blocked

variable {s : Setup} {cells : GuardId → Cell} {m : Machine} {h : List Event}
  {t : ThreadId} {k : Task}

theorem seats_advance_le (hr : m.running = some t) (k : Task) (n : Next) :
    (m.advance t k n).seats.length ≤ m.seats.length := by
  have hn : (m.advance t k n).running.toList.length ≤ m.running.toList.length := by
    simp only [advance, hr]
    split <;> simp
  simp only [seats, advance, List.length_append] at hn ⊢
  omega

theorem Played.seats_le {r : Machine × List Event} (hp : Played s m t k r) (hr : m.running = some t) :
    r.1.seats.length ≤ m.seats.length := by
  cases hp with
  | act ha =>
    obtain ⟨h₁, -, -, -, h₅⟩ := ha.frame
    exact h₅.length_eq ▸ seats_advance_le (h₁.trans hr) k _
  | slept =>
    have hu := (seats_unlock (m.spend .wait)).length_eq
    simp only [seats, unlock, spend, hr, List.length_append, Option.toList_some, Option.toList_none, List.length_nil,
      List.length_singleton] at hu ⊢
    omega
  | parked =>
    simp only [seats, park, hr, List.length_append, Option.toList_some, Option.toList_none, List.length_nil,
      List.length_singleton]
    omega

theorem seats_turn_le (s : Setup) (m : Machine) : (m.turn s).1.seats.length ≤ m.seats.length := by
  cases hr : m.running with
  | some t =>
    cases hk : m.tasks t with
    | some k => exact (played_turn hr hk).seats_le hr
    | none => simp [turn, hr, hk, seats]
  | none =>
    cases hq : m.ready with
    | nil => simp [turn, hr, hq]
    | cons t rest => simp [turn, hr, hq, seats]

theorem effort_le (m : Machine) : m.effort ≤ 15 * m.seats.length := by
  have hrank : m.rank ≤ 15 * m.running.toList.length := by
    unfold rank
    split
    · next t hr =>
      cases hk : m.tasks t with
      | none => simp [hr]
      | some k =>
        have hp := k.point.rank_le
        simp [hr]
        omega
    · simp
  simp only [effort, seats, List.length_append]
  omega

theorem announcers_le (m : Machine) : m.announcers ≤ m.seats.length := by
  simp only [announcers, seats, List.length_append]
  have h₁ := List.countP_le_length (p := m.mayAnnounce) (l := m.running.toList)
  have h₂ := List.countP_le_length (p := m.mayAnnounce) (l := m.ready)
  have h₃ := List.countP_le_length (p := m.mayAnnounce) (l := m.queue)
  have h₄ := List.countP_le_length (p := m.mayAnnounce) (l := m.sleepers)
  omega

theorem potential_le (m : Machine) : m.potential ≤ (m.seats.length + 1) * (15 * m.seats.length + 1) := by
  have ha := Nat.mul_le_mul_right (15 * m.seats.length + 1) m.announcers_le
  have he := m.effort_le
  rw [Nat.add_mul, potential]
  omega

theorem potential_turn_lt (hu : m.settled = false) : (m.turn s).1.potential < m.potential := by
  have hn : 15 * (m.turn s).1.seats.length + 1 ≤ 15 * m.seats.length + 1 := by
    have := seats_turn_le s m
    omega
  have he := (m.turn s).1.effort_le
  rcases turn_below (s := s) hu with ha | ⟨ha, hlt⟩
  · -- a broadcast: what the sleepers may have to do again is paid for by its thread
    calc (m.turn s).1.potential
        ≤ (m.turn s).1.announcers * (15 * m.seats.length + 1) + 15 * m.seats.length := by
          exact Nat.add_le_add (Nat.mul_le_mul_left _ hn) (by omega)
      _ < ((m.turn s).1.announcers + 1) * (15 * m.seats.length + 1) := by rw [Nat.add_mul]; omega
      _ ≤ m.announcers * (15 * m.seats.length + 1) := Nat.mul_le_mul_right _ ha
      _ ≤ m.potential := Nat.le_add_right ..
  · exact Nat.add_lt_add_of_le_of_lt (Nat.mul_le_mul ha hn) hlt

theorem settled_turns {n : Nat} (hn : m.potential ≤ n) : (m.turns s n).1.settled = true := by
  induction n generalizing m with
  | zero =>
    by_contra hu
    have hlt : (m.turn s).1.potential < m.potential := potential_turn_lt (Bool.eq_false_iff.mpr hu)
    omega
  | succ n ih =>
    unfold turns
    split
    · next hs => exact hs
    · next hu =>
      have hlt := potential_turn_lt (s := s) (Bool.eq_false_iff.mpr hu)
      exact ih (by omega)

theorem Seated.rests (hs : m.Seated) (hr : m.running = none) (hq : m.ready = []) (t : ThreadId) :
    m.Rests t (m.status t) := by
  have hseats : m.seats = m.queue ++ m.sleepers := by simp [seats, hr, hq]
  have hnd := hs.nodup
  rw [hseats, List.nodup_append] at hnd
  have hdisj : ∀ t, t ∈ m.queue → t ∉ m.sleepers := fun t h₁ h₂ => hnd.2.2 t h₁ t h₂ rfl
  cases hk : m.tasks t with
  | none =>
    have away : t ∉ m.seats := by simp [hs.busy, hk]
    have asleep : t ∉ m.sleepers := fun ha => away (by simp [hseats, ha])
    cases hf : m.frames t with
    | nil =>
      have hst : m.status t = .idle := by simp [status, asleep, hk, depth, hf]
      rw [hst]
      exact .idle hk away hf
    | cons f fs =>
      have hst : m.status t = .inside := by simp [status, asleep, hk, depth, hf]
      rw [hst]
      exact .inside hk away (by simp [hf])
  | some k =>
    have parked := hs.parked t k hk (by simp [hr])
    have hm : t ∈ m.queue ++ m.sleepers := by
      rw [← hseats, hs.busy, hk]
      rfl
    rcases List.mem_append.mp hm with hm | hm
    · have hst : m.status t = .blocked := by simp [status, hdisj t hm, hk]
      rw [hst]
      exact .blocked hk parked hm (hdisj t hm)
    · have hst : m.status t = .waiting := by simp [status, hm]
      rw [hst]
      exact .waiting hk parked hm fun hq => hdisj t hq hm

/-- After any step there are no more turns than the threads in the middle of an operation account for, and then either
the process has ended or every thread is at rest. -/
theorem step_quiesces (hr : Reaches s (fun _ => True) (.start cells) m h) (hs : m.settled = true) (ha : m.fate = none)
    (st : OnceInit.Step) :
    let b := m.begin s st
    ∃ n ≤ (b.1.seats.length + 1) * (15 * b.1.seats.length + 1),
      m.step s st = prepend b.2 (b.1.turns s n) ∧
      ((m.step s st).1.fate ≠ none ∨
        (m.step s st).1.running = none ∧ (m.step s st).1.ready = [] ∧
          ∀ t, (m.step s st).1.Rests t ((m.step s st).1.status t)) := by
  intro b
  have hset := settled_turns (s := s) (Nat.le_refl b.1.potential)
  have hstep : m.step s st = prepend b.2 (b.1.turns s b.1.potential) := step_eq_turns ha hset
  refine ⟨b.1.potential, b.1.potential_le, hstep, ?_⟩
  have hstepped : Reaches s (fun _ => True) (.start cells) (m.step s st).1 _ := hr.step hs trivial
  by_cases hf : (m.step s st).1.fate = none
  · obtain ⟨hrun, hq⟩ := idle_of_settled (settled_step hs st) hf
    exact .inr ⟨hrun, hq, hstepped.seated.rests hrun hq⟩
  · exact .inl hf

/-- The mutex is freed while a release and a waiter that woke for no reason wait for it: the release is made, and the
waiter goes back to sleep. -/
theorem step_quiesces_freed : ∃ m h,
    Reaches (.plain .owner) (fun _ => True) (.start fun _ => .zero .wide) m h ∧ m.owner = some 2 ∧ m.queue = [3, 1] ∧
    (m.step (.plain .owner) .forceUnlock).1.status 3 = .idle ∧
    (m.step (.plain .owner) .forceUnlock).1.status 1 = .waiting ∧
    ∀ t, (m.step (.plain .owner) .forceUnlock).1.Rests t ((m.step (.plain .owner) .forceUnlock).1.status t) := by
  have hr : Reaches (.plain .owner) (fun _ => True) (.start fun _ => .zero .wide) _ [] := .start
  have h₁ := (hr.begin (.act 0 0 none (some .acquire)) (by decide) (by decide) trivial).turns 9
  have h₂ := (h₁.begin (.act 1 0 none (some .acquire)) (by decide) (by decide) trivial).turns 9
  have h₃ := (h₂.begin (.act 3 1 none (some .acquire)) (by decide) (by decide) trivial).turns 9
  have h₄ := h₃.begin (.fault .unlock ⟨22, 0⟩) (by decide) (by decide) trivial
  have h₅ := (h₄.begin (.act 2 2 none (some .acquire)) (by decide) (by decide) trivial).turns 9
  have h₆ := (h₅.begin (.act 3 1 none (some .release)) (by decide) (by decide) trivial).turns 9
  have h₇ := (h₆.begin (.spurious 1) (by decide) (by decide) trivial).turns 9
  refine ⟨_, _, h₇, by decide, by decide, ?_, ?_, ?_⟩
  · rw [step_eq_turns (n := 20) (by decide) (by decide)]
    decide
  · rw [step_eq_turns (n := 20) (by decide) (by decide)]
    decide
  · obtain ⟨n, -, -, hf | ⟨-, -, hrest⟩⟩ := step_quiesces h₇ (by decide) (by decide) .forceUnlock
    · rw [step_eq_turns (n := 20) (by decide) (by decide)] at hf
      exact absurd (by decide) hf
    · exact hrest

end OnceInit.Machine

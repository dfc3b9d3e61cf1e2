import OnceInit.Machine.Turn

/-! Why turns come to an end, whatever the state. A broadcast, which alone wakes sleepers, is the last thing
that its task does. Between broadcasts every turn brings the running thread on or parks it, and an unlock lets
at most one other thread go on. -/

namespace OnceInit

def Point.rank : Point → Nat
  | .locking => 14
  | .contending | .waking => 13
  | .reading => 12
  | .judging _ => 11
  | .claiming _ | .storing => 10
  | .waiting | .leaving _ | .yielding => 9
  | .announcing => 1

theorem Point.rank_pos (p : Point) : 0 < p.rank := by
  cases p <;> simp [rank]

theorem Point.rank_le (p : Point) : p.rank ≤ 14 := by
  cases p <;> simp [rank]

def Next.rank : Next → Nat
  | .go p | .tell _ p => p.rank
  | .finish _ => 0

def Next.after (k : Task) : Next → Option Task
  | .go p | .tell _ p => some { k with point := p }
  | .finish _ => none

def Task.mayAnnounce (k : Task) : Bool := k.op.settles || decide (k.point = .announcing)

namespace Machine

def mayAnnounce (m : Machine) (t : ThreadId) : Bool := (m.tasks t).any Task.mayAnnounce

def announcers (m : Machine) : Nat :=
  m.running.toList.countP m.mayAnnounce + m.ready.countP m.mayAnnounce +
    m.queue.countP m.mayAnnounce + m.sleepers.countP m.mayAnnounce

def rank (m : Machine) : Nat :=
  match m.running with
  | some t => ((m.tasks t).map fun k => k.point.rank).getD 1
  | none => 0

def effort (m : Machine) : Nat := 15 * m.ready.length + 8 * m.queue.length + m.rank

variable (s : Setup) (m : Machine) (t : ThreadId) (k : Task) (n : Next)

theorem proceed_tasks : (m.proceed s t k n).1.tasks = put m.tasks t (n.after k) := by
  cases n with
  | go p => rfl
  | tell n p => rfl
  | finish r =>
    cases r with
    | gives v =>
      simp only [proceed, deliver]
      rfl
    | fails f =>
      simp only [proceed, deliver]
      split <;> rfl

theorem proceed_running : (m.proceed s t k n).1.running = if (n.after k).isSome then m.running else none := by
  cases n with
  | go p => rfl
  | tell n p => rfl
  | finish r =>
    cases r with
    | gives v => rfl
    | fails f =>
      simp only [proceed, deliver]
      split <;> rfl

theorem enter_queues (v : Value) : (m.enter t k v).ready = m.ready ∧
    (m.enter t k v).queue = m.queue ∧ (m.enter t k v).sleepers = m.sleepers :=
  ⟨rfl, rfl, rfl⟩

theorem proceed_queues : (m.proceed s t k n).1.ready = m.ready ∧
    (m.proceed s t k n).1.queue = m.queue ∧ (m.proceed s t k n).1.sleepers = m.sleepers := by
  cases n with
  | go p => exact ⟨rfl, rfl, rfl⟩
  | tell n p => exact ⟨rfl, rfl, rfl⟩
  | finish r =>
    cases r with
    | gives v => exact enter_queues m t k v
    | fails f =>
      simp only [proceed, deliver]
      split <;> exact ⟨rfl, rfl, rfl⟩

theorem announcers_unlock : m.unlock.announcers = m.announcers := by
  have h : m.unlock.mayAnnounce = m.mayAnnounce := rfl
  simp only [announcers, h]
  simp only [unlock]
  cases m.queue with
  | nil => simp
  | cons u us => simp [List.countP_append, List.countP_cons]; omega

theorem announcers_broadcast : (m.broadcast s).announcers = m.announcers := by
  have h : (m.broadcast s).mayAnnounce = m.mayAnnounce := rfl
  simp only [announcers, h]
  simp only [broadcast, Setup.wakeOrder]
  split <;> simp [List.countP_append] <;> omega

theorem countP_put_le (f : ThreadId → Option Task) (a : Option Task)
    (h : a.any Task.mayAnnounce = true → (f t).any Task.mayAnnounce = true) (l : List ThreadId) :
    l.countP (fun u => (put f t a u).any Task.mayAnnounce) ≤
      l.countP (fun u => (f u).any Task.mayAnnounce) := by
  apply List.countP_mono_left
  intro u _ hu
  by_cases e : u = t
  · subst e
    exact h (by simpa using hu)
  · simpa only [put_of_ne _ _ e] using hu

variable {s m t k n}

theorem proceed_announcers (hr : m.running = some t) (hk : m.tasks t = some k)
    (h : (n.after k).any Task.mayAnnounce = true → k.mayAnnounce = true) :
    (m.proceed s t k n).1.announcers + (if n.after k = none ∧ k.mayAnnounce then 1 else 0) ≤
      m.announcers := by
  have hq := proceed_queues s m t k n
  have ht := proceed_tasks s m t k n
  have hm : (m.proceed s t k n).1.mayAnnounce = fun u => (put m.tasks t (n.after k) u).any Task.mayAnnounce := by
    funext u
    simp only [mayAnnounce, ht]
  have hle := countP_put_le t m.tasks (n.after k) (by simpa [hk] using h)
  have h₁ := hle m.ready
  have h₂ := hle m.queue
  have h₃ := hle m.sleepers
  have hb : m.mayAnnounce = fun u => (m.tasks u).any Task.mayAnnounce := rfl
  simp only [announcers, hm, hb, hq.1, hq.2.1, hq.2.2, proceed_running, hr]
  cases hn : n.after k with
  | none =>
    simp only [hn] at h₁ h₂ h₃
    by_cases ha : k.mayAnnounce <;> simp [hk, ha] <;> omega
  | some k' =>
    simp only [hn] at h h₁ h₂ h₃
    by_cases ha : k.mayAnnounce
    · by_cases hb : k'.mayAnnounce <;> simp [hk, ha, hb] <;> omega
    · have hb : ¬ k'.mayAnnounce := fun hb => ha (h (by simpa using hb))
      simp [hk, ha, hb]
      omega

theorem proceed_effort (hr : m.running = some t) :
    (m.proceed s t k n).1.effort = 15 * m.ready.length + 8 * m.queue.length + n.rank := by
  have hq := proceed_queues s m t k n
  have ht := proceed_tasks s m t k n
  simp only [effort, rank, hq.1, hq.2.1, ht, proceed_running, hr]
  cases n <;> simp [Next.after, Next.rank]

def Below (a b : Machine) : Prop :=
  a.announcers < b.announcers ∨ a.announcers ≤ b.announcers ∧ a.effort < b.effort

theorem unlock_lengths (m : Machine) : 15 * m.unlock.ready.length + 8 * m.unlock.queue.length ≤
    15 * m.ready.length + 8 * m.queue.length + 7 := by
  simp only [unlock]
  cases m.queue with
  | nil => simp
  | cons u us => simp; omega

theorem effort_running (hr : m.running = some t) (hk : m.tasks t = some k) :
    m.effort = 15 * m.ready.length + 8 * m.queue.length + k.point.rank := by
  simp [effort, rank, hr, hk]

theorem proceed_below (hr : m.running = some t) (hk : m.tasks t = some k)
    (h : (n.after k).any Task.mayAnnounce = true → k.mayAnnounce = true)
    (hn : n.rank < k.point.rank) : Below (m.proceed s t k n).1 m := by
  have ha := proceed_announcers (s := s) hr hk h
  right
  rw [proceed_effort hr, effort_running hr hk]
  omega

theorem announcers_park (hr : m.running = some t) :
    announcers { m with running := none, queue := m.queue ++ [t] } = m.announcers := by
  have e : mayAnnounce { m with running := none, queue := m.queue ++ [t] } = m.mayAnnounce := rfl
  simp only [announcers, e, hr]
  simp [List.countP_append]
  omega

theorem announcers_sleep (hr : m.running = some t) :
    announcers { m with running := none, sleepers := m.sleepers ++ [t] } = m.announcers := by
  have e : mayAnnounce { m with running := none, sleepers := m.sleepers ++ [t] } = m.mayAnnounce := rfl
  simp only [announcers, e, hr]
  simp [List.countP_append]
  omega

theorem park_below (hr : m.running = some t) (hk : m.tasks t = some k) (h : 8 < k.point.rank) :
    Below { m with running := none, queue := m.queue ++ [t] } m := by
  right
  rw [announcers_park hr, effort_running hr hk]
  simp only [effort, rank, List.length_append, List.length_singleton]
  omega

theorem unlock_below (hr : m.running = some t) (hk : m.tasks t = some k)
    (h : (n.after k).any Task.mayAnnounce = true → k.mayAnnounce = true)
    (hn : n.rank + 7 < k.point.rank) : Below (m.unlock.proceed s t k n).1 m := by
  have ha := proceed_announcers (s := s) (m := m.unlock) hr hk h
  have hl := unlock_lengths m
  right
  rw [proceed_effort (m := m.unlock) hr, effort_running hr hk]
  rw [announcers_unlock] at ha
  omega

theorem broadcast_below (hr : m.running = some t) (hk : m.tasks t = some k)
    (hn : n.after k = none) (h : k.mayAnnounce = true) :
    Below ((m.broadcast s).proceed s t k n).1 m := by
  have ha := proceed_announcers (s := s) (m := m.broadcast s) (n := n) hr hk (by simp [hn])
  left
  rw [announcers_broadcast, if_pos ⟨hn, h⟩] at ha
  omega

theorem sleep_below (p : Point) (hr : m.running = some t) (hk : m.tasks t = some k)
    (hp : p ≠ .announcing) (h : 7 < k.point.rank) :
    Below (m.serve s t k (.go p) .wait).1 m := by
  have ha := proceed_announcers (s := s) (n := .go p) hr hk
    (by simp [Next.after, Task.mayAnnounce, hp]; exact Or.inl)
  have hl := unlock_lengths (m.place t k p)
  have e := announcers_sleep (m := (m.place t k p).unlock) (t := t) hr
  rw [announcers_unlock] at e
  right
  rw [effort_running hr hk]
  constructor
  · exact Nat.le_trans (Nat.le_of_eq e) (Nat.le_trans (Nat.le_add_right _ _) ha)
  · change 15 * (m.place t k p).unlock.ready.length + 8 * (m.place t k p).unlock.queue.length + 0 < _
    change _ ≤ 15 * m.ready.length + 8 * m.queue.length + 7 at hl
    omega

theorem invoke_below (c : Call) (next : Next) (refused : Int → Next)
    (hr : m.running = some t) (hk : m.tasks t = some k)
    (h : ∀ code, ∃ r, refused code = .finish r)
    (hs : Below (serve s (m.spend c) t k next c).1 (m.spend c)) :
    Below (m.invoke s t k c next refused).1 m := by
  unfold invoke
  cases m.refusal c with
  | none => exact hs
  | some code =>
    obtain ⟨r, hf⟩ := h code
    simp only [hf]
    exact proceed_below (m := m.spend c) hr hk (by simp [Next.after]) (Point.rank_pos _)

theorem take_below (woken : Bool) (next : Next) (hr : m.running = some t) (hk : m.tasks t = some k)
    (h : (next.after k).any Task.mayAnnounce = true → k.mayAnnounce = true)
    (hn : next.rank < k.point.rank) (hp : 8 < k.point.rank) :
    Below (m.take s t k woken next).1 m := by
  unfold take
  split
  · exact proceed_below (m := { m with owner := some t }) hr hk h hn
  · exact park_below hr hk hp

theorem mayAnnounce_place {k : Task} {p : Point} (hp : p ≠ .announcing)
    (h : ({ k with point := p } : Task).mayAnnounce = true) : k.mayAnnounce = true := by
  simp only [Task.mayAnnounce, hp, decide_false, Bool.or_false] at h
  simp [Task.mayAnnounce, h]

theorem entered_rank (k : Task) : k.entered.rank < 13 ∧
    ((k.entered.after k).any Task.mayAnnounce = true → k.mayAnnounce = true) := by
  unfold Task.entered
  split
  · exact ⟨by decide, mayAnnounce_place (by simp)⟩
  · exact ⟨by decide, mayAnnounce_place (by simp)⟩

theorem seen_rank (k : Task) (c : Cell) : (k.seen c).rank < 12 ∧
    (((k.seen c).after k).any Task.mayAnnounce = true → k.mayAnnounce = true) := by
  unfold Task.seen
  split
  · exact ⟨by simp [Next.rank, Point.rank], mayAnnounce_place (by simp)⟩
  · split
    · exact ⟨by simp [Next.rank, Point.rank], mayAnnounce_place (by simp)⟩
    · exact ⟨by simp [Next.rank, Point.rank], mayAnnounce_place (by simp)⟩

theorem judge_rank (k : Task) (c : Cell) (me : Token) : (k.judge c me).rank < 11 ∧
    (((k.judge c me).after k).any Task.mayAnnounce = true → k.mayAnnounce = true) := by
  unfold Task.judge
  split
  · exact ⟨by simp [Next.rank, Point.rank], mayAnnounce_place (by simp)⟩
  · exact ⟨by simp [Next.rank, Point.rank], mayAnnounce_place (by simp)⟩
  · split
    · exact ⟨by simp [Next.rank, Point.rank], mayAnnounce_place (by simp)⟩
    · exact ⟨by simp [Next.rank, Point.rank], mayAnnounce_place (by simp)⟩

theorem fail_finish (k : Task) (c : Call) (code : Int) : ∃ r, k.fail c code = .finish r := ⟨_, rfl⟩

theorem perform_below (hr : m.running = some t) (hk : m.tasks t = some k) :
    Below (m.perform s t k).1 m := by
  unfold perform Task.node
  cases hp : k.point with
  | locking =>
    exact invoke_below _ _ _ hr hk (fail_finish k _)
      (proceed_below (m := m.spend _) hr hk (mayAnnounce_place (by simp))
        (by simp [hp, Next.rank, Point.rank]))
  | contending =>
    have h := entered_rank k
    exact take_below _ _ hr hk h.2 (by simpa [hp, Point.rank] using h.1) (by simp [hp, Point.rank])
  | reading =>
    have h := seen_rank k (m.cells k.guard)
    exact proceed_below hr hk h.2 (by simpa [hp, Point.rank] using h.1)
  | judging c =>
    have h := judge_rank k c (m.token s t)
    exact proceed_below (m := m.register s t) hr hk h.2
      (by simpa [hp, Point.rank] using h.1)
  | claiming me =>
    exact proceed_below (m := m.poke k.guard _) hr hk (mayAnnounce_place (by simp))
      (by simp [hp, Next.rank, Point.rank])
  | storing =>
    exact proceed_below (m := m.poke k.guard _) hr hk (mayAnnounce_place (by simp))
      (by simp [hp, Next.rank, Point.rank])
  | waiting =>
    exact invoke_below _ _ _ hr hk (fail_finish k _)
      (sleep_below (m := m.spend _) .waking hr hk (by simp) (by simp [hp, Point.rank]))
  | waking =>
    have h := entered_rank k
    exact take_below _ _ hr hk h.2 (by simpa [hp, Point.rank] using h.1) (by simp [hp, Point.rank])
  | leaving v =>
    refine invoke_below _ _ _ hr hk (fail_finish k _) ?_
    by_cases hs : k.op.settles = true
    · simp only [hs, if_true]
      exact unlock_below (m := m.spend _) hr hk (fun _ => by simp [Task.mayAnnounce, hs])
        (by simp [hp, Next.rank, Point.rank])
    · simp only [hs]
      exact unlock_below (m := m.spend _) hr hk (by simp [Next.after]) (by simp [hp, Next.rank, Point.rank])
  | yielding =>
    exact invoke_below _ _ _ hr hk (fun _ => ⟨_, rfl⟩)
      (unlock_below (m := m.spend _) hr hk (by simp [Next.after, Task.deadlock])
        (by simp [hp, Next.rank, Point.rank, Task.deadlock]))
  | announcing =>
    exact invoke_below _ _ _ hr hk (fail_finish k _)
      (broadcast_below (m := m.spend _) hr hk rfl (by simp [Task.mayAnnounce, hp]))

theorem resume_below {rest : List ThreadId} (hr : m.running = none) (hq : m.ready = t :: rest) :
    Below { m with running := some t, ready := rest } m := by
  have e₁ : announcers { m with running := some t, ready := rest } =
      [t].countP m.mayAnnounce + rest.countP m.mayAnnounce + m.queue.countP m.mayAnnounce +
        m.sleepers.countP m.mayAnnounce := rfl
  have e₂ : effort { m with running := some t, ready := rest } =
      15 * rest.length + 8 * m.queue.length + ((m.tasks t).map fun k => k.point.rank).getD 1 := rfl
  have hp : ((m.tasks t).map fun k => k.point.rank).getD 1 ≤ 14 := by
    cases m.tasks t with
    | none => simp
    | some k => exact k.point.rank_le
  right
  rw [e₁, e₂, announcers, effort, rank, hr, hq]
  simp only [List.countP_cons, List.length_cons, Option.toList, List.countP_nil]
  omega

theorem stop_below (hr : m.running = some t) (hk : m.tasks t = none) :
    Below { m with running := none } m := by
  have e₁ : announcers { m with running := none } = 0 + m.ready.countP m.mayAnnounce +
      m.queue.countP m.mayAnnounce + m.sleepers.countP m.mayAnnounce := rfl
  have e₂ : effort { m with running := none } = 15 * m.ready.length + 8 * m.queue.length + 0 := rfl
  right
  rw [e₁, e₂, announcers, effort, rank, hr]
  simp only [hk, Option.map_none, Option.getD_none]
  omega

theorem turn_below (h : m.settled = false) : Below (m.turn s).1 m := by
  cases hr : m.running with
  | some t =>
    cases hk : m.tasks t with
    | some k =>
      simp only [turn, hr, hk]
      exact perform_below hr hk
    | none =>
      simp only [turn, hr, hk]
      exact stop_below hr hk
  | none =>
    cases hq : m.ready with
    | cons t rest =>
      simp only [turn, hr, hq]
      exact resume_below hr hq
    | nil => simp [settled, hr, hq] at h

end Machine
end OnceInit

import OnceInit.Proofs.Orderly

/-! What a lock that remembers a panic tells its users. A panic with the mutex in hand is news to everybody who gets the
mutex later, for ever. A waiter is told of it if it happened while the waiter slept: what matters is the time of its
first wake-up, also when the driving thread keeps the mutex from it then. -/

namespace OnceInit.PoisonLock

/-- A broadcast, or a join that finds no waiter who has come back. -/
def Entry.Rouses (e : Entry) : Prop :=
  e.step = .broadcast ∨ e.step = .joinWaiter ∧ e.lock.kept = false ∧ ∀ f, .finished f ∉ e.lock.waiters

theorem any_isFinished_iff {ws : List Waiter} : ws.any Waiter.isFinished = true ↔ ∃ f, .finished f ∈ ws := by
  rw [List.any_eq_true]
  constructor
  · rintro ⟨w, hw, hf⟩
    cases w with
    | asleep | woken => cases hf
    | finished f => exact ⟨f, hw⟩
  · rintro ⟨f, hw⟩
    exact ⟨_, hw, rfl⟩

theorem Entry.rouses_iff {e : Entry} : e.rouses = true ↔ e.Rouses := by
  rcases e with ⟨l, st, r⟩
  have hn : (!l.waiters.any Waiter.isFinished) = true ↔ ∀ f, .finished f ∉ l.waiters := by
    rw [Bool.not_eq_true', ← Bool.not_eq_true, any_isFinished_iff, not_exists]
  cases st <;> simp [rouses, PoisonLock.rouses, Rouses, ← hn]

def UntilWoken (b u : List Entry) : Prop := ∃ e v, b = u ++ e :: v ∧ e.Rouses ∧ ∀ x ∈ u, ¬ x.Rouses

def Told (b : List Entry) : Waiter → Prop
  | .asleep => ∀ x ∈ b, x.rouses = false
  | .woken => ∃ u, UntilWoken b u ∧ poisonedBy b = poisonedBy u
  | .finished f => ∃ u, UntilWoken b u ∧ f = if poisonedBy u then some waitCause else none

/-- The `n`-th waiter started just before `b`, on a lock that was not poisoned. -/
def StartedBefore (h : List Entry) (n : Nat) (b : List Entry) : Prop :=
  ∃ a e, h = a ++ e :: b ∧ e.starts = true ∧ started a = n ∧ poisonedBy a = false

/-- What comes of a step after `h` has happened. -/
structure Entry.Answers (h : List Entry) (e : Entry) : Prop where
  skipped : e.result = .skipped ↔ (e.step.visits = true ∨ e.step = .joinWaiter) ∧ Kept h ∨
    e.step.frees = true ∧ ¬ Kept h ∨ e.step = .joinWaiter ∧ started h = joined h
  visited : e.step.visits = true → e.result ≠ .skipped →
    ((∃ c, e.result = .failed c) ↔ ∃ x ∈ h, x.step = .panicHeld ∧ x.result = .panicked)
  cause : e.step.visits = true → ∀ c, e.result = .failed c → c = ⟨"Mutex::lock", none⟩
  joined : e.step = .joinWaiter → e.result ≠ .skipped → ∃ a s b u, h = a ++ s :: b ∧
    (s.step = .startWaiter ∧ s.result = .ok ∧ started a = joined h) ∧ UntilWoken (b ++ [e]) u ∧
    ((∃ x ∈ u, x.step = .panicHeld ∧ x.result = .panicked) → e.result = .failed ⟨"Condvar::wait", none⟩) ∧
    ((¬ ∃ x ∈ u, x.step = .panicHeld ∧ x.result = .panicked) → e.result = .ok)
  freed : e.step.frees = true → Kept h → e.result = .ok
  announced : e.step = .broadcast → e.result = .ok

variable {l l' : PoisonLock} {h a b u : List Entry} {st : Step} {r : Result} {e : Entry} {w : Waiter} {n : Nat}

theorem poisonedBy_concat : poisonedBy (h ++ [e]) = (poisonedBy h || e.panics) := by
  simp [poisonedBy]

theorem poisonedBy_iff : poisonedBy h = true ↔ ∃ x ∈ h, x.step = .panicHeld ∧ x.result = .panicked := by
  simp [poisonedBy, Entry.panics]

theorem not_panics_of_rouses (he : e.rouses = true) : e.panics = false := by
  rcases e with ⟨l, st, r⟩
  cases st <;> first | rfl | cases he

theorem not_panics_of_starts (he : e.starts = true) : e.panics = false := by
  simp only [Entry.starts, decide_eq_true_eq] at he
  simp [Entry.panics, he.1]

theorem UntilWoken.concat (hu : UntilWoken b u) (e : Entry) : UntilWoken (b ++ [e]) u := by
  obtain ⟨x, v, rfl, hx, hn⟩ := hu
  exact ⟨x, v ++ [e], by simp, hx, hn⟩

theorem untilWoken_of_rouses (hb : ∀ x ∈ b, x.rouses = false) (he : e.rouses = true) : UntilWoken (b ++ [e]) b :=
  ⟨e, [], rfl, Entry.rouses_iff.mp he, fun x hx => by simp [← Entry.rouses_iff, hb x hx]⟩

theorem Told.still (hw : Told b w) (he : e.rouses = false) (hp : w = .woken → e.panics = false) :
    Told (b ++ [e]) w := by
  cases w with
  | asleep =>
    intro x hx
    rcases List.mem_append.mp hx with hx | hx
    · exact hw x hx
    · rw [List.mem_singleton.mp hx]
      exact he
  | woken =>
    obtain ⟨u, hu, hb⟩ := hw
    exact ⟨u, hu.concat e, by rw [poisonedBy_concat, hp rfl, Bool.or_false, hb]⟩
  | finished f =>
    obtain ⟨u, hu, hf⟩ := hw
    exact ⟨u, hu.concat e, hf⟩

theorem Told.wake (hw : Told b w) (he : e.rouses = true) : Told (b ++ [e]) w.wake := by
  have hp := not_panics_of_rouses he
  cases w with
  | asleep => exact ⟨b, untilWoken_of_rouses hw he, by rw [poisonedBy_concat, hp, Bool.or_false]⟩
  | woken =>
    obtain ⟨u, hu, hb⟩ := hw
    exact ⟨u, hu.concat e, by rw [poisonedBy_concat, hp, Bool.or_false, hb]⟩
  | finished f =>
    obtain ⟨u, hu, hf⟩ := hw
    exact ⟨u, hu.concat e, hf⟩

theorem Told.rose (hw : Told b w) (hp : l.poisoned = poisonedBy b) : Told b (l.rose w) := by
  cases w with
  | asleep | finished => exact hw
  | woken =>
    rw [PoisonLock.rose]
    split
    · exact hw
    · obtain ⟨u, hu, hb⟩ := hw
      exact ⟨u, hu, by rw [hp, hb]⟩

theorem StartedBefore.concat (hs : StartedBefore h n b) (e : Entry) : StartedBefore (h ++ [e]) n (b ++ [e]) := by
  obtain ⟨a, x, rfl, hx, hn, ha⟩ := hs
  exact ⟨a, x, by simp, hx, hn, ha⟩

theorem StartedBefore.of_concat (hs : StartedBefore (h ++ [e]) n b) (he : e.starts = false) :
    ∃ c, b = c ++ [e] ∧ StartedBefore h n c := by
  obtain ⟨a, x, heq, hx, hn, ha⟩ := hs
  rcases List.eq_nil_or_concat b with rfl | ⟨c, y, rfl⟩
  · obtain ⟨-, hxe⟩ := List.append_inj' heq rfl
    cases hxe
    cases he.symm.trans hx
  · rw [List.concat_eq_append, ← List.cons_append, ← List.append_assoc] at heq
    obtain ⟨rfl, hye⟩ := List.append_inj' heq rfl
    cases hye
    exact ⟨c, List.concat_eq_append, a, x, rfl, hx, hn, ha⟩

theorem StartedBefore.poisonedBy (hs : StartedBefore h n b) : poisonedBy h = poisonedBy b := by
  obtain ⟨a, x, rfl, hx, -, ha⟩ := hs
  simp only [PoisonLock.poisonedBy, List.any_append, List.any_cons] at ha ⊢
  rw [ha, not_panics_of_starts hx]
  rfl

theorem Records.poisoned_eq (hr : Records h l) : l.poisoned = poisonedBy h := by
  induction hr with
  | fresh => rfl
  | @step h l l' st r hr taken ih =>
    rw [poisonedBy_concat, ← ih]
    cases (hr.orderly.ends taken).1 with
    | skipped | refused | locked | started | announced => simp [Entry.panics, settle_eq, wakeAll]
    | panicked => simp [Entry.panics]
    | freed frees => simp [Entry.panics, settle_eq]
    | @joined f => cases f <;> simp [Entry.panics]

def Watched (h : List Entry) (n : Nat) (ws : List Waiter) : Prop :=
  ∀ i w, ws[i]? = some w → ∃ b, StartedBefore h (n + i) b ∧ Told b w

variable {ws vs : List Waiter}

theorem Watched.still (hw : Watched h n ws) (he : e.rouses = false) (hp : .woken ∈ ws → e.panics = false) :
    Watched (h ++ [e]) n ws := by
  intro i w hi
  obtain ⟨b, hs, ht⟩ := hw i w hi
  exact ⟨b ++ [e], hs.concat e, ht.still he fun hx => hp (hx ▸ List.mem_of_getElem? hi)⟩

theorem Watched.wake (hw : Watched h n ws) (he : e.rouses = true) : Watched (h ++ [e]) n (ws.map Waiter.wake) := by
  intro i w hi
  obtain ⟨v, hv, rfl⟩ := Option.map_eq_some_iff.mp (List.getElem?_map .. ▸ hi)
  obtain ⟨b, hs, ht⟩ := hw i v hv
  exact ⟨b ++ [e], hs.concat e, ht.wake he⟩

theorem Watched.rose (hw : Watched h n ws) (hp : l.poisoned = poisonedBy h) : Watched h n (ws.map l.rose) := by
  intro i w hi
  obtain ⟨v, hv, rfl⟩ := Option.map_eq_some_iff.mp (List.getElem?_map .. ▸ hi)
  obtain ⟨b, hs, ht⟩ := hw i v hv
  exact ⟨b, hs, ht.rose (hp.trans hs.poisonedBy)⟩

theorem Watched.roused (hw : Watched h n l.waiters) (hl : l.poisoned = poisonedBy h)
    (hp : Entry.panics ⟨l, st, r⟩ = false) : Watched (h ++ [⟨l, st, r⟩]) n (l.waiters.map (l.roused st)) := by
  have hl : l.poisoned = poisonedBy (h ++ [⟨l, st, r⟩]) := by rw [poisonedBy_concat, hp, Bool.or_false, hl]
  unfold PoisonLock.roused
  split
  · next hr =>
    have ha := (hw.wake (e := ⟨l, st, r⟩) hr).rose hl
    rwa [List.map_map] at ha
  · next hr => exact (hw.still (by simpa [Entry.rouses] using hr) fun _ => hp).rose hl

theorem Watched.joining {f : Option Cause} (hw : Watched h n l.waiters) (hl : l.poisoned = poisonedBy h)
    (back : (l.rouse .joinWaiter).settle.waiters = w :: ws) :
    Watched (h ++ [⟨l, .joinWaiter, .ofFailure f⟩]) n (w :: ws) := by
  rw [← back, waiters_roused]
  exact hw.roused hl rfl

theorem Watched.tail (hw : Watched h n (w :: ws)) : Watched h (n + 1) ws := by
  intro i v hi
  obtain ⟨b, hs, ht⟩ := hw (i + 1) v hi
  exact ⟨b, by rwa [Nat.add_right_comm, Nat.add_assoc], ht⟩

theorem Watched.concat (hw : Watched h n ws) (he : e.starts = true) (hn : started h = n + ws.length)
    (hp : poisonedBy h = false) : Watched (h ++ [e]) n (ws ++ [.asleep]) := by
  have hr : e.rouses = false := by
    simp only [Entry.starts, decide_eq_true_eq] at he
    simp [Entry.rouses, he.1, rouses]
  intro i w hi
  rcases Nat.lt_or_ge i ws.length with hlt | hge
  · rw [List.getElem?_append_left hlt] at hi
    exact hw.still hr (fun _ => not_panics_of_starts he) i w hi
  · rw [List.getElem?_append_right hge] at hi
    obtain ⟨hz, rfl⟩ : i - ws.length = 0 ∧ Waiter.asleep = w := by
      cases hx : i - ws.length with
      | zero => simpa [hx] using hi
      | succ j => simp [hx] at hi
    exact ⟨[], ⟨h, e, rfl, he, by omega, hp⟩, List.forall_mem_nil _⟩

theorem joined_concat (h : List Entry) (e : Entry) : joined (h ++ [e]) = joined h + e.joins.toNat := by
  rw [joined, List.countP_append, List.countP_singleton, joined]
  cases e.joins <;> rfl

theorem rouses_of_visits (hv : st.visits = true) : l.rouses st = false := by
  cases st <;> first | rfl | cases hv

theorem rouses_of_frees (hv : st.frees = true) : l.rouses st = false := by
  cases st <;> first | rfl | cases hv

theorem joins_of_ne (hj : e.step ≠ .joinWaiter) : e.joins = false := by
  simp [Entry.joins, hj]

theorem Records.watched (hr : Records h l) : Watched h (joined h) l.waiters := by
  induction hr with
  | fresh => intro i w hi; simp [PoisonLock.fresh] at hi
  | @step h l l' st r hr taken ih =>
    have hl := hr.orderly
    have hb := hr.poisoned_eq
    rw [joined_concat]
    cases (hl.ends taken).1 with
    | skipped why =>
      have hj : Entry.joins ⟨l, st, .skipped⟩ = false := by simp [Entry.joins]
      have hp : Entry.panics ⟨l, st, .skipped⟩ = false := by simp [Entry.panics]
      rw [hj]
      rcases why with ⟨hv | rfl, hk⟩ | ⟨hf, -⟩ | ⟨rfl, hn⟩
      · exact ih.still (rouses_of_visits hv) fun _ => hp
      · exact ih.still (by simp [Entry.rouses, rouses, hk]) fun _ => hp
      · exact ih.still (rouses_of_frees hf) fun _ => hp
      · rw [hn]
        intro i w hi
        simp at hi
    | refused visits =>
      rw [joins_of_ne (by rintro rfl; cases visits)]
      exact ih.still (rouses_of_visits visits) fun _ => by simp [Entry.panics]
    | locked =>
      rw [joins_of_ne (by simp)]
      exact ih.still rfl fun _ => rfl
    | panicked free =>
      rw [joins_of_ne (by simp)]
      refine ih.still rfl fun hw => ?_
      cases (hl.kept.trans free).symm.trans (hl.woken _ hw rfl)
    | started free sound =>
      rw [joins_of_ne (by simp)]
      exact ih.concat rfl hr.started_eq (hb ▸ sound)
    | freed frees =>
      rw [joins_of_ne (by rintro rfl; cases frees), settle_eq]
      have hp : Entry.panics ⟨l, st, .ok⟩ = false := by simp [Entry.panics]
      refine (ih.still (rouses_of_frees frees) fun _ => hp).rose ?_
      rw [poisonedBy_concat, hp, Bool.or_false]
      exact hb
    | announced =>
      rw [joins_of_ne (by simp)]
      have hw : Watched (h ++ [⟨l, .broadcast, .ok⟩]) (joined h) (l.waiters.map (l.roused .broadcast)) :=
        ih.roused hb rfl
      rwa [← waiters_roused] at hw
    | @joined f ws free back =>
      have hj : Entry.joins ⟨l, .joinWaiter, .ofFailure f⟩ = true := by cases f <;> rfl
      rw [hj]
      exact (ih.joining hb back).tail

theorem Records.skipped_iff (hr : Records h l) (taken : l.step st = some (l', r)) :
    r = .skipped ↔ (st.visits = true ∨ st = .joinWaiter) ∧ Kept h ∨ st.frees = true ∧ ¬ Kept h ∨
      st = .joinWaiter ∧ started h = joined h := by
  have hz : started h = joined h ↔ l.waiters = [] := by
    rw [hr.started_eq, Nat.add_eq_left, List.length_eq_zero_iff]
  rw [← hr.kept_iff, hz]
  cases (hr.orderly.ends taken).1 with
  | skipped why => simpa using why
  | refused visits free => simp [Step.visits_cases visits, free]
  | locked free | panicked free | started free => simp [free, Step.frees]
  | freed frees kept => simp [Step.frees_cases frees, kept]
  | announced => simp [Step.visits, Step.frees]
  | @joined f ws free back =>
    have hn : l.waiters ≠ [] := by
      rintro hn
      have hlen := length_of_back back
      simp [hn] at hlen
    cases f <;> simp [Result.ofFailure, free, hn, Step.frees]

theorem Records.visited_iff (hr : Records h l) (taken : l.step st = some (l', r)) (hv : st.visits = true)
    (hs : r ≠ .skipped) : ((∃ c, r = .failed c) ↔ poisonedBy h = true) ∧ ∀ c, r = .failed c → c = lockCause := by
  rw [← hr.poisoned_eq]
  cases (hr.orderly.ends taken).1 with
  | skipped => exact absurd rfl hs
  | refused _ _ poisoned => simp [poisoned]
  | locked _ sound | panicked _ sound | started _ sound => simp [sound]
  | freed frees => simp [Step.frees_cases frees] at hv
  | announced | joined => cases hv

theorem Records.joined_cases (hr : Records h l) (taken : l.step .joinWaiter = some (l', r)) (hs : r ≠ .skipped) :
    ∃ b u, StartedBefore h (joined h) b ∧ UntilWoken (b ++ [⟨l, .joinWaiter, r⟩]) u ∧
      r = .ofFailure (if poisonedBy u then some waitCause else none) := by
  cases (hr.orderly.ends taken).1 with
  | skipped => exact absurd rfl hs
  | refused visits => cases visits
  | freed frees => cases frees
  | @joined f ws free back =>
    obtain ⟨b', hb', u, hu, rfl⟩ := hr.watched.joining (f := f) hr.poisoned_eq back 0 (.finished f) rfl
    obtain ⟨b, rfl, hb⟩ := hb'.of_concat rfl
    exact ⟨b, u, hb, hu, rfl⟩

theorem Records.answers (hr : Records h l) (taken : l.step st = some (l', r)) : Entry.Answers h ⟨l, st, r⟩ where
  skipped := hr.skipped_iff taken
  visited := fun hv hs => (hr.visited_iff taken hv hs).1.trans poisonedBy_iff
  cause := fun hv c hc => (hr.visited_iff taken hv (by simp [show r = _ from hc])).2 c hc
  joined := by
    rintro rfl hs
    obtain ⟨b, u, ⟨a, x, hh, hx, hn, -⟩, hu, rfl⟩ := hr.joined_cases taken hs
    have hx : x.step = .startWaiter ∧ x.result = .ok := by simpa [Entry.starts] using hx
    refine ⟨a, x, b, u, hh, ⟨hx.1, hx.2, hn⟩, hu, ?_⟩
    rw [← poisonedBy_iff]
    cases poisonedBy u with
    | true => simp [Result.ofFailure, waitCause]
    | false => simp [Result.ofFailure]
  freed := by
    intro hf hk
    have hs : r ≠ .skipped := by
      rw [Ne, hr.skipped_iff taken]
      simp [Step.frees_cases hf, hk]
    cases (hr.orderly.ends taken).1 with
    | skipped => exact absurd rfl hs
    | refused visits => simp [Step.frees_cases hf] at visits
    | freed => rfl
    | locked | panicked | started | announced | joined => cases hf
  announced := by
    rintro rfl
    cases (hr.orderly.ends taken).1 with
    | skipped why => simp [Step.visits, Step.frees] at why
    | refused visits => cases visits
    | freed frees => cases frees
    | announced => rfl

/-- Whatever is done to a new lock, in whatever order. -/
theorem poisoning_exact {steps : List Step} {a b : List Entry} {e : Entry} (hs : fresh.play steps = a ++ e :: b) :
    e.Answers a := by
  obtain ⟨hr, l', taken⟩ := Records.fresh.split hs
  exact hr.answers taken

/-- Two waiters start and are joined after a panic, but the first has been woken before it. -/
theorem poisoning_exact_slept : ∃ a e b x,
    fresh.play [.startWaiter, .broadcast, .startWaiter, .panicHeld, .joinWaiter, .joinWaiter, .lock] =
      a ++ x :: e :: b ∧
    x.step = .joinWaiter ∧ x.result = .ok ∧ e.step = .joinWaiter ∧ e.result = .failed waitCause ∧
    e.Answers (a ++ [x]) := by
  let h := fresh.play [.startWaiter, .broadcast, .startWaiter, .panicHeld, .joinWaiter, .joinWaiter, .lock]
  have hs : h = h.take 5 ++ h[5] :: h.drop 6 := by decide
  exact ⟨h.take 4, h[5], h.drop 6, h[4], by decide, by decide, by decide, by decide, by decide,
    poisoning_exact (a := h.take 5) hs⟩

end OnceInit.PoisonLock

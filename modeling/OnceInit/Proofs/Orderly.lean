import OnceInit.PoisonLock
import Mathlib.Data.List.Induction

/-! Who has the mutex of a lock that remembers a panic. Between steps nobody has it but the driving thread, and a
woken waiter comes back at once unless the driving thread keeps the mutex from it. So whoever asks for the mutex in a
step gets it, and every step ends. -/

namespace OnceInit.PoisonLock

def Step.visits : Step → Bool
  | lock | panicHeld | startWaiter => true
  | _ => false

def Step.frees : Step → Bool
  | unlock | drop => true
  | _ => false

theorem Step.visits_cases {st : Step} (hv : st.visits = true) :
    st.frees = false ∧ st ≠ .joinWaiter ∧ st ≠ .broadcast := by
  cases st <;> simp_all [Step.visits, Step.frees]

theorem Step.frees_cases {st : Step} (hf : st.frees = true) :
    st.visits = false ∧ st ≠ .joinWaiter ∧ st ≠ .broadcast := by
  cases st <;> simp_all [Step.visits, Step.frees]

namespace Entry

def keeps (e : Entry) : Bool := e.step = .lock ∧ e.result = .ok

def panics (e : Entry) : Bool := e.step = .panicHeld ∧ e.result = .panicked

def starts (e : Entry) : Bool := e.step = .startWaiter ∧ e.result = .ok

def joins (e : Entry) : Bool := e.step = .joinWaiter ∧ e.result ≠ .skipped

def rouses (e : Entry) : Bool := e.lock.rouses e.step

end Entry

def Kept (h : List Entry) : Prop := ∃ a e b, h = a ++ e :: b ∧ e.keeps = true ∧ ∀ x ∈ b, x.step.frees = false

def poisonedBy (h : List Entry) : Bool := h.any Entry.panics

def started (h : List Entry) : Nat := h.countP Entry.starts

def joined (h : List Entry) : Nat := h.countP Entry.joins

theorem kept_concat {h : List Entry} {e : Entry} :
    Kept (h ++ [e]) ↔ e.keeps = true ∨ Kept h ∧ e.step.frees = false := by
  constructor
  · rintro ⟨a, x, b, hs, hx, hb⟩
    rcases List.eq_nil_or_concat b with rfl | ⟨b, y, rfl⟩
    · obtain ⟨-, he⟩ := List.append_inj' hs rfl
      cases he
      exact .inl hx
    · rw [List.concat_eq_append, ← List.cons_append, ← List.append_assoc] at hs
      obtain ⟨rfl, he⟩ := List.append_inj' hs rfl
      cases he
      exact .inr ⟨⟨a, x, b, rfl, hx, fun z hz => hb z (by simp [hz])⟩, hb e (by simp)⟩
  · rintro (he | ⟨⟨a, x, b, rfl, hx, hb⟩, he⟩)
    · exact ⟨h, e, [], rfl, he, by simp⟩
    · refine ⟨a, x, b ++ [e], by simp, hx, fun z hz => ?_⟩
      rcases List.mem_append.mp hz with hz | hz
      · exact hb z hz
      · rw [List.mem_singleton.mp hz]
        exact he

variable {l l' : PoisonLock} {h : List Entry} {st : Step} {r : Result}

def rose (l : PoisonLock) : Waiter → Waiter
  | .woken => if l.locked then .woken else .finished (if l.poisoned then some waitCause else none)
  | w => w

theorem rise_eq (l : PoisonLock) (w : Waiter) : l.rise w = (l, l.rose w) := by
  rcases l with ⟨locked, poisoned, kept, ws⟩
  cases w with
  | asleep | finished => rfl
  | woken => cases locked <;> cases poisoned <;> rfl

theorem riseAll_eq (l : PoisonLock) (ws : List Waiter) : l.riseAll ws = (l, ws.map l.rose) := by
  induction ws with
  | nil => rfl
  | cons w ws ih => simp only [riseAll, rise_eq, ih, List.map_cons]

theorem settle_eq (l : PoisonLock) : l.settle = { l with waiters := l.waiters.map l.rose } := by
  rw [settle, riseAll_eq]

/-- Nobody has the mutex but the driving thread, and without the mutex in its way no waiter is held up. Waiters come
back in the order in which they started. -/
structure Orderly (l : PoisonLock) : Prop where
  kept : l.locked = l.kept
  woken : ∀ w ∈ l.waiters, w = .woken → l.locked = true
  ordered : l.waiters.Pairwise fun v w => v = .asleep → w = .asleep

theorem orderly_fresh : fresh.Orderly := ⟨rfl, by simp [fresh], .nil⟩

theorem Orderly.rose_eq (hl : l.Orderly) {w : Waiter} (hw : w ∈ l.waiters) : l.rose w = w := by
  cases w with
  | asleep | finished => rfl
  | woken => rw [rose, if_pos (hl.woken _ hw rfl)]

theorem Orderly.settle_eq_self (hl : l.Orderly) : l.settle = l := by
  rw [settle_eq, List.map_congr_left fun w => hl.rose_eq, List.map_id']

theorem rose_eq_asleep_iff {w : Waiter} : l.rose w = .asleep ↔ w = .asleep := by
  cases w with
  | asleep | finished => rfl
  | woken => rw [rose]; split <;> simp

theorem rose_ne_woken (hl : l.locked = false) (w : Waiter) : l.rose w ≠ .woken := by
  cases w <;> simp [rose, hl]

theorem wake_ne_asleep (w : Waiter) : w.wake ≠ .asleep := by
  cases w <;> simp [Waiter.wake]

theorem orderly_settle (hk : l.locked = l.kept) (ho : l.waiters.Pairwise fun v w => v = .asleep → w = .asleep) :
    l.settle.Orderly := by
  rw [settle_eq]
  refine ⟨hk, fun w hw he => ?_, ?_⟩
  · obtain ⟨v, -, rfl⟩ := List.mem_map.mp hw
    by_contra hn
    exact rose_ne_woken (by simpa using hn) v he
  · refine List.pairwise_map.mpr (ho.imp fun hvw => ?_)
    rwa [rose_eq_asleep_iff, rose_eq_asleep_iff]

theorem Orderly.rouse (hl : l.Orderly) (st : Step) : (l.rouse st).locked = (l.rouse st).kept ∧
    (l.rouse st).waiters.Pairwise fun v w => v = .asleep → w = .asleep := by
  unfold PoisonLock.rouse
  split
  · exact ⟨hl.kept, List.pairwise_map.mpr (hl.ordered.imp fun _ hv => absurd hv (wake_ne_asleep _))⟩
  · exact ⟨hl.kept, hl.ordered⟩

inductive Ends (l : PoisonLock) : Step → PoisonLock → Result → Prop
  | skipped {st : Step} (why : (st.visits = true ∨ st = .joinWaiter) ∧ l.kept = true ∨
      st.frees = true ∧ l.kept = false ∨ st = .joinWaiter ∧ l.waiters = []) : Ends l st l .skipped
  | refused {st : Step} (visits : st.visits = true) (free : l.kept = false) (poisoned : l.poisoned = true) :
      Ends l st l (.failed lockCause)
  | locked (free : l.kept = false) (sound : l.poisoned = false) :
      Ends l .lock { l with locked := true, kept := true } .ok
  | panicked (free : l.kept = false) (sound : l.poisoned = false) :
      Ends l .panicHeld { l with poisoned := true } .panicked
  | started (free : l.kept = false) (sound : l.poisoned = false) :
      Ends l .startWaiter { l with waiters := l.waiters ++ [.asleep] } .ok
  | freed {st : Step} (frees : st.frees = true) (kept : l.kept = true) :
      Ends l st (settle { l with locked := false, kept := false }) .ok
  | announced : Ends l .broadcast l.wakeAll.settle .ok
  | joined {f : Option Cause} {ws : List Waiter} (free : l.kept = false)
      (back : (l.rouse .joinWaiter).settle.waiters = .finished f :: ws) :
      Ends l .joinWaiter { l with waiters := ws } (.ofFailure f)

theorem obtain_of_free (hl : l.locked = false) (c : Cause) :
    l.obtain c = some (if l.poisoned then (l, some c) else ({ l with locked := true }, none)) := by
  rcases l with ⟨locked, poisoned, kept, ws⟩
  cases hl
  cases poisoned <;> rfl

theorem letGo_eq_self (hl : l.locked = false) : l.letGo = l := by
  rcases l with ⟨locked, poisoned, kept, ws⟩
  cases hl
  rfl

theorem visit_of_kept (hk : l.kept = true) (use : PoisonLock → PoisonLock × Result) :
    l.visit use = some (l, .skipped) := if_pos hk

theorem visit_of_poisoned (hl : l.locked = false) (hk : l.kept = false) (hp : l.poisoned = true)
    (use : PoisonLock → PoisonLock × Result) : l.visit use = some (l, .failed lockCause) := by
  simp [visit, hk, obtain_of_free hl, hp]

theorem visit_of_sound (hl : l.locked = false) (hk : l.kept = false) (hp : l.poisoned = false)
    (use : PoisonLock → PoisonLock × Result) : l.visit use = some (use { l with locked := true }) := by
  simp [visit, hk, obtain_of_free hl, hp]

theorem rouse_of_visits (hv : st.visits = true) : l.rouse st = l := by
  cases st <;> first | rfl | cases hv

theorem Orderly.ends_visit (hl : l.Orderly) (hv : st.visits = true) {use : PoisonLock → PoisonLock × Result}
    (ha : l.act st = l.visit use)
    (hu : l.kept = false → l.poisoned = false →
      Ends l st (use { l with locked := true }).1.settle (use { l with locked := true }).2) :
    ∃ l' r, l.step st = some (l', r) ∧ Ends l st l' r := by
  have hs : ∀ {x}, l.visit use = some x → l.step st = some (x.1.settle, x.2) := by
    intro x hx
    rw [PoisonLock.step, rouse_of_visits hv, ha, hx, Option.map_some]
  cases hk : l.kept with
  | true =>
    refine ⟨_, _, hs (visit_of_kept hk use), ?_⟩
    rw [hl.settle_eq_self]
    exact .skipped (.inl ⟨.inl hv, hk⟩)
  | false =>
    have hf := hl.kept.trans hk
    cases hp : l.poisoned with
    | true =>
      refine ⟨_, _, hs (visit_of_poisoned hf hk hp use), ?_⟩
      rw [hl.settle_eq_self]
      exact .refused hv hk hp
    | false => exact ⟨_, _, hs (visit_of_sound hf hk hp use), hu hk hp⟩

def roused (l : PoisonLock) (st : Step) (w : Waiter) : Waiter := l.rose (if l.rouses st then w.wake else w)

theorem settle_rouse (l : PoisonLock) (st : Step) :
    (l.rouse st).settle = { l with waiters := l.waiters.map (l.roused st) } := by
  rw [settle_eq]
  unfold roused PoisonLock.rouse
  split
  · rw [wakeAll, List.map_map]
    rfl
  · rfl

theorem waiters_roused (l : PoisonLock) (st : Step) : (l.rouse st).settle.waiters = l.waiters.map (l.roused st) := by
  rw [settle_rouse]

theorem length_of_back {w : Waiter} {ws : List Waiter} (hw : (l.rouse st).settle.waiters = w :: ws) :
    l.waiters.length = ws.length + 1 := by
  rw [waiters_roused] at hw
  simpa using congrArg List.length hw

theorem Orderly.settle_rouse (hl : l.Orderly) (st : Step) : (l.rouse st).settle.Orderly :=
  orderly_settle (hl.rouse st).1 (hl.rouse st).2

theorem Orderly.keep (hl : l.Orderly) : Orderly { l with locked := true, kept := true } :=
  ⟨rfl, fun _ _ _ => rfl, hl.ordered⟩

theorem Orderly.poison (hl : l.Orderly) : Orderly { l with poisoned := true } :=
  ⟨hl.kept, hl.woken, hl.ordered⟩

theorem Orderly.enlist (hl : l.Orderly) : Orderly { l with waiters := l.waiters ++ [.asleep] } where
  kept := hl.kept
  woken := fun w hw he => by
    rcases List.mem_append.mp hw with hw | hw
    · exact hl.woken w hw he
    · cases (List.mem_singleton.mp hw).symm.trans he
  ordered := by
    refine List.pairwise_append.mpr ⟨hl.ordered, List.pairwise_singleton .., fun v _ w hw _ => ?_⟩
    exact List.mem_singleton.mp hw

theorem Orderly.retire (hl : l.Orderly) {w : Waiter} {ws : List Waiter} (hw : (l.rouse st).settle.waiters = w :: ws) :
    Orderly { l with waiters := ws } := by
  have hs := hl.settle_rouse st
  exact {
    kept := hl.kept
    woken := fun v hv he => by
      have hv := hs.woken v (by rw [hw]; exact List.mem_cons_of_mem _ hv) he
      rwa [PoisonLock.settle_rouse] at hv
    ordered := (List.pairwise_cons.mp (hw ▸ hs.ordered)).2 }

theorem Orderly.rouses_join (hl : l.Orderly) (hk : l.kept = false) {ws : List Waiter} (hw : l.waiters = .asleep :: ws) :
    l.rouses .joinWaiter = true := by
  have hord := hl.ordered
  rw [hw, List.pairwise_cons] at hord
  have hall : ∀ v ∈ l.waiters, v.isFinished = false := by
    intro v hm
    rcases List.mem_cons.mp (hw ▸ hm) with rfl | hm
    · rfl
    · rw [hord.1 v hm rfl]
      rfl
  simpa [rouses, hk] using hall

theorem Orderly.ends_join (hl : l.Orderly) (hk : l.kept = false) :
    ∃ l' r, (l.rouse .joinWaiter).settle.join = some (l', r) ∧ l'.settle = l' ∧ Ends l .joinWaiter l' r := by
  have hs := hl.settle_rouse .joinWaiter
  have hfree : (l.rouse .joinWaiter).settle.locked = false := by
    rw [PoisonLock.settle_rouse]
    exact hl.kept.trans hk
  cases hw : (l.rouse .joinWaiter).settle.waiters with
  | nil =>
    have hn : l.waiters = [] := by
      rw [PoisonLock.settle_rouse] at hw
      exact List.map_eq_nil_iff.mp hw
    refine ⟨(l.rouse .joinWaiter).settle, .skipped, by rw [join, hw], hs.settle_eq_self, ?_⟩
    have he : (l.rouse .joinWaiter).settle = l := by
      rw [PoisonLock.settle_rouse, hn, List.map_nil, ← hn]
    rw [he]
    exact .skipped (.inr (.inr ⟨rfl, hn⟩))
  | cons w ws =>
    cases w with
    | finished f =>
      have he : { (l.rouse .joinWaiter).settle with waiters := ws } = { l with waiters := ws } := by
        rw [PoisonLock.settle_rouse]
      refine ⟨_, .ofFailure f, by rw [join, hw], ?_, by rw [he]; exact .joined hk hw⟩
      rw [he, (hl.retire hw).settle_eq_self]
    | woken =>
      have ht := hs.woken .woken (by rw [hw]; exact List.mem_cons_self ..) rfl
      cases hfree.symm.trans ht
    | asleep =>
      exfalso
      rw [PoisonLock.settle_rouse] at hw
      obtain ⟨w, vs, hv, hwake, -⟩ := List.map_eq_cons_iff.mp hw
      by_cases hr : l.rouses .joinWaiter = true
      · rw [roused, if_pos hr, rose_eq_asleep_iff] at hwake
        exact wake_ne_asleep w hwake
      · rw [roused, if_neg hr, rose_eq_asleep_iff] at hwake
        exact hr (hl.rouses_join hk (hwake ▸ hv))

theorem Orderly.step (hl : l.Orderly) (st : Step) : ∃ l' r, l.step st = some (l', r) ∧ Ends l st l' r := by
  have free : l.kept = false → ({ l with locked := true } : PoisonLock).letGo = l :=
    fun hk => letGo_eq_self (hl.kept.trans hk)
  have freed : st.frees = true → l.act st = some l.releaseKept → l.rouse st = l →
      ∃ l' r, l.step st = some (l', r) ∧ Ends l st l' r := by
    intro hf ha hr
    refine ⟨l.releaseKept.1.settle, l.releaseKept.2, by rw [PoisonLock.step, hr, ha, Option.map_some], ?_⟩
    unfold releaseKept
    split
    · next hk => exact .freed hf hk
    · next hk =>
      rw [hl.settle_eq_self]
      exact .skipped (.inr (.inl ⟨hf, by simpa using hk⟩))
  cases st with
  | lock =>
    refine hl.ends_visit rfl rfl fun hk hp => ?_
    rw [hl.keep.settle_eq_self]
    exact .locked hk hp
  | panicHeld =>
    refine hl.ends_visit rfl rfl fun hk hp => ?_
    simp only [free hk, hl.poison.settle_eq_self]
    exact .panicked hk hp
  | startWaiter =>
    refine hl.ends_visit rfl rfl fun hk hp => ?_
    simp only [free hk, hl.enlist.settle_eq_self]
    exact .started hk hp
  | unlock | drop => exact freed rfl rfl rfl
  | broadcast => exact ⟨_, _, rfl, .announced⟩
  | joinWaiter =>
    cases hk : l.kept with
    | true =>
      have hr : l.rouse .joinWaiter = l := by simp [PoisonLock.rouse, rouses, hk]
      refine ⟨l, .skipped, ?_, .skipped (.inl ⟨.inr rfl, hk⟩)⟩
      rw [PoisonLock.step, hr, act, if_pos hk, Option.map_some, hl.settle_eq_self]
    | false =>
      have hr : (l.rouse .joinWaiter).kept = false := by
        unfold PoisonLock.rouse
        split <;> exact hk
      obtain ⟨l', r, hj, hs, he⟩ := hl.ends_join hk
      refine ⟨l', r, ?_, he⟩
      rw [PoisonLock.step, act, if_neg (by simp [hr]), hj, Option.map_some, hs]

theorem Ends.orderly (he : Ends l st l' r) (hl : l.Orderly) : l'.Orderly := by
  cases he with
  | skipped | refused => exact hl
  | locked => exact hl.keep
  | panicked => exact hl.poison
  | started => exact hl.enlist
  | freed => exact orderly_settle rfl hl.ordered
  | announced => exact hl.settle_rouse .broadcast
  | joined free back => exact hl.retire back

theorem Orderly.ends (hl : l.Orderly) (hs : l.step st = some (l', r)) : Ends l st l' r ∧ l'.Orderly := by
  obtain ⟨m, x, hm, he⟩ := hl.step st
  cases hs.symm.trans hm
  exact ⟨he, he.orderly hl⟩

inductive Records : List Entry → PoisonLock → Prop
  | fresh : Records [] .fresh
  | step {h : List Entry} {l l' : PoisonLock} {st : Step} {r : Result} (records : Records h l)
      (taken : l.step st = some (l', r)) : Records (h ++ [⟨l, st, r⟩]) l'

theorem Records.orderly (hr : Records h l) : l.Orderly := by
  induction hr with
  | fresh => exact orderly_fresh
  | step _ taken ih => exact (ih.ends taken).2

theorem Records.kept_iff (hr : Records h l) : l.kept = true ↔ Kept h := by
  induction hr with
  | fresh => simp [PoisonLock.fresh, Kept]
  | @step h l l' st r hr taken ih =>
    rw [kept_concat, ← ih]
    cases (hr.orderly.ends taken).1 with
    | skipped why =>
      have hk : st.frees = true → l.kept = false := by
        rcases why with ⟨hv | rfl, -⟩ | ⟨-, hk⟩ | ⟨rfl, -⟩
        · simp [Step.visits_cases hv]
        · nofun
        · exact fun _ => hk
        · nofun
      cases hf : st.frees with
      | true => simp [Entry.keeps, hk hf]
      | false => simp [Entry.keeps]
    | refused visits free => simp [Entry.keeps, free]
    | locked => simp [Entry.keeps]
    | panicked free | started free | joined free => simp [Entry.keeps, free]
    | freed frees kept =>
      have hl : st ≠ .lock := by
        rintro rfl
        cases frees
      simp [Entry.keeps, settle_eq, frees, hl]
    | announced => simp [Entry.keeps, settle_eq, wakeAll, Step.frees]

theorem Records.started_eq (hr : Records h l) : started h = joined h + l.waiters.length := by
  induction hr with
  | fresh => rfl
  | @step h l l' st r hr taken ih =>
    simp only [PoisonLock.started, PoisonLock.joined] at ih ⊢
    rw [List.countP_append, List.countP_append, List.countP_singleton, List.countP_singleton, ih]
    cases (hr.orderly.ends taken).1 with
    | skipped | locked | panicked => simp [Entry.starts, Entry.joins]
    | refused visits =>
      have hj : st ≠ .joinWaiter := by
        rintro rfl
        cases visits
      simp [Entry.starts, Entry.joins, hj]
    | started => simp [Entry.starts, Entry.joins]; omega
    | freed frees =>
      have hn : st ≠ .startWaiter ∧ st ≠ .joinWaiter := by
        constructor
        · rintro rfl
          cases frees
        · rintro rfl
          cases frees
      simp [Entry.starts, Entry.joins, settle_eq, hn]
    | announced => simp [Entry.starts, Entry.joins, settle_eq, wakeAll]
    | @joined f ws free back =>
      have hn := length_of_back back
      have hr : Result.ofFailure f ≠ .skipped := by cases f <;> nofun
      simp [Entry.starts, Entry.joins, hr]
      omega

theorem Records.play (hr : Records h l) (steps : List Step) :
    ∃ l', l.after steps = some l' ∧ Records (h ++ l.play steps) l' ∧ (l.play steps).length = steps.length := by
  induction steps generalizing l h with
  | nil => exact ⟨l, rfl, by simpa [PoisonLock.play] using hr, rfl⟩
  | cons st steps ih =>
    obtain ⟨l₁, r, hs, -⟩ := hr.orderly.step st
    obtain ⟨l', ha, hl, hn⟩ := ih (hr.step hs)
    have hp : l.play (st :: steps) = ⟨l, st, r⟩ :: l₁.play steps := by rw [PoisonLock.play, hs]
    refine ⟨l', by rw [after, hs]; exact ha, ?_, by rw [hp, List.length_cons, hn, List.length_cons]⟩
    rwa [hp, List.append_cons]

theorem Records.split (hr : Records h l) {steps : List Step} {a b : List Entry} {e : Entry}
    (hs : l.play steps = a ++ e :: b) :
    Records (h ++ a) e.lock ∧ ∃ l', e.lock.step e.step = some (l', e.result) := by
  induction steps generalizing l h a with
  | nil => simp [PoisonLock.play] at hs
  | cons st steps ih =>
    obtain ⟨l₁, r, ht, -⟩ := hr.orderly.step st
    simp only [PoisonLock.play, ht] at hs
    cases a with
    | nil =>
      obtain ⟨rfl, -⟩ := List.cons.inj hs
      exact ⟨by simpa using hr, l₁, ht⟩
    | cons x a =>
      rw [List.cons_append] at hs
      obtain ⟨rfl, htail⟩ := List.cons.inj hs
      rw [List.append_cons]
      exact ih (hr.step ht) htail

/-- After any steps the mutex is taken exactly if the driving thread keeps it, and only then is a woken waiter held up.
Every step ends, and a join waits for no waiter in vain. -/
theorem never_leaked (steps : List Step) : (fresh.run steps).length = steps.length ∧
    ∃ l, fresh.after steps = some l ∧ (l.locked = true ↔ Kept (fresh.play steps)) ∧
      (∀ w ∈ l.waiters, w = .woken → Kept (fresh.play steps)) ∧
      ∃ l' r, l.step .joinWaiter = some (l', r) ∧
        (r = .skipped ↔ Kept (fresh.play steps) ∨ started (fresh.play steps) = joined (fresh.play steps)) ∧
        (r ≠ .skipped → r = .ok ∨ ∃ c, r = .failed c) := by
  obtain ⟨l, ha, hr, hn⟩ := Records.fresh.play steps
  rw [List.nil_append] at hr
  have hl := hr.orderly
  have hk : l.locked = true ↔ Kept (fresh.play steps) := hl.kept ▸ hr.kept_iff
  obtain ⟨l', r, hj, he⟩ := hl.step .joinWaiter
  refine ⟨by rw [run, List.length_map, hn], l, ha, hk, fun w hw he => hk.mp (hl.woken w hw he), l', r, hj, ?_⟩
  rw [← hr.kept_iff, hr.started_eq]
  cases he with
  | skipped why =>
    simp [Step.visits, Step.frees] at why
    simpa using why
  | refused visits => cases visits
  | freed frees => cases frees
  | @joined f ws free back =>
    have hn := length_of_back back
    cases f <;> simp [Result.ofFailure, free, hn]

end OnceInit.PoisonLock

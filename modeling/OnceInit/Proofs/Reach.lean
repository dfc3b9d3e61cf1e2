import OnceInit.Machine.Step
import OnceInit.Proofs.Ledger

/-! The states that a process passes through, in the middle of its steps as well as at their ends, and how a
process keeps a ledger. Only the running thread is inside of the mutex, since a turn never passes the processor on
before the running thread is done or parked. -/

open List (Perm)

namespace OnceInit

namespace Machine

/-- The process that began as `m₀` may come to be `m`, when `h` has happened. -/
inductive Reaches (s : Setup) (ok : OnceInit.Step → Prop) (m₀ : Machine) : Machine → List Event → Prop
  | start : Reaches s ok m₀ m₀ []
  | begin {m : Machine} {h : List Event} (st : OnceInit.Step) (reaches : Reaches s ok m₀ m h)
      (settled : m.settled = true) (alive : m.fate = none) (allowed : ok st) :
      Reaches s ok m₀ (m.begin s st).1 (h ++ (m.begin s st).2)
  | turn {m : Machine} {h : List Event} (reaches : Reaches s ok m₀ m h)
      (unsettled : m.settled = false) : Reaches s ok m₀ (m.turn s).1 (h ++ (m.turn s).2)

def turns (s : Setup) : Nat → Machine → Machine × List Event
  | 0, m => (m, [])
  | n + 1, m => if m.settled then (m, []) else prepend (m.turn s).2 (turns s n (m.turn s).1)

variable {s : Setup} {ok : OnceInit.Step → Prop} {m₀ m : Machine} {h : List Event}

theorem Reaches.trans {m' : Machine} {h' : List Event} (hr : Reaches s ok m₀ m h) (hr' : Reaches s ok m m' h') :
    Reaches s ok m₀ m' (h ++ h') := by
  induction hr' with
  | start => rwa [List.append_nil]
  | begin st _ hs hf hk ih =>
    rw [← List.append_assoc]
    exact ih.begin st hs hf hk
  | turn _ hu ih =>
    rw [← List.append_assoc]
    exact ih.turn hu

theorem Reaches.turns (hr : Reaches s ok m₀ m h) (n : Nat) :
    Reaches s ok m₀ (m.turns s n).1 (h ++ (m.turns s n).2) := by
  induction n generalizing m h with
  | zero => simpa [Machine.turns] using hr
  | succ n ih =>
    unfold Machine.turns
    split
    · simpa using hr
    · next hu =>
      have ht := ih (hr.turn (by simpa using hu))
      simpa only [prepend, List.append_assoc] using ht

theorem drain_eq_turns {n : Nat} (hs : (m.turns s n).1.settled = true) : m.drain s = m.turns s n := by
  induction n generalizing m with
  | zero => exact drain_of_settled hs
  | succ n ih =>
    unfold turns at hs ⊢
    split at hs
    · next hm => rw [if_pos hm, drain_of_settled hm]
    · next hm =>
      rw [if_neg hm, drain_of_not_settled (by simpa using hm), ih hs]

theorem step_of_alive (hf : m.fate = none) (st : OnceInit.Step) :
    m.step s st = prepend (m.begin s st).2 ((m.begin s st).1.drain s) := by
  simp [step, hf]

theorem step_eq_turns {n : Nat} (hf : m.fate = none) {st : OnceInit.Step}
    (hs : ((m.begin s st).1.turns s n).1.settled = true) :
    m.step s st = prepend (m.begin s st).2 ((m.begin s st).1.turns s n) := by
  rw [step_of_alive hf, drain_eq_turns hs]

theorem run_cons (s : Setup) (m : Machine) (st : OnceInit.Step) (steps : List OnceInit.Step) :
    m.run s (st :: steps) = (m.step s st).1.run s steps := rfl

theorem run_cons_turns {n : Nat} (hf : m.fate = none) {st : OnceInit.Step}
    (hs : ((m.begin s st).1.turns s n).1.settled = true) (steps : List OnceInit.Step) :
    m.run s (st :: steps) = ((m.begin s st).1.turns s n).1.run s steps := by
  rw [run_cons, step_eq_turns hf hs]
  rfl

theorem Reaches.drain (hr : Reaches s ok m₀ m h) :
    Reaches s ok m₀ (m.drain s).1 (h ++ (m.drain s).2) := by
  revert h
  fun_induction Machine.drain s m with
  | case1 m hs => simp
  | case2 m hs =>
    rename_i r ih
    intro h hr
    have ht := ih (hr.turn (by simpa using hs))
    simpa only [prepend, List.append_assoc] using ht

theorem Reaches.step (hr : Reaches s ok m₀ m h) (hs : m.settled = true) {st : OnceInit.Step}
    (hk : ok st) : Reaches s ok m₀ (m.step s st).1 (h ++ (m.step s st).2) := by
  unfold Machine.step
  split
  · simpa using hr
  · next hf =>
    have hd := (hr.begin st hs (by simpa using hf) hk).drain
    simpa only [prepend, List.append_assoc] using hd

theorem Reaches.run (hr : Reaches s ok m₀ m h) (hs : m.settled = true) (steps : List OnceInit.Step)
    (hk : ∀ st ∈ steps, ok st) : ∃ es, Reaches s ok m₀ (m.run s steps) (h ++ es) := by
  induction steps generalizing m h with
  | nil => exact ⟨[], by simpa [Machine.run] using hr⟩
  | cons st steps ih =>
    obtain ⟨es, he⟩ := ih (hr.step hs (hk st (by simp))) (settled_step hs st) fun x hx => hk x (by simp [hx])
    exact ⟨_, List.append_assoc .. ▸ he⟩

end Machine

def Next.notes (s : Setup) (t : ThreadId) (k : Task) : Next → List Event
  | .go _ => []
  | .tell n _ => s.log t n
  | .finish (.gives v) => [.answer t (k.purpose.answer v)]
  | .finish (.fails f) =>
    if k.purpose.hearsFailures then [.answer t (.failure f)]
    else s.log t (.fatal f.op f.kind) ++ [.answer t .terminated]

theorem eq_of_mem_log {s : Setup} {t : ThreadId} {n : Note} {e : Event} (he : e ∈ s.log t n) : e = .log t n := by
  unfold Setup.log at he
  split at he
  · exact List.mem_singleton.mp he
  · cases he

theorem isNote_log {s : Setup} {t : ThreadId} {n : Note} : ∀ e ∈ s.log t n, e.isNote = true := fun e he => by
  rw [eq_of_mem_log he]
  rfl

theorem isNote_notes (s : Setup) (t : ThreadId) (k : Task) (n : Next) :
    ∀ e ∈ n.notes s t k, e.isNote = true := by
  intro e he
  unfold Next.notes at he
  split at he
  · cases he
  · exact isNote_log e he
  · rw [List.mem_singleton.mp he]; rfl
  · split at he
    · rw [List.mem_singleton.mp he]; rfl
    · rcases List.mem_append.mp he with he | he
      · exact isNote_log e he
      · rw [List.mem_singleton.mp he]; rfl

theorem Registry.known_ask_eq (r : Registry) (t : ThreadId) (id : Int) :
    (r.ask t id).2.known = put r.known t (some (r.ask t id).1) := by
  funext u
  by_cases hu : u = t
  · subst hu
    rw [put_same, known_ask]
  · rw [put_of_ne _ _ hu, known_ask_of_ne r hu]

theorem GuardKind.task?_eq {kind : GuardKind} {b : Build} {g : GuardId} {other : Option Scheme}
    {a : Action} {k : Task} (hk : kind.task? b g other a = some k) :
    k = .start k.op g k.scheme k.purpose := by
  unfold GuardKind.task? at hk
  split at hk <;> cases hk <;> rfl

namespace Machine

inductive Onset (s : Setup) (m : Machine) : OnceInit.Step → Machine × List Event → Prop
  | armed {c : Call} {f : Fault} : Onset s m (.fault c f) (m.arm c f, [])
  | poked {g : GuardId} {c : Cell} : Onset s m (.poke g c) (m.poke g c, [])
  | freed : Onset s m .forceUnlock (m.unlock, [])
  | skipped {st : OnceInit.Step} {x : Skip} : Onset s m st (m, [.skip x])
  | declined {st : OnceInit.Step} {t : ThreadId} {a : Answer} (free : m.tasks t = none)
      (reason : a = .noGuard ∨ a = .unsupported) : Onset s m st (m, [.answer t a])
  | woken {t : ThreadId} (asleep : t ∈ m.sleepers) :
      Onset s m (.spurious t) ({ m with running := some t, sleepers := m.sleepers.erase t }, [])
  | launched {t : ThreadId} {k : Task} {kind : GuardKind} {other : Option Scheme} {a : Action}
      (free : m.tasks t = none) (kinds : s.kinds k.guard = some kind)
      (task : kind.task? s.build k.guard other a = some k) :
      Onset s m (.act t k.guard other (some a)) (m.launch t k)
  | closed {t : ThreadId} {f : Frame} {rest : List Frame} {e : Ending} (free : m.tasks t = none)
      (top : m.frames t = f :: rest) :
      Onset s m (.finish t e) (emit (.closed t f.guard f.fallible e)
        (launch { m with frames := put m.frames t rest } t (f.task s.build e)))

theorem onset (s : Setup) (m : Machine) (st : OnceInit.Step) : Onset s m st (m.begin s st) := by
  cases st with
  | fault c f => exact .armed
  | poke g c => exact .poked
  | forceUnlock => exact .freed
  | spurious t =>
    simp only [Machine.begin]
    split
    · next ht => exact .woken ht
    · exact .skipped
  | act t g other a =>
    simp only [Machine.begin]
    split
    · exact .skipped
    · next ht =>
      have free := Option.not_isSome_iff_eq_none.mp ht
      split
      · exact .declined free (.inl rfl)
      · next kind hkind =>
        split
        · exact .declined free (.inr rfl)
        · next k hk =>
          obtain ⟨a, rfl, hk⟩ := Option.bind_eq_some_iff.mp hk
          have hg : k.guard = g := by rw [GuardKind.task?_eq hk, Task.start]
          subst hg
          exact .launched free hkind hk
  | finish t e =>
    simp only [Machine.begin]
    split
    · exact .skipped
    · next ht =>
      split
      · exact .skipped
      · next f rest htop => exact .closed (Option.not_isSome_iff_eq_none.mp ht) htop

def advance (m : Machine) (t : ThreadId) (k : Task) (n : Next) : Machine :=
  { m with
    tasks := put m.tasks t (n.after k)
    running := if (n.after k).isSome then some t else none
    frames := put m.frames t (n.frames k ++ m.frames t)
    fate := (n.doom k).or m.fate }

variable {s : Setup} {m : Machine} {t u : ThreadId} {k : Task}

theorem proceed_eq (hr : m.running = some t) (n : Next) :
    m.proceed s t k n = (m.advance t k n, n.report t k ++ n.notes s t k) := by
  cases n with
  | go p => simp [proceed, place, advance, Next.after, Next.frames, Next.doom, Next.report, Next.notes, hr]
  | tell n p => simp [proceed, place, advance, Next.after, Next.frames, Next.doom, Next.report, Next.notes, hr]
  | finish r =>
    cases r with
    | gives v => simp [proceed, deliver, enter, advance, Next.after, Next.frames, Next.doom, Next.report, Next.notes]
    | fails f =>
      simp only [proceed, deliver]
      split <;>
        simp_all [advance, Next.after, Next.frames, Next.doom, Next.report, Next.notes]

inductive Act (s : Setup) (m : Machine) (t : ThreadId) (k : Task) : Machine → List Event → Next → Prop
  | refused {c : Call} {n : Next} {r : Int → Next} {code : Int} (hn : k.node = .call c n r)
      (hc : m.refusal c = some code) :
      Act s m t k (m.spend c) [.call t (.refused c code)] (r code)
  | lock {n : Next} {r : Int → Next} (hn : k.node = .call .lock n r) :
      Act s m t k (m.spend .lock) [] n
  | unlock {n : Next} {r : Int → Next} (hn : k.node = .call .unlock n r) :
      Act s m t k (m.spend .unlock).unlock [.call t .unlocked] n
  | broadcast {n : Next} {r : Int → Next} (hn : k.node = .call .broadcast n r) :
      Act s m t k ((m.spend .broadcast).broadcast s) [.call t .announced] n
  | took {w : Bool} {n : Next} (hn : k.node = .take w n) (free : m.owner = none) :
      Act s m t k { m with owner := some t } [.call t (if w then .woke else .locked)] n
  | read {f : Cell → Next} (hn : k.node = .read f) :
      Act s m t k m [.read t k.guard (m.cells k.guard)] (f (m.cells k.guard))
  | asked {f : Token → Next} (hn : k.node = .ask f) :
      Act s m t k (m.register s t) [] (f (m.token s t))
  | wrote {new : Width → Cell} {n : Next} (hn : k.node = .write new n) :
      Act s m t k (m.poke k.guard (new (m.cells k.guard).width))
        [.write t k.op k.guard (new (m.cells k.guard).width)] n

inductive Played (s : Setup) (m : Machine) (t : ThreadId) (k : Task) : Machine × List Event → Prop
  | act {m₁ : Machine} {es : List Event} {n : Next} (ha : Act s m t k m₁ es n) :
      Played s m t k (m₁.advance t k n, es ++ (n.report t k ++ n.notes s t k))
  | slept {r : Int → Next} (hn : k.node = .call .wait (.go .waking) r) :
      Played s m t k ({ (m.spend .wait).unlock with
        running := none, tasks := put m.tasks t (some { k with point := .waking }),
        sleepers := m.sleepers ++ [t] }, [.call t .slept, .answer t .waiting])
  | parked {w : Bool} {n : Next} (hn : k.node = .take w n) (taken : m.owner ≠ none) :
      Played s m t k (m.park t)

theorem played_perform (hr : m.running = some t) (k : Task) : Played s m t k (m.perform s t k) := by
  unfold perform
  cases hn : k.node with
  | call c n r =>
    simp only [invoke]
    cases hc : m.refusal c with
    | some code =>
      simp only [emit, proceed_eq (m := m.spend c) hr]
      exact .act (.refused hn hc)
    | none =>
      cases c with
      | lock =>
        simp only [serve, proceed_eq (m := m.spend .lock) hr]
        exact .act (.lock hn)
      | unlock =>
        simp only [serve, emit, proceed_eq (m := (m.spend .unlock).unlock) hr]
        exact .act (.unlock hn)
      | wait =>
        cases Task.calls hn with
        | wait => exact .slept hn
      | broadcast =>
        simp only [serve, emit, proceed_eq (m := (m.spend .broadcast).broadcast s) hr]
        exact .act (.broadcast hn)
  | take w n =>
    simp only [take]
    cases ho : m.owner with
    | none =>
      simp only [emit, proceed_eq (m := { m with owner := some t }) hr]
      exact .act (.took hn ho)
    | some u => exact .parked hn (by simp [ho])
  | read f =>
    simp only [emit, proceed_eq hr]
    exact .act (.read hn)
  | ask f =>
    simp only [proceed_eq (m := m.register s t) hr]
    exact .act (.asked hn)
  | write new n =>
    simp only [emit, proceed_eq (m := m.poke k.guard (new (m.cells k.guard).width)) hr]
    exact .act (.wrote hn)

theorem played_turn (hr : m.running = some t) (hk : m.tasks t = some k) : Played s m t k (m.turn s) := by
  simp only [turn, hr, hk]
  exact played_perform hr k

def seats (m : Machine) : List ThreadId := m.running.toList ++ m.ready ++ m.queue ++ m.sleepers

/-- Every thread with a task has one place, and unless it is running it is on its way into the mutex. -/
structure Seated (m : Machine) : Prop where
  nodup : m.seats.Nodup
  busy : ∀ t, t ∈ m.seats ↔ (m.tasks t).isSome = true
  parked : ∀ t k, m.tasks t = some k → m.running ≠ some t → k.point = .contending ∨ k.point = .waking
  ended : m.fate ≠ none → m.running = none

theorem seated_start (cells : GuardId → Cell) : (start cells).Seated where
  nodup := by simp [seats, start]
  busy := by simp [seats, start]
  parked := fun t k hk => nomatch hk
  ended := fun _ => rfl

theorem seats_unlock (m : Machine) : m.unlock.seats.Perm m.seats := by
  -- counting each thread turns the moves between the lists into sums
  rw [List.perm_iff_count]
  intro u
  simp only [seats, unlock, List.count_append]
  cases m.queue with
  | nil => simp
  | cons v vs => simp [List.count_cons]; omega

theorem seats_broadcast (s : Setup) (m : Machine) : (m.broadcast s).seats.Perm m.seats := by
  rw [List.perm_iff_count]
  intro u
  simp only [seats, broadcast, Setup.wakeOrder, List.count_append]
  split <;> simp <;> omega

variable {m₁ : Machine} {es : List Event} {n : Next}

theorem Act.frame (ha : Act s m t k m₁ es n) : m₁.running = m.running ∧ m₁.tasks = m.tasks ∧
    m₁.frames = m.frames ∧ m₁.fate = m.fate ∧ m₁.seats.Perm m.seats := by
  cases ha with
  | refused | lock | took | read | asked | wrote => exact ⟨rfl, rfl, rfl, rfl, .refl _⟩
  | unlock => exact ⟨rfl, rfl, rfl, rfl, seats_unlock (m.spend .unlock)⟩
  | broadcast => exact ⟨rfl, rfl, rfl, rfl, seats_broadcast s (m.spend .broadcast)⟩

theorem Seated.of_perm {m' : Machine} (hs : m.Seated) (hp : m'.seats.Perm m.seats)
    (ht : m'.tasks = m.tasks) (hr : m'.running = m.running) (hf : m'.fate = m.fate) : m'.Seated where
  nodup := hp.nodup_iff.mpr hs.nodup
  busy := fun t => hp.mem_iff.trans (ht ▸ hs.busy t)
  parked := fun t k => by rw [ht, hr]; exact hs.parked t k
  ended := by rw [hf, hr]; exact hs.ended

theorem Seated.advance (hs : m.Seated) (hr : m.running = some t) (hf : m.fate = none)
    (k : Task) (n : Next) : (m.advance t k n).Seated := by
  have hn := hs.nodup
  rw [seats, hr, Option.toList_some, List.append_assoc, List.append_assoc, List.singleton_append,
    List.nodup_cons] at hn
  have hse : (m.advance t k n).seats = (if (n.after k).isSome then some t else none).toList ++
      (m.ready ++ (m.queue ++ m.sleepers)) := by
    simp [seats, Machine.advance]
  constructor
  · rw [hse]
    split
    · exact List.nodup_cons.mpr hn
    · exact hn.2
  · intro u
    rw [hse, List.mem_append]
    by_cases he : u = t
    · subst he
      rw [or_iff_left hn.1]
      cases ha : n.after k <;> simp [Machine.advance, ha]
    · have hb := hs.busy u
      rw [seats, hr] at hb
      have ht : u ∉ (if (n.after k).isSome then some t else none).toList := by
        split <;> simp [he]
      rw [or_iff_right ht]
      simpa [Machine.advance, put_of_ne _ _ he, he] using hb
  · intro u k' hk' hu
    by_cases he : u = t
    · subst he
      have ha : n.after k = some k' := (put_same _ _ _).symm.trans hk'
      simp [Machine.advance, ha] at hu
    · refine hs.parked u k' ((put_of_ne _ _ he).symm.trans hk') ?_
      rw [hr]
      exact fun e => he (Option.some.inj e).symm
  · intro h
    cases n with
    | go p => simp [Machine.advance, hf, Next.doom] at h
    | tell n p => simp [Machine.advance, hf, Next.doom] at h
    | finish r => rfl

theorem Seated.park (hs : m.Seated) (hr : m.running = some t) (hk : m.tasks t = some k)
    (hp : k.point = .contending ∨ k.point = .waking) : (m.park t).1.Seated := by
  have hq : (m.park t).1.seats.Perm m.seats := by
    rw [List.perm_iff_count]
    intro u
    simp only [seats, Machine.park, hr, List.count_append, Option.toList_some, Option.toList_none,
      List.count_nil]
    omega
  refine ⟨hq.nodup_iff.mpr hs.nodup, fun u => hq.mem_iff.trans (hs.busy u), ?_, fun _ => rfl⟩
  intro u k' hk' _
  by_cases he : u = t
  · subst he
    cases hk.symm.trans hk'
    exact hp
  · refine hs.parked u k' hk' ?_
    rw [hr]
    exact fun e => he (Option.some.inj e).symm

theorem Seated.played (hs : m.Seated) (hr : m.running = some t) (hk : m.tasks t = some k)
    (hf : m.fate = none) {r : Machine × List Event} (hp : Played s m t k r) : r.1.Seated := by
  cases hp with
  | act ha =>
    obtain ⟨h₁, h₂, -, h₄, h₅⟩ := ha.frame
    exact (hs.of_perm h₅ h₂ h₁ h₄).advance (h₁.trans hr) (h₄.trans hf) k _
  | parked hn _ => exact hs.park hr hk (Task.after_take hn).1
  | @slept r hn =>
    have hu := seats_unlock (m.spend .wait)
    have hq : Perm (seats { (m.spend .wait).unlock with
        running := none, tasks := put m.tasks t (some { k with point := .waking }),
        sleepers := m.sleepers ++ [t] }) m.seats := by
      rw [List.perm_iff_count] at hu ⊢
      intro u
      have := hu u
      simp only [seats, unlock, spend, hr, List.count_append, Option.toList_some,
        Option.toList_none, List.count_nil] at this ⊢
      omega
    refine ⟨hq.nodup_iff.mpr hs.nodup, ?_, ?_, fun _ => rfl⟩
    · intro u
      rw [hq.mem_iff, hs.busy u]
      by_cases he : u = t
      · simp [he, hk]
      · simp [put_of_ne _ _ he]
    · intro u k' hk' _
      by_cases he : u = t
      · subst he
        cases (put_same _ _ _).symm.trans hk'
        exact .inr rfl
      · refine hs.parked u k' ((put_of_ne _ _ he).symm.trans hk') ?_
        rw [hr]
        exact fun e => he (Option.some.inj e).symm

theorem turn_played (s : Setup) (m : Machine) :
    (∃ t k, m.running = some t ∧ m.tasks t = some k ∧ Played s m t k (m.turn s)) ∨
      (m.turn s).2 = [] ∧ (m.turn s).1.tasks = m.tasks ∧ (m.turn s).1.tokens = m.tokens := by
  cases hr : m.running with
  | some t =>
    cases hk : m.tasks t with
    | some k => exact .inl ⟨t, k, rfl, hk, played_turn hr hk⟩
    | none => exact .inr (by simp [turn, hr, hk])
  | none =>
    cases hq : m.ready with
    | nil => exact .inr (by simp [turn, hr, hq])
    | cons t rest => exact .inr (by simp [turn, hr, hq])

theorem Seated.turn_cases (hs : m.Seated) (hu : m.settled = false) : m.fate = none ∧
    ((∃ t k, m.running = some t ∧ m.tasks t = some k ∧ Played s m t k (m.turn s)) ∨
    ∃ t rest, m.running = none ∧ m.ready = t :: rest ∧
      m.turn s = ({ m with running := some t, ready := rest }, [])) := by
  obtain ⟨hf, hn⟩ : m.fate = none ∧ (m.running.isNone && m.ready.isEmpty) = false := by
    simpa [settled] using hu
  refine ⟨hf, ?_⟩
  cases hr : m.running with
  | some t =>
    obtain ⟨k, hk⟩ := Option.isSome_iff_exists.mp ((hs.busy t).mp (by simp [seats, hr]))
    exact .inl ⟨t, k, rfl, hk, played_turn hr hk⟩
  | none =>
    cases hq : m.ready with
    | nil => simp [hr, hq] at hn
    | cons t rest => exact .inr ⟨t, rest, rfl, rfl, by simp [turn, hr, hq]⟩

theorem Seated.turn (hs : m.Seated) (hu : m.settled = false) : (m.turn s).1.Seated := by
  obtain ⟨hf, ⟨t, k, hr, hk, hp⟩ | ⟨t, rest, hr, hq, ht⟩⟩ := hs.turn_cases (s := s) hu
  · exact hs.played hr hk hf hp
  · rw [ht]
    have hp : Perm (seats { m with running := some t, ready := rest }) m.seats := by
      simp [seats, hr, hq]
    refine ⟨hp.nodup_iff.mpr hs.nodup, fun u => hp.mem_iff.trans (hs.busy u), ?_, ?_⟩
    · exact fun u k hk _ => hs.parked u k hk (by simp [hr])
    · exact fun h => absurd hf h

end Machine
end OnceInit

import OnceInit.Proofs.Initializers

/-! Runs in which no call fails. Between their steps nobody runs or queues, the mutex is free, and every thread that has
begun an operation sleeps in an acquire, over a claim that is not its own. -/

namespace OnceInit

def Purpose.Suits : Purpose → Op → Prop
  | plain, _ => True
  | hook, op => op ≠ .inspect
  | view _, op => op = .inspect
  | opening _, op => op = .acquire
  | closing e, op => op = e.op

theorem GuardKind.suits_of_task? {kind : GuardKind} {b : Build} {g : GuardId} {other : Option Scheme}
    {a : Action} {k : Task} (hk : kind.task? b g other a = some k) : k.purpose.Suits k.op := by
  unfold GuardKind.task? at hk
  split at hk <;> cases hk <;> simp [Purpose.Suits, Task.start]

theorem Purpose.Suits.answers {p : Purpose} (hp : p.Suits .acquire) :
    p.answer (.granted false) ∈ [.granted false, .code false, .ran false] ∧
      p.answer (.granted true) ∈ [.granted true, .code true, .inside] := by
  cases p with
  | plain | hook | opening => simp [answer]
  | view => cases hp
  | closing e => cases e <;> cases hp

def Registry.Distinct (r : Registry) : Prop := ∀ t u k, r.known t = some k → r.known u = some k → t = u

theorem Registry.distinct_of_numbered {r : Registry} (hk : ∀ t k, r.known t = some k → k.raw.toNat = t + 1) :
    r.Distinct := by
  intro t u k ht hu
  exact Nat.succ.inj ((hk t k ht).symm.trans (hk u k hu))

def Step.Sound (st : OnceInit.Step) : Prop := ∀ c f, st ≠ .fault c f

/-- A step that drives every guard `g` by `sch g`, and neither overwrites a cell nor arms a fault. -/
def Step.Smooth (s : Setup) (sch : GuardId → Scheme) (st : OnceInit.Step) : Prop :=
  st.Drives s sch (fun op p => p.Suits op) ∧ ∀ c f, st ≠ .fault c f

theorem Step.Drives.suits {s : Setup} {sch : GuardId → Scheme} {ok : Op → Purpose → Prop} {st : OnceInit.Step}
    (hd : st.Drives s sch ok) : st.Drives s sch fun op p => p.Suits op := by
  cases st with
  | fault | forceUnlock | spurious | finish => trivial
  | poke => exact hd
  | act t g other a =>
    cases a with
    | none => trivial
    | some a => exact fun kind k hk ht => ⟨(hd kind k hk ht).1, GuardKind.suits_of_task? ht⟩

theorem Setup.plain_smooth (c : Scheme) (t : ThreadId) (g : GuardId) (a : Action) :
    Step.Smooth (.plain c) (fun _ => c) (.act t g none (some a)) :=
  ⟨(plain_drives c t g a).suits, nofun⟩

theorem Setup.managed_smooth (b : Build) (t : ThreadId) (g : GuardId) (a : Action)
    (ha : a ∉ [.acquire, .release, .abort]) :
    Step.Smooth (.managed b) (fun _ => b.scheme) (.act t g none (some a)) :=
  ⟨(managed_drives b t g a ha).suits, nofun⟩

namespace Machine

variable {s : Setup} {sch : GuardId → Scheme} {ok : OnceInit.Step → Prop} {cells : GuardId → Cell}
  {m m₀ : Machine} {h : List Event} {t : ThreadId} {k : Task}

theorem Reaches.mono {ok' : OnceInit.Step → Prop} (hr : Reaches s ok m₀ m h) (hk : ∀ st, ok st → ok' st) :
    Reaches s ok' m₀ m h := by
  induction hr with
  | start => exact .start
  | begin st _ hs hf ha ih => exact ih.begin st hs hf (hk st ha)
  | turn _ hu ih => exact ih.turn hu

theorem Reaches.drives (hr : Reaches s (Step.Smooth s sch) m₀ m h) :
    Reaches s (Step.Drives s sch fun op p => p.Suits op) m₀ m h :=
  hr.mono fun _ hs => hs.1

def Unarmed (m : Machine) : Prop := ∀ c, m.faults c = []

theorem Unarmed.refusal (hu : m.Unarmed) (c : Call) : m.refusal c = none := by
  rw [Machine.refusal, hu c, Fault.strike_nil]

theorem Unarmed.spend (hu : m.Unarmed) (c : Call) : m.spend c = m := by
  have hp : put m.faults c (Fault.strike (m.faults c)).2 = m.faults := by
    rw [hu c, Fault.strike_nil, ← hu c, put_eq_self]
  rw [Machine.spend, hp]

theorem Unarmed.begin (hu : m.Unarmed) {st : OnceInit.Step} (hn : st.Sound) :
    (m.begin s st).1.Unarmed := by
  have ho := onset s m st
  generalize m.begin s st = r at ho ⊢
  cases ho with
  | @armed c f => exact absurd rfl (hn c f)
  | poked | freed | skipped | declined | woken | launched | closed => exact hu

theorem Unarmed.played (hu : m.Unarmed) {r : Machine × List Event} (hp : Played s m t k r) : r.1.Unarmed := by
  cases hp with
  | parked => exact hu
  | slept => exact fun c => (congrFun (congrArg Machine.faults (hu.spend .wait)) c).trans (hu c)
  | @act m₁ es n ha =>
    suffices hm : m₁.faults = m.faults from fun c => (congrFun hm c).trans (hu c)
    cases ha with
    | took | read | asked | wrote => rfl
    | refused | lock | unlock | broadcast =>
      change (m.spend _).faults = m.faults
      rw [hu.spend]

theorem Played.not_began {r : Machine × List Event} (hp : Played s m t k r) (u : ThreadId) (op : Op) (g : GuardId) :
    .began u op g ∉ r.2 := by
  intro hm
  cases hp with
  | slept => simp at hm
  | parked => simp [park] at hm
  | @act m₁ es n ha =>
    rcases List.mem_append.mp hm with he | he
    · cases ha with
      | lock | asked => cases he
      | refused | unlock | broadcast | took | read | wrote => cases List.mem_singleton.mp he
    · obtain ⟨_, _, hx⟩ | ⟨_, hx⟩ | ⟨_, hx⟩ | ⟨_, hx⟩ := news_cases he <;> cases hx

theorem begin_calls (st : OnceInit.Step) (u : ThreadId) (x : Mark) : .call u x ∉ (m.begin s st).2 := by
  have ho := onset s m st
  generalize m.begin s st = r at ho ⊢
  cases ho <;> simp [launch, emit]

theorem not_began_of_drain (m : Machine) (u : ThreadId) (op : Op) (g : GuardId) :
    .began u op g ∉ (m.drain s).2 := by
  have hturn : ∀ m : Machine, .began u op g ∉ (m.turn s).2 := by
    intro m
    unfold turn
    split
    · next t hr =>
      split
      · next k _ => exact (played_perform hr k).not_began u op g
      · simp
    · split <;> simp
  fun_induction drain s m with
  | case1 => simp
  | case2 m _ r ih =>
    rw [prepend, List.mem_append, not_or]
    exact ⟨hturn m, ih⟩

theorem Reaches.unarmed (hr : Reaches s Step.Sound (.start cells) m h) :
    m.Unarmed ∧ ∀ u c code, .call u (.refused c code) ∉ h := by
  induction hr with
  | start => exact ⟨fun _ => rfl, by simp⟩
  | begin st _ _ _ hs ih =>
    refine ⟨ih.1.begin hs, fun u c code hm => ?_⟩
    rcases List.mem_append.mp hm with hm | hm
    · exact ih.2 u c code hm
    · exact begin_calls st u _ hm
  | @turn m h hr hu ih =>
    obtain ⟨-, ⟨t, k, -, -, hp⟩ | ⟨t, rest, -, -, ht⟩⟩ := hr.seated.turn_cases (s := s) hu
    · refine ⟨ih.1.played hp, fun u c code hm => ?_⟩
      rcases List.mem_append.mp hm with hm | hm
      · exact ih.2 u c code hm
      · obtain ⟨-, hc, -⟩ := hp.refused hm
        rw [ih.1.refusal c] at hc
        cases hc
    · rw [ht]
      exact ⟨ih.1, by simpa using ih.2⟩

theorem Reaches.calm_of_sound (hr : Reaches s Step.Sound (.start cells) m h) : m.Calm :=
  hr.calm_of_letsGo fun u c code hm => absurd hm (hr.unarmed.2 u c code)

theorem Reaches.sound (hr : Reaches s (Step.Smooth s sch) m₀ m h) : Reaches s Step.Sound m₀ m h :=
  hr.mono fun _ hs => hs.2

theorem Reaches.scheme_eq (hr : Reaches s (Step.Smooth s sch) (.start cells) m h) (hk : m.tasks t = some k) :
    k.scheme = sch k.guard :=
  (hr.drives.keeps.path.sound.fits t k hk).1

theorem Reaches.known_mono {m' : Machine} {h' : List Event} {me : Token}
    (hr : Reaches s (Step.Smooth s sch) (.start cells) m h) (hr' : Reaches s (Step.Smooth s sch) m m' h')
    (hk : m.tokens.known t = some me) : m'.tokens.known t = some me := by
  have hm := hr.drives.keeps
  have h₀ : Keeps s sch (fun op p => p.Suits op) (m.ledger h) m h := ⟨hm.seated, hm.framed, .refl⟩
  exact (h₀.reaches hr'.drives).path.known_mono hk

structure Dozes (sch : GuardId → Scheme) (m : Machine) (t : ThreadId) (k : Task) (me : Token) : Prop where
  task : m.tasks t = some k
  acquires : k.op = .acquire
  waking : k.point = .waking
  scheme : k.scheme = sch k.guard
  suits : k.purpose.Suits k.op
  known : m.tokens.known t = some me

def Kept (sch : GuardId → Scheme) (m : Machine) (k : Task) (me : Token) : Prop :=
  ∃ c, (sch k.guard).phaseOf (m.cells k.guard) = .underWay c ∧ c ≠ .takenBy me

def Waits (sch : GuardId → Scheme) (m : Machine) (t : ThreadId) : Prop :=
  ∃ k me, m.Dozes sch t k me ∧ m.Kept sch k me

structure Free (m : Machine) : Prop where
  queue : m.queue = []
  owner : m.owner = none
  alive : m.fate = none
  unarmed : m.Unarmed

structure AtRest (m : Machine) : Prop extends m.Free where
  running : m.running = none
  ready : m.ready = []

theorem AtRest.settled (hm : m.AtRest) : m.settled = true := by
  simp [Machine.settled, hm.running, hm.ready]

theorem Reaches.atRest (hr : Reaches s Step.Sound (.start cells) m h) (hs : m.settled = true) (hf : m.fate = none) :
    m.AtRest where
  queue := hr.calm_of_sound.queue
  owner := hr.calm_of_sound.free (idle_of_settled hs hf).1
  alive := hf
  unarmed := hr.unarmed.1
  running := (idle_of_settled hs hf).1
  ready := (idle_of_settled hs hf).2

/-- Between two steps of a run in which nothing fails. -/
structure Poised (sch : GuardId → Scheme) (m : Machine) : Prop extends m.Free where
  running : m.running = none
  ready : m.ready = []
  nodup : m.sleepers.Nodup
  busy : ∀ t, t ∈ m.sleepers ↔ (m.tasks t).isSome = true
  asleep : ∀ t ∈ m.sleepers, m.Waits sch t

theorem Reaches.poised (hr : Reaches s (Step.Smooth s sch) (.start cells) m h) (hs : m.settled = true)
    (hf : m.fate = none) : m.Poised sch := by
  have hm := hr.sound.atRest hs hf
  have hk := hr.drives.keeps
  have hseats : m.seats = m.sleepers := by simp [seats, hm.running, hm.ready, hm.queue]
  exact {
    hm.toFree with
    running := hm.running
    ready := hm.ready
    nodup := hseats ▸ hk.seated.nodup
    busy := fun t => hseats ▸ hk.seated.busy t
    asleep := by
      intro t ht
      obtain ⟨k, me, ha⟩ := hk.path.watched t ht
      have hq := hk.path.tasks (P := fun op p => p.Suits op) (fun _ _ => id) (fun _ => rfl) t k ha.task
      refine ⟨k, me, ⟨ha.task, ha.acquires, ha.waking, hr.scheme_eq ha.task, hq, ha.known⟩, ?_⟩
      refine ha.watched.resolve_right fun hw => ?_
      have hb : Botched k.guard (sinceSlept t h) :=
        hk.path.accounted.botched (fun u k' hk' => hk.seated.not_late hs hk') hw
      exact not_botched hr.sound.unarmed.2 hb }

inductive Begins (s : Setup) (sch : GuardId → Scheme) (m : Machine) : Machine × List Event → Prop
  | nothing {es : List Event} (notes : ∀ e ∈ es, e.isNote = true) : Begins s sch m (m, es)
  | wakes {t : ThreadId} (asleep : t ∈ m.sleepers) :
      Begins s sch m ({ m with running := some t, sleepers := m.sleepers.erase t }, [])
  | starts {t : ThreadId} {k : Task} {kind : GuardKind} {other : Option Scheme} {a : Action}
      (free : m.tasks t = none) (kinds : s.kinds k.guard = some kind)
      (task : kind.task? s.build k.guard other a = some k) (scheme : k.scheme = sch k.guard) :
      Begins s sch m (m.launch t k)
  | closes {t : ThreadId} {f : Frame} {rest : List Frame} (e : Ending) (free : m.tasks t = none)
      (top : m.frames t = f :: rest) :
      Begins s sch m (emit (.closed t f.guard f.fallible e)
        (launch { m with frames := put m.frames t rest } t (f.task s.build e)))

theorem Poised.atRest (hp : m.Poised sch) : m.AtRest := { hp.toFree with running := hp.running, ready := hp.ready }

theorem Poised.settled (hp : m.Poised sch) : m.settled = true := hp.atRest.settled

theorem Poised.of_frames (hp : m.Poised sch) (fs : ThreadId → List Frame) : Poised sch { m with frames := fs } :=
  ⟨⟨hp.queue, hp.owner, hp.alive, hp.unarmed⟩, hp.running, hp.ready, hp.nodup, hp.busy, fun t ht =>
    have ⟨k, me, hd, hk⟩ := hp.asleep t ht
    ⟨k, me, ⟨hd.task, hd.acquires, hd.waking, hd.scheme, hd.suits, hd.known⟩, hk⟩⟩

theorem Poised.begins (hp : m.Poised sch) {st : OnceInit.Step} (hs : st.Smooth s sch) :
    Begins s sch m (m.begin s st) := by
  obtain ⟨hd, hn⟩ := hs
  have ho := onset s m st
  generalize m.begin s st = r at ho ⊢
  cases ho with
  | @armed c f => exact absurd rfl (hn c f)
  | poked => exact hd.elim
  | freed =>
    have hu : m.unlock = m := by
      have hq := hp.queue
      have ho := hp.owner
      cases m
      simp_all [unlock]
    rw [hu]
    exact .nothing (by simp)
  | skipped | declined => exact .nothing (by simp [Event.isNote])
  | woken ht => exact .wakes ht
  | @launched t k kind other a free hkind hk => exact .starts free hkind hk (hd kind k hkind hk).1
  | @closed t f rest e free top => exact .closes e free top

end Machine
end OnceInit

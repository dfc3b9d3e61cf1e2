import OnceInit.Proofs.Reach

/-! Every run of a process keeps a ledger: what its threads do, turn by turn, obeys the rules of guards. This holds as
long as no cell is overwritten from outside and each guard is driven by one scheme. -/

open List (Perm)

namespace OnceInit

/-- A step that overwrites no cell, drives every guard `g` by `sch g`, and has only such operations begun as `ok`
allows. -/
def Step.Drives (s : Setup) (sch : GuardId → Scheme) (ok : Op → Purpose → Prop) : OnceInit.Step → Prop
  | .poke .. => False
  | .act _ g other (some a) => ∀ kind k, s.kinds g = some kind → kind.task? s.build g other a = some k →
      k.scheme = sch g ∧ ok k.op k.purpose
  | _ => True

def Setup.plain (c : Scheme) : Setup := ⟨.standard, false, fun _ => some (.plain c), fun t => t + 1⟩

theorem Setup.plain_drives (c : Scheme) (t : ThreadId) (g : GuardId) (a : Action) :
    Step.Drives (.plain c) (fun _ => c) (fun _ _ => True) (.act t g none (some a)) := by
  intro kind k hk ht
  cases hk
  cases a <;> cases ht <;> exact ⟨rfl, trivial⟩

namespace Ledger.Path

variable {sch : GuardId → Scheme} {ok : Op → Purpose → Prop} {l₀ l l' : Ledger} {t : ThreadId} {d : Deed}

theorem move (hp : Path sch (Deed.Within ok) l₀ l) (hs : l.Step sch t d l')
    (hb : ∀ op p, d ≠ .begin op p) (ht : d ≠ .took) : Path sch (Deed.Within ok) l₀ l' :=
  hp.step (fun op p e => absurd e (hb op p)) (fun e => absurd e ht) hs

theorem tell {es : List Event} (hp : Path sch (Deed.Within ok) l₀ l)
    (hn : ∀ e ∈ es, e.isNote = true) : Path sch (Deed.Within ok) l₀ (l.add es) :=
  hp.add (fun op p e => by cases e) hn

end Ledger.Path

theorem GuardKind.task?_managed {b : Build} {g : GuardId} {other : Option Scheme} {a : Action} {k : Task}
    (hk : managed.task? b g other a = some k) : k.scheme = b.scheme ∧ k.purpose.hearsFailures = false := by
  cases a <;> cases hk <;> exact ⟨rfl, rfl⟩

theorem GuardKind.scheme_of_opening {kind : GuardKind} {b : Build} {g : GuardId} {other : Option Scheme}
    {a : Action} {k : Task} {fallible : Bool} (hk : kind.task? b g other a = some k)
    (hp : k.purpose = .opening fallible) : k.scheme = b.scheme := by
  unfold GuardKind.task? at hk
  split at hk <;> cases hk <;> first | rfl | cases hp

theorem Task.mem_opens {k : Task} {v : Value} {f : Frame} (hf : f ∈ k.opens v) :
    f.guard = k.guard ∧ k.purpose = .opening f.fallible ∧ v = .granted true := by
  unfold Task.opens at hf
  split at hf
  · next hp => rw [List.mem_singleton.mp hf]; exact ⟨rfl, hp, rfl⟩
  · cases hf

theorem Next.mem_frames {k : Task} {n : Next} {f : Frame} (hf : f ∈ n.frames k) :
    f.guard = k.guard ∧ k.purpose = .opening f.fallible ∧ n = .finish (.gives (.granted true)) := by
  unfold Next.frames at hf
  split at hf
  · obtain ⟨h₁, h₂, rfl⟩ := Task.mem_opens hf
    exact ⟨h₁, h₂, rfl⟩
  · cases hf

namespace Machine

variable {s : Setup} {sch : GuardId → Scheme} {ok : Op → Purpose → Prop} {cells : GuardId → Cell} {l₀ : Ledger}
  {m m₁ : Machine} {h es : List Event} {t : ThreadId} {k : Task} {n : Next}

theorem idle_of_settled (hs : m.settled = true) (hf : m.fate = none) :
    m.running = none ∧ m.ready = [] := by
  simpa [settled, hf] using hs

theorem Seated.launch (hs : m.Seated) (hr : m.running = none) (hf : m.fate = none)
    (free : m.tasks t = none) (k : Task) : (m.launch t k).1.Seated := by
  have hn : t ∉ m.seats := by
    rw [hs.busy, free]
    simp
  have he : (m.launch t k).1.seats = t :: m.seats := by
    simp [seats, Machine.launch, hr]
  refine ⟨?_, ?_, ?_, fun h => absurd hf h⟩
  · rw [he]
    exact List.nodup_cons.mpr ⟨hn, hs.nodup⟩
  · intro u
    rw [he, List.mem_cons]
    by_cases hut : u = t
    · simp [Machine.launch, hut]
    · rw [or_iff_right hut, hs.busy u]
      simp [Machine.launch, put_of_ne _ _ hut]
  · intro u k' hk' hu
    have hut : u ≠ t := fun e => hu (e ▸ rfl)
    exact hs.parked u k' ((put_of_ne _ _ hut).symm.trans hk') (by simp [hr])

theorem Seated.begin (hs : m.Seated) (hm : m.settled = true) (hf : m.fate = none)
    (st : OnceInit.Step) : (m.begin s st).1.Seated := by
  obtain ⟨hr, -⟩ := idle_of_settled hm hf
  have ho := onset s m st
  generalize m.begin s st = r at ho ⊢
  cases ho with
  | armed | poked => exact hs.of_perm (.refl _) rfl rfl rfl
  | freed => exact hs.of_perm (seats_unlock m) rfl rfl rfl
  | skipped | declined => exact hs
  | @woken t ht =>
    have hp : Perm (seats { m with running := some t, sleepers := m.sleepers.erase t }) m.seats := by
      simp only [seats, hr, Option.toList_some, Option.toList_none, List.singleton_append, List.nil_append]
      refine Perm.trans ?_ ((List.perm_cons_erase ht).symm.append_left _)
      exact List.perm_middle.symm
    refine ⟨hp.nodup_iff.mpr hs.nodup, fun u => hp.mem_iff.trans (hs.busy u), ?_, fun h => absurd hf h⟩
    exact fun u k hk _ => hs.parked u k hk (by simp [hr])
  | launched free => exact hs.launch hr hf free _
  | @closed t f rest e free =>
    have hs' : Seated { m with frames := put m.frames t rest } := hs.of_perm (.refl _) rfl rfl rfl
    exact hs'.launch hr hf free _

def ledger (m : Machine) (h : List Event) : Ledger where
  cells := m.cells
  tasks := m.tasks
  sleepers := m.sleepers
  known := m.tokens.known
  frames := m.frames
  fate := m.fate
  past := h

theorem Seated.awake (hs : m.Seated) (hr : m.running = some t) : t ∉ m.sleepers := by
  have hn := hs.nodup
  rw [seats, hr] at hn
  intro ht
  simp [ht] at hn

theorem Seated.vacant (hs : m.Seated) (hr : m.running = some t) (hk : m.tasks t = some k)
    (hp : k.point = .contending ∨ k.point = .waking) : (m.ledger h).Vacant := by
  intro u k' hk'
  have hp' : k'.point = .contending ∨ k'.point = .waking := by
    by_cases hu : u = t
    · subst hu
      cases hk.symm.trans hk'
      exact hp
    · refine hs.parked u k' hk' ?_
      rw [hr]
      exact fun e => hu (Option.some.inj e).symm
  rcases hp' with hp' | hp' <;> rw [hp'] <;> rfl

theorem Act.step (sch : GuardId → Scheme) (h : List Event) (ha : Act s m t k m₁ es n) (hs : m.Seated)
    (hr : m.running = some t) (hk : m.tasks t = some k) :
    ∃ d, (m.ledger h).Step sch t d ((m₁.advance t k n).ledger (h ++ (es ++ n.report t k))) ∧
      (d = .took → (m.ledger h).Vacant) ∧ ∀ op p, d ≠ .begin op p := by
  have ht := hs.awake hr
  cases ha with
  | refused hn hc => exact ⟨_, .refused _ hk ht hn, nofun, nofun⟩
  | lock hn => exact ⟨_, .called hk ht hn, nofun, nofun⟩
  | unlock hn => exact ⟨_, .called hk ht hn, nofun, nofun⟩
  | broadcast hn => exact ⟨_, .called hk ht hn, nofun, nofun⟩
  | took hn free =>
    exact ⟨_, .took hk ht hn, fun _ => hs.vacant hr hk (Task.after_take hn).1, nofun⟩
  | read hn => exact ⟨_, .read hk ht hn, nofun, nofun⟩
  | asked hn =>
    refine ⟨.asked, ?_, nofun, nofun⟩
    have hq : (m.register s t).tokens.known = put m.tokens.known t (some (m.token s t)) :=
      Registry.known_ask_eq ..
    have hst : (m.ledger h).Step sch t .asked _ := .asked (m.token s t) hk ht hn
      fun x hx => by rw [token, Registry.ask_known hx]
    rw [show (m.ledger h).known = m.tokens.known from rfl, ← hq] at hst
    exact hst
  | wrote hn => exact ⟨_, .wrote hk ht hn, nofun, nofun⟩

structure Framed (s : Setup) (sch : GuardId → Scheme) (m : Machine) : Prop where
  frames : ∀ t, ∀ f ∈ m.frames t, sch f.guard = s.build.scheme
  opening : ∀ t k b, m.tasks t = some k → k.purpose = .opening b → sch k.guard = s.build.scheme

theorem Framed.of_eq {m' : Machine} (hf : m.Framed s sch) (hm : m'.frames = m.frames)
    (ht : m'.tasks = m.tasks) : m'.Framed s sch where
  frames := by rw [hm]; exact hf.frames
  opening := by rw [ht]; exact hf.opening

theorem Framed.put_frames {m' : Machine} {fs : List Frame} (hf : m.Framed s sch)
    (hm : m'.frames = put m.frames t fs) (ht : m'.tasks = m.tasks)
    (hs : ∀ f ∈ fs, sch f.guard = s.build.scheme) : m'.Framed s sch where
  frames := by
    intro u f hu
    rw [hm] at hu
    by_cases hut : u = t
    · subst hut
      exact hs f (put_same m.frames u fs ▸ hu)
    · exact hf.frames u f (put_of_ne m.frames fs hut ▸ hu)
  opening := by rw [ht]; exact hf.opening

theorem Framed.put_tasks {m' : Machine} {a : Option Task} (hf : m.Framed s sch)
    (hm : m'.frames = m.frames) (ht : m'.tasks = put m.tasks t a)
    (ha : ∀ k b, a = some k → k.purpose = .opening b → sch k.guard = s.build.scheme) :
    m'.Framed s sch where
  frames := by rw [hm]; exact hf.frames
  opening := by
    intro u k b hk hp
    rw [ht] at hk
    by_cases hu : u = t
    · subst hu
      exact ha k b ((put_same ..).symm.trans hk) hp
    · exact hf.opening u k b ((put_of_ne _ _ hu).symm.trans hk) hp

theorem Framed.advance (hf : m.Framed s sch) (hk : m.tasks t = some k) (n : Next) :
    (m.advance t k n).Framed s sch := by
  have hf' : Framed s sch { m with frames := put m.frames t (n.frames k ++ m.frames t) } := by
    refine hf.put_frames rfl rfl ?_
    intro f hm
    rcases List.mem_append.mp hm with hm | hm
    · obtain ⟨hg, hp, -⟩ := Next.mem_frames hm
      rw [hg]
      exact hf.opening t k _ hk hp
    · exact hf.frames t f hm
  refine hf'.put_tasks rfl rfl ?_
  intro k' b ha hp
  rw [Task.after_eq ha] at hp ⊢
  exact hf.opening t k b hk hp

theorem Framed.played (hf : m.Framed s sch) (hk : m.tasks t = some k) {r : Machine × List Event}
    (hp : Played s m t k r) : r.1.Framed s sch := by
  cases hp with
  | act ha =>
    obtain ⟨-, h₂, h₃, -, -⟩ := ha.frame
    exact (hf.of_eq h₃ h₂).advance (h₂ ▸ hk) _
  | slept hn =>
    refine hf.put_tasks rfl rfl ?_
    rintro k' b ⟨⟩ hp
    exact hf.opening t k b hk hp
  | parked => exact hf.of_eq rfl rfl

theorem Framed.begin (hf : m.Framed s sch) {st : OnceInit.Step} (hd : st.Drives s sch ok) :
    (m.begin s st).1.Framed s sch := by
  have ho := onset s m st
  generalize m.begin s st = r at ho ⊢
  cases ho with
  | armed | poked | freed | woken => exact hf.of_eq rfl rfl
  | skipped | declined => exact hf
  | @launched t k kind other a _ hkind hk =>
    refine hf.put_tasks rfl rfl ?_
    rintro k' b ⟨⟩ hp
    rw [← (hd kind k hkind hk).1]
    exact GuardKind.scheme_of_opening hk hp
  | @closed t f rest e _ top =>
    have hf' : Framed s sch { m with frames := put m.frames t rest } :=
      hf.put_frames rfl rfl fun x hx => hf.frames t x (top ▸ List.mem_cons_of_mem f hx)
    refine hf'.put_tasks rfl rfl ?_
    rintro k' b ⟨⟩ hp
    cases hp

structure Keeps (s : Setup) (sch : GuardId → Scheme) (ok : Op → Purpose → Prop) (l₀ : Ledger)
    (m : Machine) (h : List Event) : Prop where
  seated : m.Seated
  framed : m.Framed s sch
  path : Ledger.Path sch (Deed.Within ok) l₀ (m.ledger h)

theorem keeps_start (s : Setup) (sch : GuardId → Scheme) (ok : Op → Purpose → Prop)
    (cells : GuardId → Cell) : Keeps s sch ok (.start cells) (start cells) [] where
  seated := seated_start cells
  framed := ⟨fun _ _ hf => (nomatch hf), fun _ _ _ hk => (nomatch hk)⟩
  path := .refl

theorem Keeps.turn (hm : Keeps s sch ok l₀ m h) (hu : m.settled = false) :
    Keeps s sch ok l₀ (m.turn s).1 (h ++ (m.turn s).2) := by
  refine ⟨hm.seated.turn hu, ?_, ?_⟩
  · obtain ⟨-, ⟨t, k, -, hk, hp⟩ | ⟨t, rest, -, -, ht⟩⟩ := hm.seated.turn_cases (s := s) hu
    · exact hm.framed.played hk hp
    · rw [ht]
      exact hm.framed.of_eq rfl rfl
  · obtain ⟨-, ⟨t, k, hr, hk, hp⟩ | ⟨t, rest, hr, hq, ht⟩⟩ := hm.seated.turn_cases (s := s) hu
    · generalize m.turn s = r at hp
      cases hp with
      | @act m₁ es n ha =>
        obtain ⟨d, hd, hv, hb⟩ := ha.step sch h hm.seated hr hk
        have hw : d.Within ok := fun op p e => absurd e (hb op p)
        have hp := (hm.path.step hw hv hd).tell (isNote_notes s t k n)
        simpa only [ledger, Ledger.add, List.append_assoc] using hp
      | slept hn =>
        have hd : (m.ledger h).Step sch t (.called .wait) _ := .called hk (hm.seated.awake hr) hn
        have hp := (hm.path.move hd (by simp) (by simp)).tell
          (List.forall_mem_singleton.mpr (rfl : (Event.answer t .waiting).isNote = true))
        simpa [ledger, Ledger.add, Ledger.advance, Next.frames, Next.doom, Next.report, Next.after,
          Call.marks, Call.sleepers, unlock, spend] using hp
      | parked => exact hm.path.tell (by simp [park, Event.isNote])
    · rw [ht, List.append_nil]
      exact hm.path

theorem Keeps.begin (hm : Keeps s sch ok l₀ m h) (hs : m.settled = true) (hf : m.fate = none)
    {st : OnceInit.Step} (hd : st.Drives s sch ok) :
    Keeps s sch ok l₀ (m.begin s st).1 (h ++ (m.begin s st).2) := by
  refine ⟨hm.seated.begin hs hf st, hm.framed.begin hd, ?_⟩
  have note : ∀ e : Event, e.isNote = true →
      Ledger.Path sch (Deed.Within ok) l₀ (m.ledger (h ++ [e])) := by
    intro e he
    exact hm.path.tell (by simpa using he)
  have ho := onset s m st
  generalize m.begin s st = r at ho ⊢
  cases ho with
  | armed | freed =>
    rw [List.append_nil]
    exact hm.path
  | poked => exact hd.elim
  | skipped | declined => exact note _ rfl
  | @woken t =>
    rw [List.append_nil]
    exact hm.path.move (t := t) .wake (by simp) (by simp)
  | @launched t k kind other a free hkind hk =>
    obtain ⟨hsc, hok⟩ := hd kind k hkind hk
    have hst : (m.ledger h).Step sch t (.begin k.op k.purpose) _ := .begin k.op k.guard k.purpose free
    rw [← hsc, ← GuardKind.task?_eq hk] at hst
    refine hm.path.step ?_ (by simp) hst
    rintro op p ⟨⟩
    exact hok
  | @closed t f rest e free top =>
    have hst : (m.ledger h).Step sch t (.close e) _ := .close e free top
    rw [hm.framed.frames t f (by simp [top])] at hst
    have hp := hm.path.move hst (by simp) (by simp)
    simpa [ledger, Ledger.launch, Ledger.add, emit, Machine.launch, Frame.task, Task.start] using hp

theorem Keeps.reaches {m' : Machine} {h' : List Event} (hm : Keeps s sch ok l₀ m h)
    (hr : Reaches s (Step.Drives s sch ok) m m' h') : Keeps s sch ok l₀ m' (h ++ h') := by
  induction hr with
  | start => rwa [List.append_nil]
  | begin st _ hs hf hd ih =>
    rw [← List.append_assoc]
    exact ih.begin hs hf hd
  | turn _ hu ih =>
    rw [← List.append_assoc]
    exact ih.turn hu

theorem Reaches.keeps (hr : Reaches s (Step.Drives s sch ok) (.start cells) m h) :
    Keeps s sch ok (.start cells) m h :=
  (keeps_start s sch ok cells).reaches hr

end Machine
end OnceInit

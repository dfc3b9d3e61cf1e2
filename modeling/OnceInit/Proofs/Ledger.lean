import OnceInit.Proofs.Assertion
import OnceInit.Proofs.History

/-! The rules of guards without a platform. A ledger keeps the cells, what each thread is at, and the history. Any
thread that is awake may do the next thing that its task asks for, in any order; the one promise made by a
platform is that the mutex is taken only while nobody is inside of it. A call may be refused at any time, and a
sleeper may wake for no reason. -/

namespace OnceInit

def Event.isNote : Event → Bool
  | .call _ .locked | .call _ .blocked | .call _ .unlocked | .call _ .woke => true
  | .read .. | .log .. | .answer .. | .skip _ => true
  | _ => false

namespace Next

def frames (k : Task) : Next → List Frame
  | .finish (.gives v) => k.opens v
  | _ => []

def doom (k : Task) : Next → Option Failure
  | .finish (.fails f) => if k.purpose.hearsFailures then none else some f
  | _ => none

def report (t : ThreadId) (k : Task) : Next → List Event
  | .finish (.gives v) =>
    .ended t k.op k.guard (.gives v) :: (k.opens v).map fun f => .opened t f.guard
  | .finish (.fails f) => [.ended t k.op k.guard (.fails f)]
  | _ => []

end Next

namespace Call

def marks (t : ThreadId) : Call → List Event
  | lock => []
  | unlock => [.call t .unlocked]
  | wait => [.call t .slept]
  | broadcast => [.call t .announced]

def sleepers (t : ThreadId) (asleep : List ThreadId) : Call → List ThreadId
  | wait => asleep ++ [t]
  | broadcast => []
  | lock | unlock => asleep

end Call

structure Ledger where
  cells : GuardId → Cell
  tasks : ThreadId → Option Task
  sleepers : List ThreadId
  known : ThreadId → Option Token
  frames : ThreadId → List Frame
  fate : Option Failure
  past : List Event

inductive Deed
  | note
  | begin (op : Op) (p : Purpose)
  | close (e : Ending)
  | wake
  | called (c : Call)
  | refused (c : Call)
  | took
  | read
  | asked
  | wrote

def Deed.Within (ok : Op → Purpose → Prop) (d : Deed) : Prop := ∀ op p, d = .begin op p → ok op p

namespace Ledger

def start (cells : GuardId → Cell) : Ledger where
  cells := cells
  tasks := fun _ => none
  sleepers := []
  known := fun _ => none
  frames := fun _ => []
  fate := none
  past := []

def add (l : Ledger) (es : List Event) : Ledger := { l with past := l.past ++ es }

def advance (l : Ledger) (t : ThreadId) (k : Task) (es : List Event) (n : Next) : Ledger :=
  { l with
    tasks := put l.tasks t (n.after k)
    frames := put l.frames t (n.frames k ++ l.frames t)
    fate := (n.doom k).or l.fate
    past := l.past ++ (es ++ n.report t k) }

@[simp] theorem advance_cells (l : Ledger) (t : ThreadId) (k : Task) (es : List Event) (n : Next) :
    (l.advance t k es n).cells = l.cells := rfl

@[simp] theorem advance_known (l : Ledger) (t : ThreadId) (k : Task) (es : List Event) (n : Next) :
    (l.advance t k es n).known = l.known := rfl

def launch (l : Ledger) (t : ThreadId) (k : Task) : Ledger :=
  { l with tasks := put l.tasks t (some k), past := l.past ++ [.began t k.op k.guard] }

/-- One thing that `t` does. Guard `g` is driven by the scheme `sch g`. -/
inductive Step (sch : GuardId → Scheme) (l : Ledger) (t : ThreadId) : Deed → Ledger → Prop
  | note {e : Event} (hn : e.isNote = true) : Step sch l t .note (l.add [e])
  | begin (op : Op) (g : GuardId) (p : Purpose) (free : l.tasks t = none) :
      Step sch l t (.begin op p) (l.launch t (.start op g (sch g) p))
  | close {f : Frame} {rest : List Frame} (e : Ending) (free : l.tasks t = none)
      (hf : l.frames t = f :: rest) :
      Step sch l t (.close e) (launch { l.add [.closed t f.guard f.fallible e] with frames := put l.frames t rest } t
        (.start (e.within f.fallible).op f.guard (sch f.guard) (.closing (e.within f.fallible))))
  | wake : Step sch l t .wake { l with sleepers := l.sleepers.erase t }
  | called {k : Task} {c : Call} {n : Next} {r : Int → Next} (hk : l.tasks t = some k)
      (awake : t ∉ l.sleepers) (hn : k.node = .call c n r) :
      Step sch l t (.called c)
        { l.advance t k (c.marks t) n with sleepers := c.sleepers t l.sleepers }
  | refused {k : Task} {c : Call} {n : Next} {r : Int → Next} (code : Int) (hk : l.tasks t = some k)
      (awake : t ∉ l.sleepers) (hn : k.node = .call c n r) :
      Step sch l t (.refused c) (l.advance t k [.call t (.refused c code)] (r code))
  | took {k : Task} {w : Bool} {n : Next} (hk : l.tasks t = some k) (awake : t ∉ l.sleepers)
      (hn : k.node = .take w n) :
      Step sch l t .took (l.advance t k [.call t (if w then .woke else .locked)] n)
  | read {k : Task} {f : Cell → Next} (hk : l.tasks t = some k) (awake : t ∉ l.sleepers)
      (hn : k.node = .read f) :
      Step sch l t .read
        (l.advance t k [.read t k.guard (l.cells k.guard)] (f (l.cells k.guard)))
  | asked {k : Task} {f : Token → Next} (me : Token) (hk : l.tasks t = some k)
      (awake : t ∉ l.sleepers) (hn : k.node = .ask f) (hm : ∀ x, l.known t = some x → x = me) :
      Step sch l t .asked { l.advance t k [] (f me) with known := put l.known t (some me) }
  | wrote {k : Task} {new : Width → Cell} {n : Next} (hk : l.tasks t = some k)
      (awake : t ∉ l.sleepers) (hn : k.node = .write new n) :
      Step sch l t .wrote
        { l.advance t k [.write t k.op k.guard (new (l.cells k.guard).width)] n with
          cells := put l.cells k.guard (new (l.cells k.guard).width) }

def Vacant (l : Ledger) : Prop := ∀ t k, l.tasks t = some k → k.point.inside = false

/-- The ledgers that deeds allowed by `ok` lead to. -/
inductive Path (sch : GuardId → Scheme) (ok : Deed → Prop) (l₀ : Ledger) : Ledger → Prop
  | refl : Path sch ok l₀ l₀
  | step {l l' : Ledger} {t : ThreadId} {d : Deed} (path : Path sch ok l₀ l) (allowed : ok d)
      (vacant : d = .took → l.Vacant) (step : l.Step sch t d l') : Path sch ok l₀ l'

variable {sch : GuardId → Scheme} {ok : Deed → Prop} {l₀ l l' : Ledger} {t u : ThreadId} {d : Deed}

theorem Path.add {es : List Event} (hp : Path sch ok l₀ l) (hk : ok .note)
    (hn : ∀ e ∈ es, e.isNote = true) : Path sch ok l₀ (l.add es) := by
  induction es generalizing l with
  | nil => simpa [Ledger.add] using hp
  | cons e es ih =>
    have h₁ : Path sch ok l₀ (l.add [e]) :=
      hp.step (t := 0) hk nofun (.note (hn e (by simp)))
    have h₂ := ih h₁ fun x hx => hn x (by simp [hx])
    simpa [Ledger.add] using h₂

theorem Step.past (hs : l.Step sch t d l') : ∃ es, l'.past = l.past ++ es := by
  cases hs with
  | note | begin | called | refused | took | read | asked | wrote => exact ⟨_, rfl⟩
  | close => exact ⟨_, List.append_assoc ..⟩
  | wake => exact ⟨[], (List.append_nil _).symm⟩

theorem Step.tasks_of_ne (hs : l.Step sch t d l') (hu : u ≠ t) : l'.tasks u = l.tasks u := by
  cases hs with
  | note | wake => rfl
  | begin | close | called | refused | took | read | asked | wrote => exact put_of_ne _ _ hu

theorem Step.task_cases {k' : Task} (hs : l.Step sch t d l') (hk' : l'.tasks t = some k') :
    (∃ k, l.tasks t = some k ∧ k' = { k with point := k'.point }) ∨
      (∃ op g p, d = .begin op p ∧ k' = .start op g (sch g) p) ∨
      ∃ e g, k' = .start e.op g (sch g) (.closing e) := by
  cases hs with
  | note | wake => exact .inl ⟨k', hk', rfl⟩
  | begin op g p =>
    cases (put_same ..).symm.trans hk'
    exact .inr (.inl ⟨op, g, p, rfl, rfl⟩)
  | close e =>
    cases (put_same ..).symm.trans hk'
    exact .inr (.inr ⟨_, _, rfl⟩)
  | called hk | refused _ hk | took hk | read hk | asked _ hk | wrote hk =>
    exact .inl ⟨_, hk, Task.after_eq ((put_same ..).symm.trans hk')⟩

theorem Step.known_of_ne (hs : l.Step sch t d l') (hu : u ≠ t) : l'.known u = l.known u := by
  cases hs with
  | asked => exact put_of_ne _ _ hu
  | note | begin | close | wake | called | refused | took | read | wrote => rfl

theorem Step.known_mono {me : Token} (hs : l.Step sch t d l') (hm : l.known u = some me) :
    l'.known u = some me := by
  by_cases hu : u = t
  · subst hu
    cases hs with
    | asked x _ _ _ hx => simpa using (hx me hm).symm
    | note | begin | close | wake | called | refused | took | read | wrote => exact hm
  · rw [hs.known_of_ne hu, hm]

theorem Step.cells_eq (hs : l.Step sch t d l') :
    l'.cells = l.cells ∨ ∃ k, l.tasks t = some k ∧ k.point.inside = true := by
  cases hs with
  | wrote hk _ hn => exact .inr ⟨_, hk, Task.inside_of_write hn⟩
  | note | begin | close | wake | called | refused | took | read | asked => exact .inl rfl

structure Sound (sch : GuardId → Scheme) (l : Ledger) : Prop where
  alone : ∀ t u k k', l.tasks t = some k → l.tasks u = some k' → k.point.inside = true →
    k'.point.inside = true → t = u
  fits : ∀ t k, l.tasks t = some k →
    k.scheme = sch k.guard ∧ k.Fits (l.cells k.guard) (l.known t)

theorem sound_start (cells : GuardId → Cell) : Sound sch (start cells) where
  alone := by
    intro t u k k' hk
    cases hk
  fits := by
    intro t k hk
    cases hk

theorem Sound.outside_of_ne (hl : l.Sound sch) {k k' : Task} (hk : l.tasks t = some k)
    (hi : k.point.inside = true) (hu : u ≠ t) (hk' : l.tasks u = some k') :
    k'.point.inside = false := by
  cases ho : k'.point.inside with
  | false => rfl
  | true => exact absurd (hl.alone u t k' k hk' hk ho hi) hu

theorem Sound.fits_next (hl : l.Sound sch) (hs : l.Step sch t d l') {k' : Task}
    (hk' : l'.tasks t = some k') :
    k'.scheme = sch k'.guard ∧ k'.Fits (l'.cells k'.guard) (l'.known t) := by
  have hg : ∀ {k : Task} {n : Next}, l.tasks t = some k → n.after k = some k' →
      k'.scheme = sch k'.guard ∧ k'.guard = k.guard := by
    intro k n hk ha
    rw [Task.after_eq ha]
    exact ⟨(hl.fits t k hk).1, rfl⟩
  cases hs with
  | note | wake => exact hl.fits t k' hk'
  | begin op g p =>
    cases (put_same _ _ _).symm.trans hk'
    exact ⟨rfl, Task.fits_start ..⟩
  | close e =>
    cases (put_same _ _ _).symm.trans hk'
    exact ⟨rfl, Task.fits_start ..⟩
  | @called k c n r hk _ hn =>
    have ha : n.after k = some k' := (put_same _ _ _).symm.trans hk'
    obtain ⟨h₁, h₂⟩ := hg hk ha
    refine ⟨h₁, ?_⟩
    rw [h₂]
    exact (Task.fits_called (hl.fits t k hk).2 hn ha).1
  | @refused k c n r code hk _ hn =>
    have ha : (r code).after k = some k' := (put_same _ _ _).symm.trans hk'
    rw [Task.after_refused hn] at ha
    cases ha
  | @took k w n hk _ hn =>
    have ha : n.after k = some k' := (put_same _ _ _).symm.trans hk'
    exact ⟨(hg hk ha).1, Task.fits_took hn ha⟩
  | @read k f hk _ hn =>
    have ha : (f (l.cells k.guard)).after k = some k' := (put_same _ _ _).symm.trans hk'
    obtain ⟨h₁, h₂⟩ := hg hk ha
    refine ⟨h₁, ?_⟩
    rw [h₂]
    exact Task.fits_read (hl.fits t k hk).2 hn ha
  | @asked k f me hk _ hn =>
    have ha : (f me).after k = some k' := (put_same _ _ _).symm.trans hk'
    obtain ⟨h₁, h₂⟩ := hg hk ha
    refine ⟨h₁, ?_⟩
    rw [h₂]
    simpa using Task.fits_asked (hl.fits t k hk).2 hn ha
  | @wrote k new n hk _ hn =>
    have ha : n.after k = some k' := (put_same _ _ _).symm.trans hk'
    obtain ⟨h₁, h₂⟩ := hg hk ha
    refine ⟨h₁, ?_⟩
    rw [h₂]
    simpa using Task.fits_wrote (hl.fits t k hk).2 hn ha

theorem Step.inside_next (hs : l.Step sch t d l') (hl : l.Sound sch) (hv : d = .took → l.Vacant)
    {k' : Task} (hk' : l'.tasks t = some k') (hi : k'.point.inside = true) {v : Task} (hu : u ≠ t)
    (hk : l.tasks u = some v) : v.point.inside = false := by
  cases hs with
  | note | wake => exact hl.outside_of_ne hk' hi hu hk
  | begin op g p =>
    cases (put_same _ _ _).symm.trans hk'
    cases hi
  | close e =>
    cases (put_same _ _ _).symm.trans hk'
    cases hi
  | @called k c n r hkt _ hn =>
    have ha : n.after k = some k' := (put_same _ _ _).symm.trans hk'
    rw [(Task.fits_called (hl.fits t k hkt).2 hn ha).2] at hi
    cases hi
  | @refused k c n r code _ _ hn =>
    have ha : (r code).after k = some k' := (put_same _ _ _).symm.trans hk'
    rw [Task.after_refused hn] at ha
    cases ha
  | took => exact hv rfl u v hk
  | read hkt _ hn => exact hl.outside_of_ne hkt (Task.inside_of_read hn) hu hk
  | asked _ hkt _ hn => exact hl.outside_of_ne hkt (Task.inside_of_ask hn) hu hk
  | wrote hkt _ hn => exact hl.outside_of_ne hkt (Task.inside_of_write hn) hu hk

theorem Sound.step (hl : l.Sound sch) (hs : l.Step sch t d l') (hv : d = .took → l.Vacant) :
    l'.Sound sch where
  alone := by
    intro u v k k' hk hk' hi hi'
    by_contra hne
    by_cases hu : u = t
    · subst hu
      have hv' : v ≠ u := fun h => hne h.symm
      rw [hs.tasks_of_ne hv'] at hk'
      rw [hs.inside_next hl hv hk hi hv' hk'] at hi'
      cases hi'
    · rw [hs.tasks_of_ne hu] at hk
      by_cases hw : v = t
      · subst hw
        rw [hs.inside_next hl hv hk' hi' hu hk] at hi
        cases hi
      · rw [hs.tasks_of_ne hw] at hk'
        exact hne (hl.alone u v k k' hk hk' hi hi')
  fits := by
    intro u k hk
    by_cases hu : u = t
    · subst hu
      exact hl.fits_next hs hk
    · rw [hs.tasks_of_ne hu] at hk
      obtain ⟨h₁, h₂⟩ := hl.fits u k hk
      refine ⟨h₁, ?_⟩
      rw [hs.known_of_ne hu]
      rcases hs.cells_eq with hc | ⟨k', hk', hi⟩
      · rw [hc]
        exact h₂
      · exact h₂.outside (hl.outside_of_ne hk' hi hu hk) _ _

theorem Path.sound {cells : GuardId → Cell} (hp : Path sch ok (start cells) l) : l.Sound sch := by
  induction hp with
  | refl => exact sound_start cells
  | step _ _ hv hs ih => exact ih.step hs hv

theorem Path.tasks {cells : GuardId → Cell} {ok P : Op → Purpose → Prop} (hb : ∀ op p, ok op p → P op p)
    (hc : ∀ e : Ending, P e.op (.closing e)) (hp : Path sch (Deed.Within ok) (start cells) l) :
    ∀ t k, l.tasks t = some k → P k.op k.purpose := by
  induction hp with
  | refl => exact fun t k hk => nomatch hk
  | @step l l' t d _ hd _ hs ih =>
    intro u k' hk'
    by_cases hu : u = t
    · subst hu
      rcases hs.task_cases hk' with ⟨k, hk, he⟩ | ⟨op, g, p, rfl, rfl⟩ | ⟨e, g, rfl⟩
      · rw [he]
        exact ih u k hk
      · exact hb op p (hd op p rfl)
      · exact hc e
    · rw [hs.tasks_of_ne hu] at hk'
      exact ih u k' hk'

theorem Path.trans {l₁ : Ledger} (hp : Path sch ok l₀ l₁) (hq : Path sch ok l₁ l) : Path sch ok l₀ l := by
  induction hq with
  | refl => exact hp
  | step _ hd hv hs ih => exact ih.step hd hv hs

theorem Path.known_mono {me : Token} (hp : Path sch ok l₀ l) (hm : l₀.known t = some me) : l.known t = some me := by
  induction hp with
  | refl => exact hm
  | step _ _ _ hs ih => exact hs.known_mono ih

theorem Path.width {cells : GuardId → Cell} (hp : Path sch ok (start cells) l) (g : GuardId) :
    (l.cells g).width = (cells g).width := by
  induction hp with
  | refl => rfl
  | @step l l' t d _ _ _ hs ih =>
    cases hs with
    | note | begin | close | wake | called | refused | took | read | asked => exact ih
    | @wrote k new n hk _ hn =>
      by_cases hg : g = k.guard
      · subst hg
        simp [Task.width_write hn, ih]
      · simp [put_of_ne _ _ hg, ih]

end Ledger
end OnceInit

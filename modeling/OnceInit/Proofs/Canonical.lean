import OnceInit.Proofs.Wakeup

/-! What can be in a cell that was zero once. Each write overwrites the whole cell: a claim is made over zero, a release
leaves the mark of a complete variable in a cell that is zero otherwise, and an abort leaves zero. So nothing remains in
a cell that its phase does not tell. -/

namespace OnceInit

def Event.stores (g : GuardId) (c : Cell) : Event → Cell
  | .write _ _ d x => if d = g then x else c
  | _ => c

def Event.claimant (g : GuardId) (t : Option ThreadId) : Event → Option ThreadId
  | .write u .acquire d _ => if d = g then some u else t
  | _ => t

def contents (w : GuardId → Width) (h : List Event) (g : GuardId) : Cell :=
  h.foldl (Event.stores g) (.zero (w g))

def lastClaimant (h : List Event) (g : GuardId) : Option ThreadId := h.foldl (Event.claimant g) none

def Cell.ready : Width → Cell
  | .narrow => .narrow 1 0 0 0
  | .wide => .wide 1 0 0 0 0 0 0 0

theorem Cell.complete_zero (w : Width) : (zero w).complete = ready w := by
  cases w <;> rfl

/-- The phase of a cell and the cell, where `owner` is the token of the last claimant. -/
inductive Scheme.Form (s : Scheme) (w : Width) (owner : Option Token) : Phase → Cell → Prop
  | untouched : Form s w owner .untouched (.zero w)
  | claimed {me : Token} (last : owner = some me) :
      Form s w owner (.underWay (if s.noticesOwner w then .takenBy me else .taken)) (s.claimed w me)
  | complete : Form s w owner .complete (.ready w)

def Cell.flagged : Width → Cell
  | .narrow => .narrow 0 1 0 0
  | .wide => .wide 0 1 0 0 0 0 0 0

def Scheme.cellOf (s : Scheme) (w : Width) : Phase → Cell
  | .untouched => .zero w
  | .underWay (.takenBy me) => s.claimed w me
  | .underWay _ => .flagged w
  | .complete => .ready w

/-- A write is a claim, by the token of the writer, of a cell that is zero, or it is a release or an abort. -/
def Event.Overwrites (sch : GuardId → Scheme) (w : GuardId → Width) (known : ThreadId → Option Token)
    (past : List Event) : Event → Prop
  | .write t .acquire g c =>
    contents w past g = .zero (w g) ∧ ∃ me, known t = some me ∧ c = (sch g).claimed (w g) me
  | .write _ .release g c => c = .ready (w g)
  | .write _ .abort g c => c = .zero (w g)
  | .write _ .inspect _ _ => False
  | _ => True

/-- The cells after the history `h`, in a process that knows the tokens `known`. -/
structure Canonical (sch : GuardId → Scheme) (w : GuardId → Width) (known : ThreadId → Option Token)
    (cells : GuardId → Cell) (h : List Event) : Prop where
  kept : ∀ g, cells g = contents w h g
  writes : Each (Event.Overwrites sch w known) h
  form : ∀ g, (sch g).Form (w g) ((lastClaimant h g).bind known) ((sch g).phaseOf (cells g)) (cells g)
  zero : ∀ g, (cells g).isZero = true ↔ (sch g).phaseOf (cells g) = .untouched
  decoded : ∀ g, cells g = (sch g).cellOf (w g) ((sch g).phaseOf (cells g))
  owner : ∀ g me, (sch g).phaseOf (cells g) = .underWay (.takenBy me) → (lastClaimant h g).bind known = some me

namespace Scheme

variable {s : Scheme} {w : Width} {x y : Option Token} {p : Phase} {c : Cell}

theorem claimed_of_not_noticesOwner (hn : s.noticesOwner w = false) (t : Token) : s.claimed w t = .flagged w := by
  cases s <;> cases w <;> first | rfl | cases hn

@[simp] theorem phaseOf_ready (s : Scheme) (w : Width) : s.phaseOf (.ready w) = .complete := by
  rw [← Cell.complete_zero, phaseOf_complete]

theorem Form.width (hf : s.Form w x p c) : c.width = w := by
  cases hf with
  | untouched | claimed => simp
  | complete => cases w <;> rfl

theorem Form.mono (hf : s.Form w x p c) (hm : ∀ me, x = some me → y = some me) : s.Form w y p c := by
  cases hf with
  | untouched => exact .untouched
  | claimed last => exact .claimed (hm _ last)
  | complete => exact .complete

theorem Form.isZero_iff (hf : s.Form w x p c) : c.isZero = true ↔ p = .untouched := by
  rw [Cell.isZero_iff, hf.width]
  cases hf with
  | untouched => exact iff_of_true rfl rfl
  | claimed | complete =>
    refine iff_of_false (fun he => ?_) (by simp)
    have hp := congrArg s.phaseOf he
    simp [phaseOf_claimed] at hp

theorem Form.eq_zero (hf : s.Form w x .untouched c) : c = .zero w := by
  cases hf
  rfl

theorem Form.eq_cellOf (hf : s.Form w x p c) : c = s.cellOf w p := by
  cases hf with
  | untouched | complete => rfl
  | claimed =>
    cases hn : s.noticesOwner w with
    | true => rfl
    | false => exact claimed_of_not_noticesOwner hn _

theorem Form.owner {me : Token} (hf : s.Form w x (.underWay (.takenBy me)) c) : x = some me := by
  generalize hp : Phase.underWay (.takenBy me) = p at hf
  cases hf with
  | untouched | complete => cases hp
  | claimed last =>
    split at hp
    · cases hp
      exact last
    · cases hp

end Scheme

section History

variable {sch : GuardId → Scheme} {w : GuardId → Width} {known known' : ThreadId → Option Token}
  {h es : List Event} {t : ThreadId} {g d : GuardId} {op : Op} {c : Cell}

@[simp] theorem contents_write :
    contents w (h ++ [.write t op d c]) g = if d = g then c else contents w h g := by
  simp [contents, List.foldl_append, Event.stores]

theorem lastClaimant_write : lastClaimant (h ++ [.write t op d c]) g =
    if op = .acquire ∧ d = g then some t else lastClaimant h g := by
  cases op <;> simp [lastClaimant, List.foldl_append, Event.claimant]

theorem contents_append (hn : ∀ e ∈ es, ∀ t op c, e ≠ .write t op g c) :
    contents w (h ++ es) g = contents w h g := by
  rw [contents, List.foldl_append]
  refine List.foldlRecOn (motive := (· = contents w h g)) es _ rfl fun x hx e he => ?_
  unfold Event.stores
  split
  · next t op d c =>
    rw [if_neg fun hd => hn _ he t op c (by rw [hd]), hx]
  · exact hx

theorem lastClaimant_append (hn : ∀ e ∈ es, ∀ t op c, e ≠ .write t op g c) :
    lastClaimant (h ++ es) g = lastClaimant h g := by
  rw [lastClaimant, List.foldl_append]
  refine List.foldlRecOn (motive := (· = lastClaimant h g)) es _ rfl fun x hx e he => ?_
  unfold Event.claimant
  split
  · next t d c =>
    rw [if_neg fun hd => hn _ he t .acquire c (by rw [hd]), hx]
  · exact hx

theorem overwrites_of_ne {e : Event} (hn : ∀ t op g c, e ≠ .write t op g c) : e.Overwrites sch w known h := by
  cases e with
  | write t op g c => exact absurd rfl (hn t op g c)
  | began | ended | call | read | opened | closed | log | answer | skip => trivial

theorem Event.Overwrites.mono {e : Event} (hm : ∀ t me, known t = some me → known' t = some me)
    (he : e.Overwrites sch w known h) : e.Overwrites sch w known' h := by
  cases e with
  | write t op g c =>
    cases op with
    | acquire =>
      obtain ⟨hz, me, hk, hc⟩ := he
      exact ⟨hz, me, hm t me hk, hc⟩
    | release | abort | inspect => exact he
  | began | ended | call | read | opened | closed | log | answer | skip => trivial

end History

section Ledger

variable {sch : GuardId → Scheme} {w : GuardId → Width} {known known' : ThreadId → Option Token}
  {cells : GuardId → Cell} {h es : List Event}

theorem Canonical.of_form (hk : ∀ g, cells g = contents w h g) (hw : Each (Event.Overwrites sch w known) h)
    (hf : ∀ g, (sch g).Form (w g) ((lastClaimant h g).bind known) ((sch g).phaseOf (cells g)) (cells g)) :
    Canonical sch w known cells h where
  kept := hk
  writes := hw
  form := hf
  zero := fun g => (hf g).isZero_iff
  decoded := fun g => (hf g).eq_cellOf
  owner := fun g _ hp => Scheme.Form.owner (hp ▸ hf g)

theorem canonical_start : Canonical sch w known (fun g => .zero (w g)) [] :=
  .of_form (fun _ => rfl) each_nil fun g => by rw [Scheme.phaseOf_zero]; exact .untouched

theorem Canonical.still (hc : Canonical sch w known cells h) (hm : ∀ t me, known t = some me → known' t = some me)
    (hn : ∀ e ∈ es, ∀ t op g c, e ≠ .write t op g c) : Canonical sch w known' cells (h ++ es) := by
  have hng := fun g e he t op c => hn e he t op g c
  refine .of_form (fun g => ?_) (each_append.mpr ⟨?_, ?_⟩) fun g => ?_
  · rw [contents_append (hng g), hc.kept g]
  · exact fun a e b he => (hc.writes a e b he).mono hm
  · exact fun a e b he => overwrites_of_ne (hn e (by simp [he]))
  · rw [lastClaimant_append (hng g)]
    refine (hc.form g).mono fun _ hl => ?_
    obtain ⟨t, ht, hk⟩ := Option.bind_eq_some_iff.mp hl
    exact Option.bind_eq_some_iff.mpr ⟨t, ht, hm t _ hk⟩

theorem Canonical.write {t : ThreadId} {op : Op} {g : GuardId} {c : Cell} (hc : Canonical sch w known cells h)
    (hw : (Event.write t op g c).Overwrites sch w known h) :
    Canonical sch w known (put cells g c) (h ++ [.write t op g c]) := by
  refine .of_form (fun d => ?_) (each_concat.mpr ⟨hc.writes, hw⟩) fun d => ?_
  · rw [contents_write]
    by_cases hd : d = g
    · rw [if_pos hd.symm, hd, put_same]
    · rw [if_neg (Ne.symm hd), put_of_ne _ _ hd, hc.kept d]
  · rw [lastClaimant_write]
    by_cases hd : d = g
    · subst hd
      rw [put_same]
      cases op with
      | acquire =>
        obtain ⟨-, me, hk, rfl⟩ := hw
        rw [Scheme.phaseOf_claimed]
        exact .claimed (by simpa using hk)
      | release =>
        cases hw
        rw [Scheme.phaseOf_ready]
        exact .complete
      | abort =>
        cases hw
        rw [Scheme.phaseOf_zero]
        exact .untouched
      | inspect => exact hw.elim
    · rw [put_of_ne _ _ hd, if_neg fun h => hd h.2.symm]
      exact hc.form d

end Ledger

namespace Ledger

variable {sch : GuardId → Scheme} {w : GuardId → Width} {ok : Deed → Prop} {l l' : Ledger} {t : ThreadId} {d : Deed}

theorem Step.cells_of_not_wrote (hs : l.Step sch t d l') (hd : d ≠ .wrote) : l'.cells = l.cells := by
  cases hs with
  | wrote => exact absurd rfl hd
  | note | begin | close | wake | called | refused | took | read | asked => rfl

theorem Step.canonical (hs : l.Step sch t d l') (hl : l.Sound sch)
    (hc : Canonical sch w l.known l.cells l.past) : Canonical sch w l'.known l'.cells l'.past := by
  by_cases hd : d = .wrote
  · subst hd
    cases hs with
    | @wrote k new n hk _ hn =>
      obtain ⟨hq, hf⟩ := hl.fits t k hk
      have hw : (l.cells k.guard).width = w k.guard := (hc.form k.guard).width
      simp only [past_write _ hn]
      refine hc.write ?_
      rw [hw]
      cases Task.writes hn with
      | @claim me hp =>
        -- the writer has seen that the cell is untouched, and by its form it is zero then
        simp only [Task.Fits, hp] at hf
        obtain ⟨ho, hk, hu⟩ := hf
        have hform := hc.form k.guard
        rw [← hq, hu] at hform
        rw [ho]
        exact ⟨(hc.kept _).symm.trans hform.eq_zero, me, hk, by rw [hq]⟩
      | store hp =>
        simp only [Task.Fits, hp] at hf
        unfold Task.stored
        cases ho : k.op with
        | release => exact Cell.complete_zero _
        | abort => rfl
        | acquire | inspect => simp [ho, Op.settles] at hf
  · obtain ⟨es, he, ht⟩ := hs.news
    rw [he, hs.cells_of_not_wrote hd]
    refine hc.still (fun _ _ => hs.known_mono) fun e hm u op g c hw => hd ?_
    subst hw
    exact (ht _ hm).2

theorem Path.canonical (hp : Path sch ok (start fun g => .zero (w g)) l) : Canonical sch w l.known l.cells l.past := by
  induction hp with
  | refl => exact canonical_start
  | step hp _ _ hs ih => exact hs.canonical hp.sound ih

end Ledger

namespace Machine

/-- Whatever fails, whoever wakes for no reason and whatever callers do, at any point of any run. -/
theorem cells_canonical {s : Setup} {sch : GuardId → Scheme} {w : GuardId → Width} {m : Machine} {h : List Event}
    (hr : Reaches s (Step.Drives s sch fun _ _ => True) (.start fun g => .zero (w g)) m h) :
    Canonical sch w m.tokens.known m.cells h :=
  hr.keeps.path.canonical

/-- An abort whose unlock is refused, after which a sleeper that wakes for no reason is granted the guard. A narrow
guard is released. -/
theorem cells_canonical_regranted : ∃ m h,
    Reaches (.plain .owner) (Step.Drives (.plain .owner) (fun _ => .owner) fun _ _ => True)
      (.start fun g => .zero (if g = 0 then .wide else .narrow)) m h ∧
    .ended 0 .abort 0 (.fails (.ofCall .abort .unlock 22)) ∈ h ∧ lastClaimant h 0 = some 1 ∧
    m.cells 0 = Scheme.owner.claimed .wide ⟨2, by decide⟩ ∧ m.cells 1 = .narrow 1 0 0 0 ∧
    Canonical (fun _ => .owner) (fun g => if g = 0 then .wide else .narrow) m.tokens.known m.cells h := by
  have hr : Reaches (.plain .owner) (Step.Drives (.plain .owner) (fun _ => .owner) fun _ _ => True)
      (.start fun g => .zero (if g = 0 then .wide else .narrow)) _ [] := .start
  have hd := Setup.plain_drives .owner
  have h₁ := (hr.begin (.act 0 0 none (some .acquire)) (by decide) (by decide) (hd 0 0 .acquire)).turns 9
  have h₂ := (h₁.begin (.act 1 0 none (some .acquire)) (by decide) (by decide) (hd 1 0 .acquire)).turns 9
  have h₃ := (h₂.begin (.act 0 1 none (some .acquire)) (by decide) (by decide) (hd 0 1 .acquire)).turns 9
  have h₄ := h₃.begin (.fault .unlock ⟨22, 0⟩) (by decide) (by decide) trivial
  have h₅ := (h₄.begin (.act 0 0 none (some .abort)) (by decide) (by decide) (hd 0 0 .abort)).turns 9
  have h₆ := h₅.begin .forceUnlock (by decide) (by decide) trivial
  have h₇ := (h₆.begin (.spurious 1) (by decide) (by decide) trivial).turns 9
  have h₈ := (h₇.begin (.act 0 1 none (some .release)) (by decide) (by decide) (hd 0 1 .release)).turns 9
  exact ⟨_, _, h₈, by decide, by decide, by decide, by decide, cells_canonical h₈⟩

end Machine
end OnceInit

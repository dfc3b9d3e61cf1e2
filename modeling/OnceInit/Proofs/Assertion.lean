import OnceInit.Machine.Effort

/-! What a thread knows at each point of an operation, about the cell of its guard and about its own token. All
that it knows of the cell it knows between taking the mutex and leaving it. -/

namespace OnceInit

def Point.inside : Point → Bool
  | .reading | .judging _ | .claiming _ | .storing | .waiting | .leaving _ | .yielding => true
  | .locking | .contending | .waking | .announcing => false

def Point.early : Point → Bool
  | .locking | .contending | .storing => true
  | _ => false

def Call.leaves : Call → Bool
  | unlock | wait => true
  | lock | broadcast => false

inductive Task.Calls (k : Task) : Call → Next → Prop
  | lock (hp : k.point = .locking) : Calls k .lock (.go .contending)
  | wait (hp : k.point = .waiting) : Calls k .wait (.go .waking)
  | unlock {v : Value} (hp : k.point = .leaving v) :
      Calls k .unlock (if k.op.settles then .go .announcing else .finish (.gives v))
  | yield (hp : k.point = .yielding) : Calls k .unlock k.deadlock
  | broadcast (hp : k.point = .announcing) : Calls k .broadcast (.finish (.gives .done))

inductive Task.Writes (k : Task) : (Width → Cell) → Next → Prop
  | claim {me : Token} (hp : k.point = .claiming me) :
      Writes k (fun w => k.scheme.claimed w me) (.tell (.granted k.guard k.scheme) (.leaving (.granted true)))
  | store (hp : k.point = .storing) : Writes k k.stored (.tell k.storedNote (.leaving .done))

inductive Task.Sees (k : Task) (c : Cell) : Next → Prop
  | inspected (hi : k.op = .inspect) : Sees k c (.go (.leaving (.phase (k.scheme.phaseOf c))))
  | complete (hi : k.op ≠ .inspect) (hc : c.isComplete = true) : Sees k c (.go (.leaving (.granted false)))
  | unsure (hi : k.op ≠ .inspect) (hc : c.isComplete = false) : Sees k c (.go (.judging c))

inductive Task.Judges (k : Task) (c : Cell) (me : Token) : Next → Prop
  | free (hc : k.scheme.claimOf c = .free) : Judges k c me (.go (.claiming me))
  | own (hc : k.scheme.claimOf c = .takenBy me) : Judges k c me (.go .yielding)
  | others {x : Claim} (hc : k.scheme.claimOf c = x) (hx : x ≠ .free) (hne : x ≠ .takenBy me) :
      Judges k c me (.tell (.waiting k.guard) .waiting)

/-- What holds of a task whose guard has the cell `c` and whose thread knows `own` to be its token. -/
def Task.Fits (k : Task) (c : Cell) (own : Option Token) : Prop :=
  match k.point with
  | .locking | .contending => True
  | .reading => k.op.settles = false
  | .storing | .announcing => k.op.settles = true
  | .judging d => k.op = .acquire ∧ d = c ∧ c.isComplete = false
  | .claiming me => k.op = .acquire ∧ own = some me ∧ k.scheme.phaseOf c = .untouched
  | .waiting => k.op = .acquire ∧
      ∃ me claim, own = some me ∧ k.scheme.phaseOf c = .underWay claim ∧ claim ≠ .takenBy me
  | .waking => k.op = .acquire
  | .yielding => k.op = .acquire ∧
      ∃ me, own = some me ∧ k.scheme.phaseOf c = .underWay (.takenBy me)
  | .leaving (.granted true) => k.op = .acquire ∧
      ∃ me, own = some me ∧ c = k.scheme.claimed c.width me
  | .leaving (.granted false) => k.op = .acquire ∧ c.isComplete = true
  | .leaving .done => k.op.settles = true ∧ c = k.stored c.width
  | .leaving (.phase p) => k.op = .inspect ∧ p = k.scheme.phaseOf c

namespace Task

variable {k k' : Task} {c : Cell} {own : Option Token} {n : Next}

theorem Fits.outside (hf : k.Fits c own) (ho : k.point.inside = false) (d : Cell)
    (x : Option Token) : k.Fits d x := by
  unfold Fits at hf ⊢
  cases hp : k.point <;> simp_all [Point.inside]

theorem fits_start (op : Op) (g : GuardId) (s : Scheme) (p : Purpose) :
    (start op g s p).Fits c own := trivial

theorem after_eq (h : n.after k = some k') : k' = { k with point := k'.point } := by
  cases n <;> simp_all [Next.after] <;> subst h <;> rfl

@[simp] theorem width_stored (k : Task) (w : Width) : (k.stored w).width = w := by
  unfold stored
  split <;> simp

theorem phaseOf_stored (k : Task) (s : Scheme) (w : Width) :
    s.phaseOf (k.stored w) = if k.op = .release then .complete else .untouched := by
  unfold stored
  split <;> simp

theorem isComplete_stored (k : Task) (w : Width) :
    (k.stored w).isComplete = decide (k.op = .release) := by
  unfold stored
  split <;> simp_all [Cell.isComplete_complete]

theorem calls {x : Call} {r : Int → Next} (hn : k.node = .call x n r) : k.Calls x n := by
  unfold node at hn
  cases hp : k.point with
  | locking =>
    simp only [hp, Node.call.injEq] at hn
    obtain ⟨rfl, rfl, -⟩ := hn
    exact .lock hp
  | waiting =>
    simp only [hp, Node.call.injEq] at hn
    obtain ⟨rfl, rfl, -⟩ := hn
    exact .wait hp
  | leaving v =>
    simp only [hp, Node.call.injEq] at hn
    obtain ⟨rfl, rfl, -⟩ := hn
    exact .unlock hp
  | yielding =>
    simp only [hp, Node.call.injEq] at hn
    obtain ⟨rfl, rfl, -⟩ := hn
    exact .yield hp
  | announcing =>
    simp only [hp, Node.call.injEq] at hn
    obtain ⟨rfl, rfl, -⟩ := hn
    exact .broadcast hp
  | contending | reading | judging | claiming | storing | waking => simp [hp] at hn

theorem writes {new : Width → Cell} (hn : k.node = .write new n) : k.Writes new n := by
  unfold node at hn
  cases hp : k.point with
  | claiming me =>
    simp only [hp, Node.write.injEq] at hn
    obtain ⟨rfl, rfl⟩ := hn
    exact .claim hp
  | storing =>
    simp only [hp, Node.write.injEq] at hn
    obtain ⟨rfl, rfl⟩ := hn
    exact .store hp
  | locking | contending | reading | judging | waiting | waking | leaving | yielding | announcing =>
    simp [hp] at hn

theorem fits_called {x : Call} {r : Int → Next} (hf : k.Fits c own) (hn : k.node = .call x n r)
    (ha : n.after k = some k') : k'.Fits c own ∧ k'.point.inside = false := by
  cases calls hn with
  | lock =>
    cases ha
    exact ⟨trivial, rfl⟩
  | wait hp =>
    cases ha
    simp only [Fits, hp] at hf
    exact ⟨hf.1, rfl⟩
  | unlock =>
    split at ha
    · next hs =>
      cases ha
      exact ⟨hs, rfl⟩
    · cases ha
  | yield | broadcast => cases ha

theorem refused_eq {x : Call} {r : Int → Next} (hn : k.node = .call x n r) (code : Int) :
    ∃ f, r code = .finish (.fails f) := by
  unfold node at hn
  cases hp : k.point <;> simp only [hp, Node.call.injEq, reduceCtorEq] at hn <;>
    obtain ⟨-, -, rfl⟩ := hn <;> exact ⟨_, rfl⟩

theorem after_refused {x : Call} {r : Int → Next} (hn : k.node = .call x n r) (code : Int) :
    (r code).after k = none := by
  obtain ⟨f, hf⟩ := refused_eq hn code
  rw [hf]
  rfl

theorem ne_finish_of_after {k' : Task} (ha : n.after k = some k') (r : Outcome) : n ≠ .finish r := by
  rintro rfl
  cases ha

theorem after_take {w : Bool} (hn : k.node = .take w n) :
    (k.point = .contending ∨ k.point = .waking) ∧
      n.after k = some { k with point := if k.op.settles then .storing else .reading } := by
  unfold node at hn
  cases hp : k.point <;> simp only [hp, Node.take.injEq, reduceCtorEq] at hn <;>
    obtain ⟨-, rfl⟩ := hn
  · exact ⟨.inl rfl, rfl⟩
  · exact ⟨.inr rfl, rfl⟩

theorem point_of_read {f : Cell → Next} (hn : k.node = .read f) : k.point = .reading := by
  unfold node at hn
  cases hp : k.point <;> simp [hp] at hn ⊢

theorem point_of_ask {f : Token → Next} (hn : k.node = .ask f) : ∃ x, k.point = .judging x := by
  unfold node at hn
  cases hp : k.point <;> simp [hp] at hn ⊢

theorem sees {f : Cell → Next} (hn : k.node = .read f) (x : Cell) : k.Sees x (f x) := by
  simp only [node, point_of_read hn, Node.read.injEq] at hn
  subst hn
  unfold seen
  split
  · next hi => exact .inspected hi
  · next hi =>
    split
    · next hx => exact .complete hi hx
    · next hx => exact .unsure hi (Bool.eq_false_iff.mpr hx)

theorem judges {f : Token → Next} {x : Cell} (hn : k.node = .ask f) (hp : k.point = .judging x) (me : Token) :
    k.Judges x me (f me) := by
  simp only [node, hp, Node.ask.injEq] at hn
  subst hn
  unfold judge
  split
  · next hx => exact .free hx
  · next hx => exact .others hx (by simp) (by simp)
  · next t hx =>
    split
    · next ht => exact .own (ht ▸ hx)
    · next ht => exact .others hx (by simp) (by simpa using ht)

theorem inside_of_call {x : Call} {r : Int → Next} (hn : k.node = .call x n r) :
    k.point.inside = x.leaves := by
  cases calls hn with
  | lock hp | wait hp | unlock hp | yield hp | broadcast hp =>
    rw [hp]
    rfl

theorem after_read {f : Cell → Next} (hn : k.node = .read f) (x : Cell) :
    ∃ k', (f x).after k = some k' ∧ k'.point.inside = true ∧ k'.point ≠ .leaving (.granted true) ∧
      k'.point.early = false := by
  have hs := sees hn x
  generalize f x = n at hs
  cases hs with
  | inspected | complete | unsure => exact ⟨_, rfl, rfl, by simp, rfl⟩

theorem after_ask {f : Token → Next} (hn : k.node = .ask f) (me : Token) :
    ∃ k', (f me).after k = some k' ∧ k'.point.inside = true ∧ k'.point ≠ .leaving (.granted true) ∧
      k'.point.early = false := by
  obtain ⟨x, hp⟩ := point_of_ask hn
  have hj := judges hn hp me
  generalize f me = n at hj
  cases hj with
  | free | own | others => exact ⟨_, rfl, rfl, by simp, rfl⟩

theorem after_write {new : Width → Cell} (hn : k.node = .write new n) :
    ∃ v, n.after k = some { k with point := .leaving v } := by
  cases writes hn with
  | claim | store => exact ⟨_, rfl⟩

theorem width_write {new : Width → Cell} (hn : k.node = .write new n) (w : Width) : (new w).width = w := by
  cases writes hn with
  | claim => exact Scheme.width_claimed ..
  | store => exact width_stored ..

theorem fits_took {w : Bool} (hn : k.node = .take w n) (ha : n.after k = some k') :
    k'.Fits c own := by
  cases (after_take hn).2.symm.trans ha
  by_cases hs : k.op.settles = true <;> simp [Fits, hs]

theorem inside_of_read {f : Cell → Next} (hn : k.node = .read f) : k.point.inside = true := by
  rw [point_of_read hn]
  rfl

theorem inside_of_ask {f : Token → Next} (hn : k.node = .ask f) : k.point.inside = true := by
  obtain ⟨x, hp⟩ := point_of_ask hn
  rw [hp]
  rfl

theorem inside_of_write {new : Width → Cell} (hn : k.node = .write new n) :
    k.point.inside = true := by
  cases writes hn with
  | claim hp | store hp =>
    rw [hp]
    rfl

theorem eq_acquire_of_not_settles {op : Op} (hs : op.settles = false) (hi : op ≠ .inspect) :
    op = .acquire := by
  cases op <;> simp_all [Op.settles]

theorem fits_read {f : Cell → Next} (hf : k.Fits c own) (hn : k.node = .read f)
    (ha : (f c).after k = some k') : k'.Fits c own := by
  have hs := sees hn c
  simp only [Fits, point_of_read hn] at hf
  generalize f c = n at hs ha
  cases hs with
  | inspected hi =>
    cases ha
    exact ⟨hi, rfl⟩
  | complete hi hc =>
    cases ha
    exact ⟨eq_acquire_of_not_settles hf hi, hc⟩
  | unsure hi hc =>
    cases ha
    exact ⟨eq_acquire_of_not_settles hf hi, rfl, hc⟩

theorem fits_asked {f : Token → Next} {me : Token} (hf : k.Fits c own) (hn : k.node = .ask f)
    (ha : (f me).after k = some k') : k'.Fits c (some me) := by
  obtain ⟨d, hp⟩ := point_of_ask hn
  have hj := judges hn hp me
  simp only [Fits, hp] at hf
  obtain ⟨hq, rfl, hc⟩ := hf
  generalize f me = n at hj ha
  cases hj with
  | free hx =>
    cases ha
    exact ⟨hq, rfl, (k.scheme.phaseOf_eq_untouched_iff d).mpr ⟨hc, hx⟩⟩
  | own hx =>
    cases ha
    exact ⟨hq, me, rfl, (k.scheme.phaseOf_eq_underWay_iff d _).mpr ⟨hc, hx, by simp⟩⟩
  | others hx hfree hne =>
    cases ha
    exact ⟨hq, me, _, rfl, (k.scheme.phaseOf_eq_underWay_iff d _).mpr ⟨hc, hx, hfree⟩, hne⟩

theorem fits_wrote {new : Width → Cell} (hf : k.Fits c own) (hn : k.node = .write new n)
    (ha : n.after k = some k') : k'.Fits (new c.width) own := by
  cases writes hn with
  | claim hp =>
    cases ha
    simp only [Fits, hp] at hf
    exact ⟨hf.1, _, hf.2.1, by simp⟩
  | store hp =>
    cases ha
    simp only [Fits, hp] at hf
    exact ⟨hf, by rw [width_stored]; rfl⟩

end Task
end OnceInit

import OnceInit.Proofs.Ledger

/-! Holding a guard. While callers keep to the contract, a guard has one holder at most, its cell is the holder's
claim, and a release is final. -/

namespace OnceInit

def Event.isMoot : Event → Bool
  | .write .. => false
  | .ended _ .acquire _ (.gives (.granted _)) => false
  | _ => true

def Event.Proper (cells : GuardId → Cell) (past : List Event) : Event → Prop
  | .write t op g _ => op.settles = true → Holds past t g ∧ ¬ Released past g
  | .ended _ .acquire g (.gives (.granted true)) => ¬ Released past g
  | .ended _ .acquire g (.gives (.granted false)) =>
    (cells g).isComplete = true ∨ Released past g
  | _ => True

section Moot

variable {h es : List Event} {t u : ThreadId} {g : GuardId} {e : Event}

theorem holds_moot (hm : ∀ e ∈ es, e.isMoot = true) : Holds (h ++ es) t g ↔ Holds h t g := by
  refine holds_append fun e he b => ?_
  have := hm e he
  unfold Event.isMoot at this
  unfold Event.holding
  split at this <;> simp_all

theorem released_moot (hm : ∀ e ∈ es, e.isMoot = true) : Released (h ++ es) g ↔ Released h g := by
  refine released_append fun e he t c hw => ?_
  have := hm e he
  rw [hw] at this
  cases this

theorem proper_moot (cells : GuardId → Cell) (hm : e.isMoot = true) : e.Proper cells h := by
  unfold Event.Proper
  split
  · cases hm
  · cases hm
  · cases hm
  · trivial

theorem each_proper_moot {cells : GuardId → Cell} (hp : Each (Event.Proper cells) h)
    (hm : ∀ e ∈ es, e.isMoot = true) : Each (Event.Proper cells) (h ++ es) :=
  hp.append fun e he _ => proper_moot cells (hm e he)

theorem moot_of_note (hn : e.isNote = true) : e.isMoot = true := by
  unfold Event.isNote at hn
  split at hn <;> simp_all [Event.isMoot]

theorem moot_marks (t : ThreadId) (c : Call) : ∀ e ∈ c.marks t, e.isMoot = true := by
  cases c <;> simp [Call.marks, Event.isMoot]

theorem moot_opened (t : ThreadId) (fs : List Frame) :
    ∀ e ∈ fs.map fun f => Event.opened t f.guard, e.isMoot = true := by
  intro e he
  obtain ⟨f, -, rfl⟩ := List.mem_map.mp he
  rfl

theorem moot_report {k : Task} {n : Next} (hn : ∀ b, n ≠ .finish (.gives (.granted b))) :
    ∀ e ∈ n.report t k, e.isMoot = true := by
  intro e he
  cases n with
  | go | tell => cases he
  | finish r =>
    cases r with
    | gives v =>
      rcases List.mem_cons.mp he with rfl | he
      · cases v with
        | granted b => exact absurd rfl (hn b)
        | done | phase => simp [Event.isMoot]
      · exact moot_opened _ _ e he
    | fails f =>
      rw [List.mem_singleton.mp he]
      simp [Event.isMoot]

end Moot

namespace Task

variable {k : Task} {c : Call} {n : Next} {r : Int → Next}

theorem point_of_granted {b : Bool} (hn : k.node = .call c n r)
    (hf : n = .finish (.gives (.granted b))) : k.point = .leaving (.granted b) := by
  cases calls hn with
  | @unlock v hp =>
    split at hf
    · cases hf
    · cases hf
      exact hp
  | lock | wait | yield | broadcast => cases hf

theorem early_of_called {k' : Task} (hn : k.node = .call c n r) (ha : n.after k = some k')
    (he : k'.point.early = true) : k.point.early = true := by
  cases calls hn with
  | lock hp =>
    rw [hp]
    rfl
  | unlock =>
    split at ha
    · cases ha
      cases he
    · cases ha
  | wait =>
    cases ha
    cases he
  | yield | broadcast => cases ha

end Task

namespace Ledger

structure Held (cells : GuardId → Cell) (sch : GuardId → Scheme) (l : Ledger) : Prop where
  claimed : ∀ t g, Holds l.past t g →
    ∃ me, l.known t = some me ∧ l.cells g = (sch g).claimed (l.cells g).width me
  only : ∀ t u g, Holds l.past t g → Holds l.past u g → t = u
  granting : ∀ t k, l.tasks t = some k → k.point = .leaving (.granted true) →
    ∀ u, ¬ Holds l.past u k.guard
  settling : ∀ t k, l.tasks t = some k → k.op.settles = true → k.point.early = true →
    Holds l.past t k.guard
  complete : ∀ g, (l.cells g).isComplete = true ↔
    (cells g).isComplete = true ∨ Released l.past g
  proper : Each (Event.Proper cells) l.past

variable {cells : GuardId → Cell} {sch : GuardId → Scheme} {ok : Deed → Prop}
  {l l' : Ledger} {t u : ThreadId} {g : GuardId} {d : Deed}

theorem held_start (cells : GuardId → Cell) : (start cells).Held cells sch where
  claimed := fun _ _ hh => absurd hh not_holds_nil
  only := fun _ _ _ hh => absurd hh not_holds_nil
  granting := fun _ _ hk => nomatch hk
  settling := fun _ _ hk => nomatch hk
  complete := fun g => by simp [start, Released]
  proper := each_nil

theorem Held.phaseOf (hl : l.Held cells sch) (hh : Holds l.past t g) :
    ∃ c, (sch g).phaseOf (l.cells g) = .underWay c := by
  obtain ⟨me, -, hc⟩ := hl.claimed t g hh
  rw [hc]
  exact ⟨_, Scheme.phaseOf_claimed ..⟩

theorem Held.not_complete (hl : l.Held cells sch) (hh : Holds l.past t g) :
    (l.cells g).isComplete = false := by
  obtain ⟨me, -, hc⟩ := hl.claimed t g hh
  rw [hc, Scheme.isComplete_claimed]

theorem Held.not_released (hl : l.Held cells sch) (hc : (l.cells g).isComplete = false) :
    ¬ Released l.past g := by
  intro hr
  rw [(hl.complete g).mpr (.inr hr)] at hc
  cases hc

theorem Held.same (hl : l.Held cells sch) (hs : l.Step sch t d l') (hc : l'.cells = l.cells)
    (hh : ∀ u g, Holds l'.past u g ↔ Holds l.past u g)
    (hr : ∀ g, Released l'.past g ↔ Released l.past g) (hp : Each (Event.Proper cells) l'.past)
    (hg : ∀ k', l'.tasks t = some k' → k'.point = .leaving (.granted true) →
      ∀ u, ¬ Holds l.past u k'.guard)
    (he : ∀ k', l'.tasks t = some k' → k'.op.settles = true → k'.point.early = true →
      Holds l.past t k'.guard) : l'.Held cells sch where
  claimed := by
    intro u g hu
    obtain ⟨me, hk, hq⟩ := hl.claimed u g ((hh u g).mp hu)
    exact ⟨me, hs.known_mono hk, by rw [hc, ← hq]⟩
  only := fun u v g hu hv => hl.only u v g ((hh u g).mp hu) ((hh v g).mp hv)
  granting := by
    intro v k hk hpt u
    rw [hh]
    by_cases hv : v = t
    · subst hv
      exact hg k hk hpt u
    · rw [hs.tasks_of_ne hv] at hk
      exact hl.granting v k hk hpt u
  settling := by
    intro v k hk hst hpt
    rw [hh]
    by_cases hv : v = t
    · subst hv
      exact he k hk hst hpt
    · rw [hs.tasks_of_ne hv] at hk
      exact hl.settling v k hk hst hpt
  complete := by
    intro g
    rw [hc, hr]
    exact hl.complete g
  proper := hp

theorem Held.moot {es : List Event} (hl : l.Held cells sch) (hs : l.Step sch t d l')
    (hc : l'.cells = l.cells) (hp : l'.past = l.past ++ es) (hm : ∀ e ∈ es, e.isMoot = true)
    (hg : ∀ k', l'.tasks t = some k' → k'.point = .leaving (.granted true) →
      ∀ u, ¬ Holds l.past u k'.guard)
    (he : ∀ k', l'.tasks t = some k' → k'.op.settles = true → k'.point.early = true →
      Holds l.past t k'.guard) : l'.Held cells sch :=
  hl.same hs hc (fun _ _ => by rw [hp, holds_moot hm]) (fun _ => by rw [hp, released_moot hm])
    (hp ▸ each_proper_moot hl.proper hm) hg he

theorem past_grant {k : Task} (es : List Event) (b : Bool) :
    (l.advance t k es (.finish (.gives (.granted b)))).past =
      l.past ++ es ++ [.ended t k.op k.guard (.gives (.granted b))] ++
        (k.opens (.granted b)).map (fun f => .opened t f.guard) := by
  simp [advance, Next.report]

theorem holds_past_grant {k : Task} {es : List Event} (ho : k.op = .acquire)
    (hm : ∀ e ∈ es, e.isMoot = true) :
    Holds (l.advance t k es (.finish (.gives (.granted true)))).past u g ↔
      Holds l.past u g ∨ t = u ∧ k.guard = g := by
  rw [past_grant, holds_moot (moot_opened _ _), ho, holds_granted, holds_moot hm]

theorem released_past_grant {k : Task} {es : List Event} (b : Bool) (hm : ∀ e ∈ es, e.isMoot = true) :
    Released (l.advance t k es (.finish (.gives (.granted b)))).past g ↔ Released l.past g := by
  rw [past_grant, released_moot (moot_opened _ _), released_concat, released_moot hm]
  simp

theorem Held.grant {k : Task} {es : List Event} {asleep : List ThreadId} (hl : l.Held cells sch)
    (hs : l.Sound sch) (hk : l.tasks t = some k) (hp : k.point = .leaving (.granted true))
    (hm : ∀ e ∈ es, e.isMoot = true) :
    Held cells sch { l.advance t k es (.finish (.gives (.granted true))) with sleepers := asleep } := by
  obtain ⟨hq, hf⟩ := hs.fits t k hk
  simp only [Task.Fits, hp] at hf
  obtain ⟨ho, me, hme, hc⟩ := hf
  have hold : ∀ u g, Holds (l.advance t k es (.finish (.gives (.granted true)))).past u g ↔
      Holds l.past u g ∨ t = u ∧ k.guard = g := fun u g => holds_past_grant ho hm
  have hin : (Point.leaving (.granted true)).inside = true := rfl
  have hnc : (l.cells k.guard).isComplete = false := by rw [hc, Scheme.isComplete_claimed]
  exact {
    claimed := by
      intro u g hh
      rcases (hold u g).mp hh with hh | ⟨rfl, rfl⟩
      · exact hl.claimed u g hh
      · exact ⟨me, hme, hq ▸ hc⟩
    only := by
      intro u v g hu hv
      rcases (hold u g).mp hu with hu | ⟨rfl, rfl⟩
      · rcases (hold v g).mp hv with hv | ⟨rfl, rfl⟩
        · exact hl.only u v g hu hv
        · exact absurd hu (hl.granting t k hk hp u)
      · rcases (hold v _).mp hv with hv | ⟨rfl, -⟩
        · exact absurd hv (hl.granting t k hk hp v)
        · rfl
    granting := by
      intro v k' hk' hp'
      by_cases hv : v = t
      · subst hv
        cases (put_same _ _ _).symm.trans hk'
      · have hk' : l.tasks v = some k' := (put_of_ne _ _ hv).symm.trans hk'
        have := hs.outside_of_ne hk (hp ▸ hin) hv hk'
        rw [hp'] at this
        cases this
    settling := by
      intro v k' hk' hst hpt
      by_cases hv : v = t
      · subst hv
        cases (put_same _ _ _).symm.trans hk'
      · have hk' : l.tasks v = some k' := (put_of_ne _ _ hv).symm.trans hk'
        exact (hold v _).mpr (.inl (hl.settling v k' hk' hst hpt))
    complete := by
      intro g
      rw [released_past_grant true hm]
      exact hl.complete g
    proper := by
      simp only [past_grant]
      refine each_proper_moot (each_concat.mpr ⟨each_proper_moot hl.proper hm, ?_⟩) (moot_opened _ _)
      rw [ho]
      exact fun hr => hl.not_released hnc ((released_moot hm).mp hr) }

theorem Held.refuse {k : Task} {es : List Event} (hl : l.Held cells sch) (hs : l.Sound sch)
    (hst : l.Step sch t d l') (hk : l.tasks t = some k) (hp : k.point = .leaving (.granted false))
    (hm : ∀ e ∈ es, e.isMoot = true) (hc : l'.cells = l.cells) (ht : l'.tasks t = none)
    (he : l'.past = (l.advance t k es (.finish (.gives (.granted false)))).past) :
    l'.Held cells sch := by
  have hf := (hs.fits t k hk).2
  simp only [Task.Fits, hp] at hf
  rw [past_grant] at he
  refine hl.same hst hc ?_ ?_ ?_ (by simp [ht]) (by simp [ht])
  · intro u g
    rw [he, holds_moot (moot_opened _ _), holds_not_granted, holds_moot hm]
  · intro g
    rw [he, ← past_grant, released_past_grant false hm]
  · rw [he]
    refine each_proper_moot (each_concat.mpr ⟨each_proper_moot hl.proper hm, ?_⟩) (moot_opened _ _)
    rw [hf.1]
    exact ((hl.complete k.guard).mp hf.2).imp_right (released_moot hm).mpr

theorem past_write {k : Task} {new : Width → Cell} {n : Next} (c : Cell) (hn : k.node = .write new n) :
    (l.advance t k [.write t k.op k.guard c] n).past = l.past ++ [.write t k.op k.guard c] := by
  cases Task.writes hn with
  | claim | store => rfl

theorem Held.claim {k : Task} {new : Width → Cell} {n : Next} {me : Token} (hl : l.Held cells sch)
    (hs : l.Sound sch) (hk : l.tasks t = some k) (hn : k.node = .write new n)
    (hp : k.point = .claiming me) :
    Held cells sch { l.advance t k [.write t k.op k.guard (new (l.cells k.guard).width)] n with
      cells := put l.cells k.guard (new (l.cells k.guard).width) } := by
  obtain ⟨hq, hf⟩ := hs.fits t k hk
  simp only [Task.Fits, hp] at hf
  obtain ⟨ho, -, hu⟩ := hf
  obtain ⟨rfl, rfl⟩ : new = (fun w => k.scheme.claimed w me) ∧
      n = .tell (.granted k.guard k.scheme) (.leaving (.granted true)) := by
    simpa [Task.node, hp, eq_comm] using hn
  have free : ∀ u, ¬ Holds l.past u k.guard := by
    intro u hh
    obtain ⟨c, hc⟩ := hl.phaseOf hh
    rw [← hq, hu] at hc
    cases hc
  have hnc : (l.cells k.guard).isComplete = false := ((Scheme.phaseOf_eq_untouched_iff ..).mp hu).1
  have hold : ∀ u g c, Holds (l.past ++ [.write t k.op k.guard c]) u g ↔ Holds l.past u g := by
    intro u g c
    rw [holds_write, ho]
    simp [Op.settles]
  exact {
    claimed := by
      intro u g hh
      rw [past_write _ hn, hold] at hh
      have hg : g ≠ k.guard := fun e => free u (e ▸ hh)
      simp only [put_of_ne _ _ hg]
      exact hl.claimed u g hh
    only := by
      intro u v g hu hv
      rw [past_write _ hn, hold] at hu hv
      exact hl.only u v g hu hv
    granting := by
      intro v k' hk' hp' u
      rw [past_write _ hn, hold]
      by_cases hv : v = t
      · subst hv
        cases (put_same _ _ _).symm.trans hk'
        exact free u
      · exact hl.granting v k' ((put_of_ne _ _ hv).symm.trans hk') hp' u
    settling := by
      intro v k' hk' hst hpt
      rw [past_write _ hn, hold]
      by_cases hv : v = t
      · subst hv
        cases (put_same _ _ _).symm.trans hk'
        cases hpt
      · exact hl.settling v k' ((put_of_ne _ _ hv).symm.trans hk') hst hpt
    complete := by
      intro g
      rw [past_write _ hn, released_concat]
      by_cases hg : g = k.guard
      · subst hg
        have := (not_congr (hl.complete k.guard)).mp (by simp [hnc])
        simpa [ho] using this
      · simpa [put_of_ne _ _ hg, ho] using hl.complete g
    proper := by
      rw [past_write _ hn]
      exact each_concat.mpr ⟨hl.proper, by simp [Event.Proper, ho, Op.settles]⟩ }

theorem Held.store {k : Task} {new : Width → Cell} {n : Next} (hl : l.Held cells sch)
    (hs : l.Sound sch) (hk : l.tasks t = some k) (hn : k.node = .write new n)
    (hp : k.point = .storing) :
    Held cells sch { l.advance t k [.write t k.op k.guard (new (l.cells k.guard).width)] n with
      cells := put l.cells k.guard (new (l.cells k.guard).width) } := by
  have ho := (hs.fits t k hk).2
  simp only [Task.Fits, hp] at ho
  obtain ⟨rfl, rfl⟩ : new = k.stored ∧ n = .tell k.storedNote (.leaving .done) := by
    simpa [Task.node, hp, eq_comm] using hn
  have hh := hl.settling t k hk ho (by rw [hp]; rfl)
  have hnc := hl.not_complete hh
  have hin : k.point.inside = true := by rw [hp]; rfl
  have hold : ∀ u g c, Holds (l.past ++ [.write t k.op k.guard c]) u g ↔
      Holds l.past u g ∧ ¬ (t = u ∧ k.guard = g) := by
    intro u g c
    simp [holds_write, ho]
  exact {
    claimed := by
      intro u g hu
      rw [past_write _ hn, hold] at hu
      have hg : g ≠ k.guard := fun e => hu.2 ⟨hl.only t u g (e ▸ hh) hu.1, e.symm⟩
      simp only [put_of_ne _ _ hg]
      exact hl.claimed u g hu.1
    only := by
      intro u v g hu hv
      rw [past_write _ hn, hold] at hu hv
      exact hl.only u v g hu.1 hv.1
    granting := by
      intro v k' hk' hp'
      by_cases hv : v = t
      · subst hv
        cases (put_same _ _ _).symm.trans hk'
        cases hp'
      · have := hs.outside_of_ne hk hin hv ((put_of_ne _ _ hv).symm.trans hk')
        rw [hp'] at this
        cases this
    settling := by
      intro v k' hk' hst hpt
      rw [past_write _ hn, hold]
      by_cases hv : v = t
      · subst hv
        cases (put_same _ _ _).symm.trans hk'
        cases hpt
      · exact ⟨hl.settling v k' ((put_of_ne _ _ hv).symm.trans hk') hst hpt, fun e => hv e.1.symm⟩
    complete := by
      intro g
      rw [past_write _ hn, released_concat]
      by_cases hg : g = k.guard
      · subst hg
        have := (not_congr (hl.complete k.guard)).mp (by simp [hnc])
        rw [not_or] at this
        simp [Task.isComplete_stored, this.1, this.2]
      · have : k.guard ≠ g := fun e => hg e.symm
        simpa [put_of_ne _ _ hg, this] using hl.complete g
    proper := by
      rw [past_write _ hn]
      exact each_concat.mpr ⟨hl.proper, fun _ => ⟨hh, hl.not_released hnc⟩⟩ }

theorem Held.move {k : Task} {n : Next} {es : List Event} (hl : l.Held cells sch)
    (hst : l.Step sch t d l') (hk : l.tasks t = some k) (hc : l'.cells = l.cells)
    (ht : l'.tasks t = n.after k) (hp : l'.past = l.past ++ (es ++ n.report t k))
    (hm : ∀ e ∈ es, e.isMoot = true) (hb : ∀ b, n ≠ .finish (.gives (.granted b)))
    (hg : ∀ k', n.after k = some k' → k'.point ≠ .leaving (.granted true))
    (he : ∀ k', n.after k = some k' → k.op.settles = true → k'.point.early = true →
      k.point.early = true) : l'.Held cells sch := by
  refine hl.moot hst hc hp ?_ ?_ ?_
  · intro e hx
    rcases List.mem_append.mp hx with hx | hx
    · exact hm e hx
    · exact moot_report hb e hx
  · intro k' hk' hp'
    exact absurd hp' (hg k' (ht.symm.trans hk'))
  · intro k' hk' hso hpt
    have ha := ht.symm.trans hk'
    rw [Task.after_eq ha] at hso ⊢
    exact hl.settling t k hk hso (he k' ha hso hpt)

theorem Held.called {k : Task} {c : Call} {n : Next} {r : Int → Next} (hl : l.Held cells sch)
    (hs : l.Sound sch) (hk : l.tasks t = some k) (awake : t ∉ l.sleepers)
    (hn : k.node = .call c n r) :
    Held cells sch { l.advance t k (c.marks t) n with sleepers := c.sleepers t l.sleepers } := by
  have hst : l.Step sch t _ _ := .called hk awake hn
  by_cases hb : ∃ b, n = .finish (.gives (.granted b))
  · obtain ⟨b, rfl⟩ := hb
    have hp := Task.point_of_granted hn rfl
    cases b with
    | true => exact hl.grant hs hk hp (moot_marks t c)
    | false => exact hl.refuse hs hst hk hp (moot_marks t c) rfl (put_same ..) rfl
  · rw [not_exists] at hb
    refine hl.move hst hk rfl (put_same ..) rfl (moot_marks t c) hb ?_ ?_
    · intro k' ha hp
      have := (Task.fits_called (hs.fits t k hk).2 hn ha).2
      rw [hp] at this
      cases this
    · exact fun k' ha _ hpt => Task.early_of_called hn ha hpt

theorem Held.launch {k : Task} {es : List Event} (hl : l.Held cells sch)
    (hs : l.Step sch t d l') (hc : l'.cells = l.cells) (hk : l'.tasks t = some k)
    (hp : l'.past = l.past ++ es ++ [.began t k.op k.guard]) (hm : ∀ e ∈ es, e.isMoot = true)
    (hq : k.point = .locking) (hcon : Contract l'.past) : l'.Held cells sch := by
  refine hl.moot hs hc (hp.trans (List.append_assoc ..)) ?_ ?_ ?_
  · intro e he
    rcases List.mem_append.mp he with he | he
    · exact hm e he
    · rw [List.mem_singleton.mp he]
      rfl
  · intro k' hk' hp'
    cases hk.symm.trans hk'
    cases hq.symm.trans hp'
  · intro k' hk' hso _
    cases hk.symm.trans hk'
    rw [hp] at hcon
    exact (holds_moot hm).mp ((each_concat.mp hcon).2 hso)

theorem Held.step (hl : l.Held cells sch) (hs : l.Sound sch) (hst : l.Step sch t d l')
    (hc : Contract l'.past) : l'.Held cells sch := by
  have hst' := hst
  cases hst with
  | note hn =>
    exact hl.moot hst' rfl rfl (by simpa using moot_of_note hn)
      (fun k' hk' => hl.granting t k' hk') fun k' hk' => hl.settling t k' hk'
  | wake =>
    exact hl.moot hst' rfl (List.append_nil _).symm (by simp)
      (fun k' hk' => hl.granting t k' hk') fun k' hk' => hl.settling t k' hk'
  | begin op g p =>
    exact hl.launch hst' rfl (put_same ..) (by simp [Ledger.launch]; rfl) (by simp) rfl hc
  | close e => exact hl.launch hst' rfl (put_same ..) rfl (by simp [Event.isMoot]) rfl hc
  | called hk awake hn => exact hl.called hs hk awake hn
  | @refused k c n r code hk _ hn =>
    obtain ⟨f, hf⟩ := Task.refused_eq hn code
    refine hl.move hst' hk rfl (put_same ..) rfl (by simp [Event.isMoot]) ?_ ?_ ?_ <;>
      simp [hf, Next.after]
  | took hk _ hn =>
    obtain ⟨he, ht⟩ := Task.after_take hn
    refine hl.move hst' hk rfl (put_same ..) rfl (by simp [Event.isMoot])
      (fun b => Task.ne_finish_of_after ht _) ?_ ?_
    · intro k' ha
      cases ht.symm.trans ha
      split <;> simp
    · intro k' _ hso _
      rcases he with he | he
      · rw [he]; rfl
      · have := (hs.fits t _ hk).2
        simp only [Task.Fits, he] at this
        simp [this, Op.settles] at hso
  | read hk _ hn =>
    obtain ⟨k', ht, -, hg, he⟩ := Task.after_read hn _
    exact hl.move hst' hk rfl (put_same ..) rfl (by simp [Event.isMoot])
      (fun b => Task.ne_finish_of_after ht _) (by simp [ht, hg]) (by simp [ht, he])
  | asked me hk _ hn =>
    obtain ⟨k', ht, -, hg, he⟩ := Task.after_ask hn me
    exact hl.move hst' hk rfl (put_same ..) rfl (by simp)
      (fun b => Task.ne_finish_of_after ht _) (by simp [ht, hg]) (by simp [ht, he])
  | wrote hk _ hn =>
    cases Task.writes hn with
    | claim hp => exact hl.claim hs hk hn hp
    | store hp => exact hl.store hs hk hn hp

theorem Path.held (hp : Path sch ok (start cells) l) (hc : Contract l.past) :
    l.Held cells sch := by
  induction hp with
  | refl => exact held_start cells
  | step hp _ hv hs ih =>
    obtain ⟨es, he⟩ := hs.past
    exact (ih (he ▸ hc).left).step hp.sound hs hc

end Ledger
end OnceInit

import OnceInit.Proofs.Cover

/-! Guards that are used through initializers only. An initializer starts when its thread is granted the guard, and a
release or an abort begins when it ends. So the guards that a thread holds are those of the initializers that it
runs, and the one that it is about to let go. -/

namespace OnceInit

/-- What the callers begin: to open a guard, or to view one. -/
def Scoped : Op → Purpose → Prop
  | .acquire, .opening _ | .inspect, .view _ => True
  | _, _ => False

def Task.Scoped (k : Task) : Prop :=
  match k.purpose with
  | .opening _ => k.op = .acquire
  | .view _ => k.op = .inspect
  | .closing e => k.op = e.op
  | .plain | .hook => False

theorem Scoped.not_settles {op : Op} {p : Purpose} (hs : Scoped op p) : op.settles = false := by
  unfold Scoped at hs
  split at hs <;> first | rfl | exact hs.elim

theorem scoped_start {op : Op} {g : GuardId} {c : Scheme} {p : Purpose} (hs : Scoped op p) :
    (Task.start op g c p).Scoped := by
  unfold OnceInit.Scoped at hs
  split at hs <;> first | rfl | exact hs.elim

theorem Task.Scoped.opening {k : Task} (hk : k.Scoped) (ho : k.op = .acquire) :
    ∃ b, k.purpose = .opening b := by
  unfold Task.Scoped at hk
  cases hp : k.purpose with
  | opening b => exact ⟨b, rfl⟩
  | plain | hook => simp [hp] at hk
  | view v => simp [hp, ho] at hk
  | closing e => cases e <;> simp [hp, ho, Ending.op] at hk

theorem Task.Scoped.unheard {k : Task} (hk : k.Scoped) : k.purpose.hearsFailures = false := by
  unfold Task.Scoped at hk
  cases hp : k.purpose with
  | plain => simp [hp] at hk
  | hook | view | opening | closing => rfl

def Task.dues (k : Task) : List (Op × GuardId) :=
  if k.op.settles && k.point.early then [(k.op, k.guard)] else []

theorem Task.dues_eq_nil {k : Task} (hp : k.point.early = false) : k.dues = [] := by
  simp [dues, hp]

theorem Task.dues_called {k : Task} {x : Call} {n : Next} {r : Int → Next} (hn : k.node = .call x n r) :
    (n.after k).elim [] Task.dues = k.dues := by
  cases calls hn with
  | lock hp => simp [Next.after, dues, hp, Point.early]
  | unlock hp =>
    rw [dues_eq_nil (by rw [hp]; rfl)]
    split <;> simp [Next.after, dues, Point.early]
  | wait hp | yield hp | broadcast hp =>
    rw [dues_eq_nil (by rw [hp]; rfl)]
    simp [Next.after, deadlock, dues, Point.early]

theorem Task.write_cases {k : Task} {new : Width → Cell} {n : Next} {c : Cell} {own : Option Token}
    (hf : k.Fits c own) (hn : k.node = .write new n) :
    k.op = .acquire ∧ k.dues = [] ∧ n.after k = some { k with point := .leaving (.granted true) } ∨
      k.op.settles = true ∧ k.dues = [(k.op, k.guard)] ∧ new = k.stored ∧
        n.after k = some { k with point := .leaving .done } := by
  cases writes hn with
  | claim hp =>
    simp only [Fits, hp] at hf
    exact .inl ⟨hf.1, dues_eq_nil (by rw [hp]; rfl), rfl⟩
  | store hp =>
    simp only [Fits, hp] at hf
    exact .inr ⟨hf, by simp [dues, hf, hp, Point.early], rfl, rfl⟩

def Event.isStill : Event → Bool
  | .began _ op _ => !op.settles
  | .write .. | .opened .. | .closed .. => false
  | .ended _ .acquire _ (.gives (.granted true)) => false
  | _ => true

/-- An initializer that cannot fail takes a failure for a success. -/
def Ending.Succeeds (fallible : Bool) : Ending → Prop
  | completed => True
  | failed _ => fallible = false
  | panicked _ => False

theorem Ending.within_eq_completed_iff {b : Bool} {e : Ending} : e.within b = .completed ↔ e.Succeeds b := by
  cases e with
  | completed | panicked => simp [within, Succeeds]
  | failed => cases b <;> simp [within, Succeeds]

theorem Ending.op_within_eq_release_iff {b : Bool} {e : Ending} : (e.within b).op = .release ↔ e.Succeeds b := by
  rw [← within_eq_completed_iff]
  cases e.within b <;> simp [op]

def Succeeded (h : List Event) (g : GuardId) : Prop := ∃ t b e, .closed t g b e ∈ h ∧ e.Succeeds b

theorem succeeded_append {h es : List Event} {g : GuardId} :
    Succeeded (h ++ es) g ↔ Succeeded h g ∨ Succeeded es g := by
  simp only [Succeeded, List.mem_append, or_and_right, exists_or]

theorem succeeded_closed {t u : ThreadId} {g d : GuardId} {b : Bool} {e : Ending} {op : Op} :
    Succeeded [.closed t d b e, .began u op d] g ↔ e.Succeeds b ∧ d = g := by
  constructor
  · rintro ⟨v, c, x, hm, hx⟩
    obtain ⟨rfl, rfl, rfl, rfl⟩ : v = t ∧ g = d ∧ c = b ∧ x = e := by simpa using hm
    exact ⟨hx, rfl⟩
  · rintro ⟨he, rfl⟩
    exact ⟨t, b, e, by simp, he⟩

def Event.Fresh (past : List Event) : Event → Prop
  | .opened _ g => ¬ Succeeded past g
  | _ => True

section Still

variable {h es : List Event} {t : ThreadId} {g : GuardId} {e : Event}

theorem holds_still (hs : ∀ e ∈ es, e.isStill = true) : Holds (h ++ es) t g ↔ Holds h t g := by
  refine holds_append fun e he b => ?_
  have := hs e he
  unfold Event.isStill at this
  unfold Event.holding
  split at this <;> simp_all

theorem released_still (hs : ∀ e ∈ es, e.isStill = true) : Released (h ++ es) g ↔ Released h g := by
  refine released_append fun e he t c hw => ?_
  have := hs e he
  rw [hw] at this
  cases this

theorem contract_still (hc : Contract h) (hs : ∀ e ∈ es, e.isStill = true) : Contract (h ++ es) := by
  refine hc.append fun e he a => ?_
  have := hs e he
  unfold Event.isStill at this
  unfold Event.Entitled
  split at this <;> simp_all

theorem fresh_of_still (hs : e.isStill = true) : e.Fresh h := by
  unfold Event.isStill at hs
  unfold Event.Fresh
  split at hs <;> simp_all

theorem succeeded_still (hs : ∀ e ∈ es, e.isStill = true) : Succeeded (h ++ es) g ↔ Succeeded h g := by
  rw [succeeded_append, or_iff_left]
  rintro ⟨t, b, x, hm, -⟩
  cases hs _ hm

theorem still_of_note (hn : e.isNote = true) : e.isStill = true := by
  unfold Event.isNote at hn
  split at hn <;> first | rfl | cases hn

theorem still_marks (t : ThreadId) (c : Call) : ∀ e ∈ c.marks t, e.isStill = true := by
  cases c <;> simp [Call.marks, Event.isStill]

theorem opens_eq_nil {k : Task} {v : Value} (hv : v ≠ .granted true) : k.opens v = [] := by
  unfold Task.opens
  split
  · exact absurd rfl hv
  · rfl

theorem frames_eq_nil {k : Task} {n : Next} (hn : n ≠ .finish (.gives (.granted true))) : n.frames k = [] := by
  unfold Next.frames
  split
  · exact opens_eq_nil fun e => hn (by rw [e])
  · rfl

theorem still_report {k : Task} {n : Next} (hn : n ≠ .finish (.gives (.granted true))) :
    ∀ e ∈ n.report t k, e.isStill = true := by
  intro e he
  cases n with
  | go | tell => cases he
  | finish r =>
    cases r with
    | fails f =>
      rw [List.mem_singleton.mp he]
      cases k.op <;> rfl
    | gives v =>
      have hv : v ≠ .granted true := fun h => hn (by rw [h])
      rw [Next.report, opens_eq_nil hv, List.map_nil, List.mem_singleton] at he
      subst he
      unfold Event.isStill
      split <;> simp_all

end Still

namespace Ledger

variable {cells : GuardId → Cell} {sch : GuardId → Scheme} {l l' : Ledger} {t u : ThreadId} {d : Deed}
  {k : Task} {n : Next} {g : GuardId}

def stack (l : Ledger) (t : ThreadId) : List GuardId := (l.frames t).map Frame.guard

def dues (l : Ledger) (t : ThreadId) : List (Op × GuardId) := (l.tasks t).elim [] Task.dues

def charge (l : Ledger) (t : ThreadId) : List GuardId := (l.dues t).map Prod.snd ++ l.stack t

/-- A thread holds exactly the guards that are its charge, each of them once, and an initializer that came to a good end
has released its guard or is about to. -/
structure Bracketed (l : Ledger) : Prop where
  contract : Contract l.past
  holds : ∀ t g, Holds l.past t g ↔ g ∈ l.charge t
  nodup : ∀ t, (l.charge t).Nodup
  closed : ∀ g, Succeeded l.past g ↔ Released l.past g ∨ ∃ t, (.release, g) ∈ l.dues t
  opened : Each Event.Fresh l.past

theorem bracketed_start (cells : GuardId → Cell) : (start cells).Bracketed where
  contract := each_nil
  holds := fun t g => by simp [not_holds_nil, start, charge, dues, stack]
  nodup := fun t => by simp [start, charge, dues, stack]
  closed := fun g => by simp [start, Succeeded, Released, dues]
  opened := each_nil

theorem Step.frames_of_ne (hs : l.Step sch t d l') (hu : u ≠ t) : l'.frames u = l.frames u := by
  cases hs with
  | note | begin | wake => rfl
  | close | called | refused | took | read | asked | wrote => exact put_of_ne _ _ hu

theorem Step.dues_of_ne (hs : l.Step sch t d l') (hu : u ≠ t) : l'.dues u = l.dues u := by
  rw [dues, dues, hs.tasks_of_ne hu]

theorem Step.charge_of_ne (hs : l.Step sch t d l') (hu : u ≠ t) : l'.charge u = l.charge u := by
  rw [charge, charge, hs.dues_of_ne hu, stack, stack, hs.frames_of_ne hu]

theorem dues_of_some (hk : l.tasks t = some k) : l.dues t = k.dues := by
  rw [dues, hk, Option.elim_some]

theorem dues_of_none (hk : l.tasks t = none) : l.dues t = [] := by
  rw [dues, hk, Option.elim_none]

theorem Bracketed.charged (hl : l.Bracketed) (hs : l.Step sch t d l')
    (hu : ∀ u g, u ≠ t → (Holds l'.past u g ↔ Holds l.past u g))
    (ht : ∀ g, Holds l'.past t g ↔ g ∈ l'.charge t) :
    ∀ u g, Holds l'.past u g ↔ g ∈ l'.charge u := by
  intro u g
  by_cases hut : u = t
  · subst hut
    exact ht g
  · rw [hu u g hut, hl.holds, hs.charge_of_ne hut]

theorem Bracketed.nodup_step (hl : l.Bracketed) (hs : l.Step sch t d l') (ht : (l'.charge t).Nodup) (u : ThreadId) :
    (l'.charge u).Nodup := by
  by_cases hut : u = t
  · subst hut
    exact ht
  · rw [hs.charge_of_ne hut]
    exact hl.nodup u

theorem exists_iff_or {P Q : ThreadId → Prop} (hne : ∀ u, u ≠ t → (Q u ↔ P u)) (hn : ¬ P t) :
    (∃ u, Q u) ↔ (∃ u, P u) ∨ Q t := by
  constructor
  · intro h
    obtain ⟨u, hu⟩ := h
    by_cases hut : u = t
    · exact .inr (hut ▸ hu)
    · exact .inl ⟨u, (hne u hut).mp hu⟩
  · intro h
    rcases h with ⟨u, hu⟩ | ht
    · have hut : u ≠ t := fun e => hn (e ▸ hu)
      exact ⟨u, (hne u hut).mpr hu⟩
    · exact ⟨t, ht⟩

theorem Step.exists_due (hs : l.Step sch t d l') (hn : l.dues t = []) (x : Op × GuardId) :
    (∃ u, x ∈ l'.dues u) ↔ (∃ u, x ∈ l.dues u) ∨ x ∈ l'.dues t :=
  exists_iff_or (fun u hu => by rw [hs.dues_of_ne hu]) (by simp [hn])

theorem Step.exists_due_before (hs : l.Step sch t d l') (hn : l'.dues t = []) (x : Op × GuardId) :
    (∃ u, x ∈ l.dues u) ↔ (∃ u, x ∈ l'.dues u) ∨ x ∈ l.dues t :=
  exists_iff_or (fun u hu => by rw [hs.dues_of_ne hu]) (by simp [hn])

theorem Bracketed.still {es : List Event} (hl : l.Bracketed) (hs : l.Step sch t d l')
    (hf : l'.frames = l.frames) (hp : l'.past = l.past ++ es) (hm : ∀ e ∈ es, e.isStill = true)
    (hd : l'.dues t = l.dues t) : l'.Bracketed := by
  have hdues : l'.dues = l.dues := by
    funext u
    by_cases hu : u = t
    · rw [hu, hd]
    · exact hs.dues_of_ne hu
  have hcharge : l'.charge = l.charge := by
    funext u
    rw [charge, charge, hdues, stack, stack, hf]
  have hold : ∀ u g, Holds l'.past u g ↔ Holds l.past u g := by
    intro u g
    rw [hp, holds_still hm]
  exact {
    contract := hp ▸ contract_still hl.contract hm
    holds := by
      intro u g
      rw [hold, hcharge]
      exact hl.holds u g
    nodup := by
      rw [hcharge]
      exact hl.nodup
    closed := by
      intro g
      rw [hp, released_still hm, succeeded_still hm, hdues]
      exact hl.closed g
    opened := hp ▸ hl.opened.append fun e hx _ => fresh_of_still (hm e hx) }

theorem Bracketed.not_succeeded (hl : l.Bracketed) (hr : ¬ Released l.past g)
    (hn : ∀ u, ¬ Holds l.past u g) : ¬ Succeeded l.past g := by
  intro hm
  rcases (hl.closed g).mp hm with h | ⟨v, h⟩
  · exact hr h
  · refine hn v ((hl.holds v g).mpr ?_)
    exact List.mem_append_left _ (List.mem_map_of_mem h)

theorem Bracketed.grant {es : List Event} (hl : l.Bracketed) (hh : l.Held cells sch) (hs : l.Sound sch)
    (hsc : k.Scoped) (hst : l.Step sch t d l') (hk : l.tasks t = some k)
    (hp : k.point = .leaving (.granted true)) (hm : ∀ e ∈ es, e.isStill = true)
    (ht : l'.tasks t = none)
    (hf : l'.frames t = k.opens (.granted true) ++ l.frames t)
    (hpast : l'.past = (l.advance t k es (.finish (.gives (.granted true)))).past) : l'.Bracketed := by
  have hfit := (hs.fits t k hk).2
  simp only [Task.Fits, hp] at hfit
  obtain ⟨ho, me, -, hc⟩ := hfit
  obtain ⟨b, hb⟩ := hsc.opening ho
  have hno : k.opens (.granted true) = [⟨k.guard, b⟩] := by simp [Task.opens, hb]
  have free := hh.granting t k hk hp
  have hnr : ¬ Released l.past k.guard := hh.not_released (by rw [hc, Scheme.isComplete_claimed])
  rw [past_grant, hno, ho, List.map_singleton] at hpast
  have hrel : ∀ g, Released l'.past g ↔ Released l.past g := by
    intro g
    rw [hpast, released_concat, released_concat, released_still hm]
    simp
  have hold : ∀ u g, Holds l'.past u g ↔ Holds l.past u g ∨ t = u ∧ k.guard = g := by
    intro u g
    rw [hpast, holds_moot (by simp [Event.isMoot]), holds_granted, holds_still hm]
  have hclosed : ∀ g, Succeeded l'.past g ↔ Succeeded l.past g := by
    intro g
    rw [hpast, succeeded_append, succeeded_append, succeeded_still hm]
    simp [Succeeded]
  have hdues : l.dues t = [] := (dues_of_some hk).trans (Task.dues_eq_nil (by rw [hp]; rfl))
  have hcharge : l'.charge t = k.guard :: l.charge t := by
    rw [charge, charge, dues_of_none ht, hdues, stack, stack, hf, hno]
    rfl
  exact {
    contract := by
      rw [hpast]
      exact each_concat.mpr ⟨each_concat.mpr ⟨contract_still hl.contract hm, trivial⟩, trivial⟩
    holds := by
      refine hl.charged hst (fun u g hu => ?_) fun g => ?_
      · rw [hold, or_iff_left fun e => hu e.1.symm]
      · rw [hold, hcharge, List.mem_cons, hl.holds, or_comm, eq_comm (a := g)]
        simp only [true_and]
    nodup := by
      refine hl.nodup_step hst ?_
      rw [hcharge]
      exact List.nodup_cons.mpr ⟨fun hx => free t ((hl.holds t _).mpr hx), hl.nodup t⟩
    closed := by
      intro g
      have hd : (∃ u, (.release, g) ∈ l'.dues u) ↔ ∃ u, (.release, g) ∈ l.dues u := by
        rw [hst.exists_due hdues, dues_of_none ht]
        simp
      simp only [hclosed, hrel, hd]
      exact hl.closed g
    opened := by
      rw [hpast]
      refine each_concat.mpr ⟨each_concat.mpr ⟨hl.opened.append fun e he _ => fresh_of_still (hm e he),
        trivial⟩, fun hu => hl.not_succeeded hnr free ?_⟩
      rw [succeeded_append, succeeded_still hm] at hu
      simpa [Succeeded] using hu }

theorem Bracketed.close {f : Frame} {rest : List Frame} {e : Ending} (hl : l.Bracketed)
    (hst : l.Step sch t d l') (free : l.tasks t = none) (hf : l.frames t = f :: rest)
    (hl' : l' = launch { l.add [.closed t f.guard f.fallible e] with frames := put l.frames t rest } t
      (.start (e.within f.fallible).op f.guard (sch f.guard) (.closing (e.within f.fallible)))) : l'.Bracketed := by
  have he := Ending.op_within_eq_release_iff (b := f.fallible) (e := e)
  have ho := (e.within f.fallible).settles_op
  generalize hx : e.within f.fallible = x at hl' he ho
  have hpast : l'.past = l.past ++ [.closed t f.guard f.fallible e, .began t x.op f.guard] := by
    rw [hl']
    simp [Ledger.launch, Ledger.add, Task.start]
  have hmoot : ∀ y ∈ [Event.closed t f.guard f.fallible e, .began t x.op f.guard], y.isMoot = true := by
    simp [Event.isMoot]
  have hold : ∀ u g, Holds l'.past u g ↔ Holds l.past u g := by
    intro u g
    rw [hpast, holds_moot hmoot]
  have hdues : l'.dues t = [(x.op, f.guard)] := by
    have ht : l'.tasks t = some (.start x.op f.guard (sch f.guard) (.closing x)) := hl' ▸ put_same ..
    rw [dues_of_some ht]
    simp [Task.dues, Task.start, Point.early, ho]
  -- the guard passes from the frames to the dues, so that the charge is what it was
  have hcharge : l'.charge t = l.charge t := by
    have hf' : l'.frames t = rest := hl' ▸ put_same ..
    rw [charge, charge, hdues, dues_of_none free, stack, stack, hf, hf']
    rfl
  exact {
    contract := by
      rw [hpast, List.append_cons]
      refine each_concat.mpr ⟨each_concat.mpr ⟨hl.contract, trivial⟩, fun _ => ?_⟩
      rw [holds_moot (by simp [Event.isMoot]), hl.holds, ← hcharge, charge, hdues]
      exact List.mem_cons_self ..
    holds := by
      refine hl.charged hst (fun u g _ => hold u g) fun g => ?_
      rw [hold, hcharge]
      exact hl.holds t g
    nodup := hl.nodup_step hst (hcharge ▸ hl.nodup t)
    closed := by
      intro g
      have hcl : Succeeded l'.past g ↔ Succeeded l.past g ∨ e.Succeeds f.fallible ∧ f.guard = g := by
        rw [hpast, succeeded_append, succeeded_closed]
      have hd : (∃ u, (.release, g) ∈ l'.dues u) ↔
          (∃ u, (.release, g) ∈ l.dues u) ∨ e.Succeeds f.fallible ∧ f.guard = g := by
        rw [hst.exists_due (dues_of_none free), hdues, ← he, List.mem_singleton, Prod.mk.injEq, eq_comm (a := Op.release),
          eq_comm (a := g)]
      rw [hcl, hl.closed, hpast, released_moot hmoot, hd, or_assoc]
    opened := by
      rw [hpast]
      exact hl.opened.append (by simp [Event.Fresh]) }

theorem Bracketed.wrote {new : Width → Cell} (hl : l.Bracketed) (hs : l.Sound sch)
    (hst : l.Step sch t d l') (hk : l.tasks t = some k) (hn : k.node = .write new n)
    (hl' : l' = { l.advance t k [.write t k.op k.guard (new (l.cells k.guard).width)] n with
      cells := put l.cells k.guard (new (l.cells k.guard).width) }) : l'.Bracketed := by
  have hw := Task.write_cases (hs.fits t k hk).2 hn
  obtain ⟨v, ha⟩ := Task.after_write hn
  have ht : l'.tasks t = n.after k := hl' ▸ put_same ..
  have hf : l'.frames t = l.frames t := by
    rw [hl']
    simp [Ledger.advance, frames_eq_nil (Task.ne_finish_of_after ha _)]
  have hpast : l'.past = l.past ++ [.write t k.op k.guard (new (l.cells k.guard).width)] := by
    rw [hl']
    exact past_write _ hn
  have hold : ∀ u g, Holds l'.past u g ↔ Holds l.past u g ∧ ¬ (k.op.settles = true ∧ t = u ∧ k.guard = g) := by
    intro u g
    rw [hpast, holds_write]
  have hnone : l'.dues t = [] := (dues_of_some (ht.trans ha)).trans (Task.dues_eq_nil rfl)
  have hdues : l.dues t = if k.op.settles then [(k.op, k.guard)] else [] := by
    rw [dues_of_some hk]
    rcases hw with ⟨ho, hd, -⟩ | ⟨ho, hd, -⟩
    · simp [hd, ho, Op.settles]
    · simp [hd, ho]
  have hcharge : l.charge t = (if k.op.settles then [k.guard] else []) ++ l'.charge t := by
    rw [charge, charge, hnone, hdues, stack, stack, hf]
    split <;> rfl
  exact {
    contract := by
      rw [hpast]
      exact each_concat.mpr ⟨hl.contract, trivial⟩
    holds := by
      refine hl.charged hst (fun u g hu => ?_) fun g => ?_
      · rw [hold, and_iff_left fun e => hu e.2.1.symm]
      · have hd := hl.nodup t
        rw [hold, hl.holds, hcharge]
        rw [hcharge] at hd
        split at hd
        · next ho =>
          rw [List.singleton_append, List.nodup_cons] at hd
          simp only [ho, if_true, List.singleton_append, List.mem_cons, true_and]
          constructor
          · intro hx
            exact hx.1.resolve_left fun e => hx.2 e.symm
          · intro hx
            exact ⟨.inr hx, fun e => hd.1 (e ▸ hx)⟩
        · next ho => simp [ho]
    nodup := by
      have hd := hl.nodup t
      rw [hcharge] at hd
      exact hl.nodup_step hst (List.nodup_append.mp hd).2.1
    closed := by
      intro g
      have hcl : Succeeded l'.past g ↔ Succeeded l.past g := by
        simp [hpast, Succeeded]
      have hrel : Released l'.past g ↔ Released l.past g ∨ k.op = .release ∧ k.guard = g := by
        rw [hpast, released_concat]
        simp
      have hd : (.release, g) ∈ l.dues t ↔ k.op = .release ∧ k.guard = g := by
        rw [hdues]
        cases k.op <;> simp [Op.settles, eq_comm]
      rw [hcl, hl.closed, hrel, hst.exists_due_before hnone, hd, or_assoc, or_comm (a := k.op = .release ∧ k.guard = g)]
    opened := by
      rw [hpast]
      exact each_concat.mpr ⟨hl.opened, trivial⟩ }

theorem Bracketed.move {es : List Event} (hl : l.Bracketed) (hst : l.Step sch t d l')
    (hk : l.tasks t = some k) (ht : l'.tasks t = n.after k)
    (hf : l'.frames = put l.frames t (n.frames k ++ l.frames t))
    (hp : l'.past = l.past ++ (es ++ n.report t k)) (hm : ∀ e ∈ es, e.isStill = true)
    (hn : n ≠ .finish (.gives (.granted true))) (hd : (n.after k).elim [] Task.dues = k.dues) : l'.Bracketed := by
  refine hl.still hst ?_ hp ?_ ?_
  · rw [hf, frames_eq_nil hn, List.nil_append, put_eq_self]
  · intro e hx
    rcases List.mem_append.mp hx with hx | hx
    · exact hm e hx
    · exact still_report hn e hx
  · rw [dues, ht, hd, dues_of_some hk]

theorem Step.fate_of_none (hs : l.Step sch t d l') (hf : l'.fate = none) : l.fate = none := by
  cases hs with
  | note | begin | close | wake => exact hf
  | called | refused | took | read | asked | wrote => exact (Option.or_eq_none_iff.mp hf).2

theorem Path.scoped (hp : Path sch (Deed.Within Scoped) (start cells) l) :
    ∀ t k, l.tasks t = some k → k.Scoped :=
  hp.tasks (P := fun op p => (Task.start op 0 .flag p).Scoped) (fun _ _ hs => scoped_start hs) fun _ => rfl

theorem Step.accepted (hs : l.Step sch t d l') (hsc : ∀ t k, l.tasks t = some k → k.Scoped) (hf : l'.fate = none)
    (c : Call) : d ≠ .refused c := by
  rintro rfl
  cases hs with
  | @refused k _ _ _ code hk _ hn =>
    obtain ⟨f, hr⟩ := Task.refused_eq hn code
    simp [Ledger.advance, hr, Next.doom, (hsc t k hk).unheard] at hf

theorem Path.accepted (hp : Path sch (Deed.Within Scoped) (start cells) l) (hf : l.fate = none) :
    ∀ u c code, .call u (.refused c code) ∉ l.past := by
  induction hp with
  | refl => exact fun u c code hm => nomatch hm
  | step hp _ _ hs ih =>
    obtain ⟨es, he, ht⟩ := hs.news
    intro u c code hm
    rw [he] at hm
    rcases List.mem_append.mp hm with hm | hm
    · exact ih (hs.fate_of_none hf) u c code hm
    · exact hs.accepted hp.scoped hf c (ht _ hm).2

theorem Bracketed.step (hl : l.Bracketed) (hh : l.Held cells sch) (hs : l.Sound sch)
    (hsc : ∀ t k, l.tasks t = some k → k.Scoped) (hst : l.Step sch t d l') (hd : d.Within Scoped)
    (hf : l'.fate = none) : l'.Bracketed := by
  have hst' := hst
  cases hst with
  | note hn => exact hl.still hst' rfl rfl (by simpa using still_of_note hn) rfl
  | wake => exact hl.still hst' rfl (List.append_nil _).symm (by simp) rfl
  | begin op g p free =>
    have hop := (hd op p rfl).not_settles
    refine hl.still hst' rfl rfl (by simp [Event.isStill, Task.start, hop]) ?_
    rw [dues_of_none free, dues_of_some (put_same ..)]
    simp [Task.dues, Task.start, hop]
  | close e free hfr => exact hl.close hst' free hfr rfl
  | @called k c n r hk _ hn =>
    by_cases hp : k.point = .leaving (.granted true)
    · obtain ⟨-, rfl⟩ := Task.granted_of_point (hs.fits t k hk).2 hp hn
      exact hl.grant hh hs (hsc t k hk) hst' hk hp (still_marks t c) (put_same ..) (put_same ..) rfl
    · exact hl.move hst' hk (put_same ..) rfl rfl (still_marks t c)
        (fun h => hp (Task.point_of_granted hn h)) (Task.dues_called hn)
  | refused => exact absurd rfl (hst'.accepted hsc hf _)
  | @took k w n hk _ hn =>
    obtain ⟨hp, ha⟩ := Task.after_take hn
    refine hl.move hst' hk (put_same ..) rfl rfl (by cases w <;> simp [Event.isStill])
      (Task.ne_finish_of_after ha _) ?_
    rw [ha, Option.elim_some]
    rcases hp with hp | hp
    · by_cases ho : k.op.settles = true <;> simp [Task.dues, hp, ho, Point.early]
    · have ho := (hs.fits t k hk).2
      simp only [Task.Fits, hp] at ho
      simp [Task.dues, ho, Op.settles]
  | @read k f hk _ hn =>
    obtain ⟨k', ha, -, -, he⟩ := Task.after_read hn (l.cells k.guard)
    have hp := Task.point_of_read hn
    refine hl.move hst' hk (put_same ..) rfl rfl (by simp [Event.isStill]) (Task.ne_finish_of_after ha _) ?_
    rw [ha, Option.elim_some, Task.dues_eq_nil he, Task.dues_eq_nil (by rw [hp]; rfl)]
  | @asked k f me hk _ hn =>
    obtain ⟨k', ha, -, -, he⟩ := Task.after_ask hn me
    obtain ⟨x, hp⟩ := Task.point_of_ask hn
    refine hl.move hst' hk (put_same ..) rfl rfl (by simp) (Task.ne_finish_of_after ha _) ?_
    rw [ha, Option.elim_some, Task.dues_eq_nil he, Task.dues_eq_nil (by rw [hp]; rfl)]
  | wrote hk _ hn => exact hl.wrote hs hst' hk hn rfl

theorem Path.bracketed (hp : Path sch (Deed.Within Scoped) (start cells) l) (hf : l.fate = none) : l.Bracketed := by
  induction hp with
  | refl => exact bracketed_start cells
  | step hp hd _ hs ih =>
    have hl := ih (hs.fate_of_none hf)
    exact hl.step (hp.held hl.contract) hp.sound hp.scoped hs hd hf

end Ledger
end OnceInit

import OnceInit.Proofs.Bout

/-! Handing over. A release or an abort wakes all that sleep, whatever they wait for, and they go on one after the
other. -/

namespace OnceInit.Machine

variable {s : Setup} {sch : GuardId → Scheme} {cells : GuardId → Cell} {m m' : Machine} {h : List Event}
  {t u : ThreadId} {k : Task} {g d : GuardId} {me : Token} {ts rest : List ThreadId}

def wants (m : Machine) (g : GuardId) (t : ThreadId) : Bool := (m.tasks t).any fun k => k.guard = g

def waiters (s : Setup) (m : Machine) (g : GuardId) : List ThreadId := (s.wakeOrder m.sleepers).filter (m.wants g)

def served (m : Machine) (t : ThreadId) : Bool := (m.tasks t).any fun k => (m.cells k.guard).isComplete

def visit (s : Setup) (m : Machine) (t : ThreadId) : List Event :=
  match m.tasks t with
  | none => []
  | some k =>
    .call t .woke :: .read t k.guard (m.cells k.guard) ::
      if (m.cells k.guard).isComplete then
        [.call t .unlocked, .ended t .acquire k.guard (.gives (.granted false)),
          .answer t (k.purpose.answer (.granted false))]
      else s.log t (.waiting k.guard) ++ [.call t .slept, .answer t .waiting]

def visited (m : Machine) (ts rest : List ThreadId) : Machine :=
  { m with
    ready := rest
    tasks := fun t => if t ∈ ts ∧ m.served t = true then none else m.tasks t
    sleepers := m.sleepers ++ ts.filter fun t => !m.served t }

def Heeds (sch : GuardId → Scheme) (m : Machine) (t : ThreadId) : Prop :=
  ∃ k me, m.Dozes sch t k me ∧ ((m.cells k.guard).isComplete = true ∨ m.Kept sch k me)

theorem register_of_known (hk : m.tokens.known t = some me) : m.register s t = m := by
  rw [register, Registry.ask_known hk]

theorem Kept.not_complete (hk : m.Kept sch k me) : (m.cells k.guard).isComplete = false := by
  obtain ⟨c, hc, -⟩ := hk
  exact ((Scheme.phaseOf_eq_underWay_iff ..).mp hc).1

theorem served_of_task (hk : m.tasks t = some k) : m.served t = (m.cells k.guard).isComplete := by
  rw [served, hk, Option.any_some]

theorem Dozes.of_eq (hd : m.Dozes sch t k me) (ht : m'.tasks t = m.tasks t) (hk : m'.tokens = m.tokens) :
    m'.Dozes sch t k me :=
  ⟨ht.trans hd.task, hd.acquires, hd.waking, hd.scheme, hd.suits, hk ▸ hd.known⟩

theorem Heeds.of_eq (hh : m.Heeds sch t) (ht : m'.tasks t = m.tasks t) (hk : m'.tokens = m.tokens)
    (hc : m'.cells = m.cells) : m'.Heeds sch t := by
  obtain ⟨k, me, hd, hs⟩ := hh
  refine ⟨k, me, hd.of_eq ht hk, ?_⟩
  rw [Kept, hc]
  exact hs

theorem Waits.heeds (hw : m.Waits sch t) : m.Heeds sch t := by
  obtain ⟨k, me, hd, hk⟩ := hw
  exact ⟨k, me, hd, .inr hk⟩

theorem Waits.not_served (hw : m.Waits sch t) : m.served t = false := by
  obtain ⟨k, me, hd, hk⟩ := hw
  exact (served_of_task hd.task).trans hk.not_complete

theorem visit_of_eq (ht : m'.tasks t = m.tasks t) (hc : m'.cells = m.cells) : m'.visit s t = m.visit s t := by
  rw [visit, visit, ht, hc]

theorem visited_one_of_served (hr : m.running = none) (hs : m.served t = true) :
    m.visited [t] rest = { m with ready := rest }.done t := by
  have ht : (fun u => if u ∈ [t] ∧ m.served u = true then none else m.tasks u) = put m.tasks t none := by
    funext u
    by_cases hu : u = t
    · simp [hu, hs]
    · simp [hu, put_of_ne]
  rw [visited, ht, done, ← hr]
  simp [hs]

theorem visited_of_not_served (hs : ∀ t ∈ ts, m.served t = false) :
    m.visited ts rest = { m with ready := rest, sleepers := m.sleepers ++ ts } := by
  have ht : (fun u => if u ∈ ts ∧ m.served u = true then none else m.tasks u) = m.tasks := by
    funext u
    exact if_neg fun hu => by simp [hs u hu.1] at hu
  have hf : (ts.filter fun u => !m.served u) = ts := List.filter_eq_self.mpr fun u hu => by simp [hs u hu]
  rw [visited, ht, hf]

theorem visited_cons (ht : t ∉ ts) {rest' : List ThreadId} :
    m.visited (t :: ts) rest = (m.visited [t] rest').visited ts rest := by
  have hne : ∀ u ∈ ts, u ≠ t := fun u hu e => ht (e ▸ hu)
  have hs : ∀ u ∈ ts, (m.visited [t] rest').served u = m.served u := by
    intro u hu
    simp [served, visited, hne u hu]
  have htasks : (m.visited (t :: ts) rest).tasks = ((m.visited [t] rest').visited ts rest).tasks := by
    funext u
    by_cases hu : u ∈ ts
    · simp [visited, hu, hne u hu, served]
    · simp [visited, hu]
  have hsleepers : (m.visited (t :: ts) rest).sleepers = ((m.visited [t] rest').visited ts rest).sleepers := by
    change m.sleepers ++ (t :: ts).filter (fun u => !m.served u) =
      m.sleepers ++ [t].filter (fun u => !m.served u) ++ ts.filter fun u => !(m.visited [t] rest').served u
    have hf : (ts.filter fun u => !(m.visited [t] rest').served u) = ts.filter fun u => !m.served u :=
      List.filter_congr fun u hu => by rw [hs u hu]
    rw [hf, List.append_assoc, ← List.filter_append, List.singleton_append]
  calc m.visited (t :: ts) rest = { m with
        ready := rest
        tasks := (m.visited (t :: ts) rest).tasks
        sleepers := (m.visited (t :: ts) rest).sleepers } := rfl
    _ = (m.visited [t] rest').visited ts rest := by
      rw [htasks, hsleepers]
      rfl

theorem leads_woken (hd : m.Dozes sch t k me) (hm : m.Free) (hr : m.running = none)
    (hk : (m.cells k.guard).isComplete = true ∨ m.Kept sch k me) :
    Leads s (m.doing t k) (m.visit s t) (m.visited [t] m.ready) := by
  have hn : k.node = .take true k.entered := by rw [Task.node, hd.waking]
  rw [visit, hd.task]
  rcases hk with hc | hk
  · have hl := leads_complete (s := s) (t := t) hd.acquires hn hm.owner hm.alive (hm.unarmed.refusal _) hc
    rw [hm.letGo] at hl
    rw [visited_one_of_served hr ((served_of_task hd.task).trans hc)]
    simpa [hc] using hl
  · have hc := hk.not_complete
    obtain ⟨c, hp, hne⟩ := hk
    rw [← hd.scheme] at hp
    rw [← token_of_known (s := s) hd.known] at hne
    have hl := leads_dozing (s := s) (t := t) hd.acquires hn hm.owner hm.alive (hm.unarmed.refusal _) hp hne
    have he : m.dozing t k = { m with sleepers := m.sleepers ++ [t] } := by
      have hw : { k with point := .waking } = k := by rw [← hd.waking]
      rw [dozing, hw, ← hd.task, put_eq_self, ← hr]
    rw [register_of_known hd.known, hm.letGo, he] at hl
    rw [visited_of_not_served (List.forall_mem_singleton.mpr ((served_of_task hd.task).trans hc))]
    simpa [hc] using hl

theorem Poised.drain_woken (hp : m.Poised sch) (ht : t ∈ m.sleepers) (ts : List ThreadId) :
    drain s { m with running := some t, sleepers := ts } = (visited { m with sleepers := ts } [t] [], m.visit s t) := by
  obtain ⟨k, me, hd, hk⟩ := hp.asleep t ht
  have hl := leads_woken (s := s) (m := { m with sleepers := ts }) (hd.of_eq rfl rfl)
    ⟨hp.queue, hp.owner, hp.alive, hp.unarmed⟩ hp.running (.inr hk)
  have he : ({ m with sleepers := ts } : Machine).doing t k = { m with running := some t, sleepers := ts } := by
    rw [doing, ← hd.task, put_eq_self]
  rw [← he, hl.drain_eq hp.running hp.ready, hp.ready]
  rfl

theorem leads_visit (hd : m.Dozes sch t k me) (hm : m.Free) (hr : m.running = none) (hq : m.ready = t :: rest)
    (hk : (m.cells k.guard).isComplete = true ∨ m.Kept sch k me) :
    Leads s m (m.visit s t) (m.visited [t] rest) := by
  have h₁ := leads_resumed (s := s) hr hq hd.task hm.alive
  have h₂ := leads_woken (s := s) (m := { m with ready := rest })
    (hd.of_eq rfl rfl) ⟨hm.queue, hm.owner, hm.alive, hm.unarmed⟩ hr hk
  exact h₁.trans h₂

theorem leads_visited (hm : m.Free) (hr : m.running = none) (hq : m.ready = ts ++ rest) (hn : ts.Nodup)
    (hh : ∀ t ∈ ts, m.Heeds sch t) : Leads s m (ts.flatMap (m.visit s)) (m.visited ts rest) := by
  induction ts generalizing m with
  | nil =>
    have he : m.visited [] rest = m := by
      rw [List.nil_append] at hq
      simp [visited, ← hq]
    rw [he]
    exact .refl
  | cons t ts ih =>
    obtain ⟨ht, hn⟩ := List.nodup_cons.mp hn
    obtain ⟨k, me, hd, hk⟩ := hh t List.mem_cons_self
    have hkeep : ∀ u ∈ ts, (m.visited [t] (ts ++ rest)).tasks u = m.tasks u := by
      intro u hu
      have hne : u ≠ t := fun e => ht (e ▸ hu)
      simp [visited, hne]
    have h₁ := leads_visit (s := s) hd hm hr hq hk
    have h₂ := ih (m := m.visited [t] (ts ++ rest)) ⟨hm.queue, hm.owner, hm.alive, hm.unarmed⟩ hr rfl hn
      fun u hu => (hh u (List.mem_cons_of_mem t hu)).of_eq (hkeep u hu) rfl rfl
    rw [← visited_cons ht, List.flatMap_congr fun u hu => visit_of_eq (hkeep u hu) rfl] at h₂
    exact h₁.trans h₂

def roused (s : Setup) (m : Machine) (g : GuardId) (c : Cell) : Machine :=
  { m with cells := put m.cells g c, ready := s.wakeOrder m.sleepers, sleepers := [] }

@[simp] theorem cells_roused (m : Machine) (g : GuardId) (c : Cell) :
    (m.roused s g c).cells = put m.cells g c := rfl

def settling (s : Setup) (m : Machine) (t : ThreadId) (k : Task) : List Event :=
  .call t .locked :: .write t k.op k.guard (k.stored (m.cells k.guard).width) ::
    (s.log t k.storedNote ++ [.call t .unlocked, .call t .announced, .ended t k.op k.guard (.gives .done),
      .answer t (k.purpose.answer .done)])

theorem Poised.leads_roused (hp : m.Poised sch) (free : m.tasks t = none) (hs : k.op.settles = true)
    (hl : k.point = .locking) :
    Leads s (m.doing t k) (m.settling s t k) (m.roused s k.guard (k.stored (m.cells k.guard).width)) := by
  have h := leads_settled (s := s) (t := t) hs hl hp.toFree
  have he : ((m.poke k.guard (k.stored (m.cells k.guard).width)).broadcast s).done t =
      m.roused s k.guard (k.stored (m.cells k.guard).width) := by
    simp only [done, broadcast, poke, roused, hp.ready, hp.running, ← free, put_eq_self, List.nil_append]
  rwa [he] at h

theorem mem_wakeOrder {l : List ThreadId} : t ∈ s.wakeOrder l ↔ t ∈ l := by
  unfold Setup.wakeOrder
  split <;> simp

theorem wakeOrder_perm (s : Setup) (l : List ThreadId) : (s.wakeOrder l).Perm l := by
  unfold Setup.wakeOrder
  split
  · exact l.reverse_perm
  · exact .refl l

theorem Poised.free_roused (hp : m.Poised sch) (g : GuardId) (c : Cell) : (m.roused s g c).Free :=
  ⟨hp.queue, hp.owner, hp.alive, hp.unarmed⟩

theorem Poised.heeds_roused (hp : m.Poised sch) (ht : t ∈ m.sleepers) {c : Cell}
    (hg : m.wants g t = true → c.isComplete = true) : (m.roused s g c).Heeds sch t := by
  obtain ⟨k, me, hd, hk⟩ := hp.asleep t ht
  refine ⟨k, me, hd.of_eq rfl rfl, ?_⟩
  by_cases hkg : k.guard = g
  · rw [cells_roused, hkg, put_same]
    exact .inl (hg (by simp [wants, hd.task, hkg]))
  · rw [Kept, cells_roused, put_of_ne _ _ hkg]
    exact .inr hk

theorem Poised.served_roused (hp : m.Poised sch) (ht : t ∈ m.sleepers) (c : Cell) :
    (m.roused s g c).served t = (m.wants g t && c.isComplete) := by
  obtain ⟨k, me, hd, hk⟩ := hp.asleep t ht
  rw [served_of_task (m := m.roused s g c) hd.task, wants, hd.task, Option.any_some]
  by_cases hkg : k.guard = g
  · rw [cells_roused, hkg, put_same]
    simp
  · rw [cells_roused, put_of_ne _ _ hkg, hk.not_complete]
    simp [hkg]

theorem Poised.leads_heeded {xs ys : List ThreadId} {c : Cell} (hp : m.Poised sch)
    (hw : s.wakeOrder m.sleepers = xs ++ ys) (hx : ∀ u ∈ xs, m.wants g u = true → c.isComplete = true) :
    Leads s (m.roused s g c) (xs.flatMap (visit s (m.roused s g c))) ((m.roused s g c).visited xs ys) := by
  have hn : (xs ++ ys).Nodup := hw ▸ (wakeOrder_perm s _).nodup_iff.mpr hp.nodup
  exact leads_visited (hp.free_roused g c) hp.running hw (List.nodup_append.mp hn).1
    fun u hu => hp.heeds_roused (mem_wakeOrder.mp (hw ▸ List.mem_append_left _ hu)) (hx u hu)

def passed (s : Setup) (m : Machine) (t : ThreadId) (k : Task) (ts : List ThreadId) : Machine :=
  { m with
    cells := put m.cells k.guard (k.scheme.claimed (m.cells k.guard).width (m.token s t))
    tasks := put m.tasks t none
    frames := put m.frames t (k.opens (.granted true) ++ m.frames t)
    sleepers := ts }

@[simp] theorem cells_passed (m : Machine) (t : ThreadId) (k : Task) (ts : List ThreadId) :
    (m.passed s t k ts).cells =
      put m.cells k.guard (k.scheme.claimed (m.cells k.guard).width (m.token s t)) := rfl

theorem Poised.waits_passed (hp : m.Poised sch) (hd : m.tokens.Distinct) (ht : m.Dozes sch t k me)
    (hu : u ∈ m.sleepers) (hne : u ≠ t) (ts : List ThreadId) : (m.passed s t k ts).Waits sch u := by
  obtain ⟨k', me', hd', hk'⟩ := hp.asleep u hu
  refine ⟨k', me', hd'.of_eq (put_of_ne _ _ hne) rfl, ?_⟩
  by_cases hg : k'.guard = k.guard
  · rw [Kept, cells_passed, hg, put_same, ht.scheme, Scheme.phaseOf_claimed, token_of_known ht.known]
    refine ⟨_, rfl, ?_⟩
    split
    · rintro ⟨⟩
      exact hne (hd u t me hd'.known ht.known)
    · simp
  · rw [Kept, cells_passed, put_of_ne _ _ hg]
    exact hk'

theorem Poised.leads_passed {xs ys : List ThreadId} {c : Cell} (hp : m.Poised sch) (hd : m.tokens.Distinct)
    (hw : s.wakeOrder m.sleepers = xs ++ t :: ys) (hx : ∀ u ∈ xs, m.wants k.guard u = false)
    (ht : m.Dozes sch t k me) (hc : Cell.zero (m.cells k.guard).width = c) :
    Leads s (m.roused s k.guard c)
      (xs.flatMap (visit s (m.roused s k.guard c)) ++
        (granting s (m.roused s k.guard c) t k true ++ ys.flatMap (visit s (m.passed s t k xs))))
      (m.passed s t k (xs ++ ys)) := by
  have hmem : ∀ u ∈ xs ++ t :: ys, u ∈ m.sleepers := fun u hu => mem_wakeOrder.mp (hw ▸ hu)
  have hn : (xs ++ t :: ys).Nodup := hw ▸ (wakeOrder_perm s _).nodup_iff.mpr hp.nodup
  have hs₁ : ∀ u ∈ xs, (m.roused s k.guard c).served u = false := fun u hu => by
    rw [hp.served_roused (hmem u (by simp [hu])), hx u hu, Bool.false_and]
  have h₁ := hp.leads_heeded (s := s) (c := c) hw fun u hu hg => absurd (hg.symm.trans (hx u hu)) (by simp)
  rw [visited_of_not_served hs₁] at h₁
  generalize hm₂ : ({ m.roused s k.guard c with ready := ys, sleepers := xs } : Machine) = m₂
  have h₂ : Leads s { m.roused s k.guard c with ready := t :: ys, sleepers := xs } [] (m₂.doing t k) := by
    rw [← hm₂]
    exact leads_resumed hp.running rfl ht.task hp.alive
  have hf : m₂.Free := by
    rw [← hm₂]
    exact ⟨hp.queue, hp.owner, hp.alive, hp.unarmed⟩
  have h₃ : Leads s (m₂.doing t k) (granting s m₂ t k true) { m.passed s t k xs with ready := ys } := by
    have hz : k.scheme.phaseOf (m₂.cells k.guard) = .untouched := by
      rw [← hm₂, cells_roused, put_same, ← hc, Scheme.phaseOf_zero]
    have hl := leads_granted (s := s) (t := t) (w := true) ht.acquires (by rw [Task.node, ht.waking]) hf.owner hf.alive
      (hf.unarmed.refusal _) hz
    rw [((hf.register t).poke ..).letGo] at hl
    have he : (((m₂.register s t).poke k.guard (k.scheme.claimed (m₂.cells k.guard).width (m₂.token s t))).enter t k
        (.granted true)).done t = { m.passed s t k xs with ready := ys } := by
      rw [← hm₂, register_of_known (m := { m.roused s k.guard c with ready := ys, sleepers := xs }) ht.known]
      simp [done, enter, poke, passed, roused, ← hc, hp.running, token]
    rwa [he] at hl
  have h₄ : Leads s { m.passed s t k xs with ready := ys } (ys.flatMap (visit s (m.passed s t k xs)))
      (m.passed s t k (xs ++ ys)) := by
    obtain ⟨hty, hny⟩ := List.nodup_cons.mp (List.nodup_append.mp hn).2.1
    have hw : ∀ u ∈ ys, (m.passed s t k xs).Waits sch u := fun u hu =>
      hp.waits_passed hd ht (hmem u (by simp [hu])) (fun e => hty (e ▸ hu)) xs
    have hl : Leads s { m.passed s t k xs with ready := ys } _
        (visited { m.passed s t k xs with ready := ys } ys []) := leads_visited
      ⟨hp.queue, hp.owner, hp.alive, hp.unarmed⟩ hp.running (List.append_nil ys).symm hny fun u hu =>
        (hw u hu).heeds.of_eq rfl rfl rfl
    rw [visited_of_not_served (m := { m.passed s t k xs with ready := ys }) fun u hu => (hw u hu).not_served] at hl
    have he : m.passed s t k (xs ++ ys) = { m.passed s t k (xs ++ ys) with ready := [] } := by
      rw [← hp.ready]
      rfl
    rw [he]
    exact hl
  have hl := h₁.trans (h₂.trans (h₃.trans h₄))
  subst hm₂
  exact hl

variable {es : List Event}

/-- The acquire of `g` in which `t` slept has returned, and its caller is told whether it was granted. -/
structure Returned (es : List Event) (m m' : Machine) (t : ThreadId) (g : GuardId) (yes : Bool) : Prop where
  idle : m'.tasks t = none
  ended : .ended t .acquire g (.gives (.granted yes)) ∈ es
  answered : ∃ k, m.tasks t = some k ∧ .answer t (k.purpose.answer (.granted yes)) ∈ es ∧
    k.purpose.answer (.granted yes) ∈
      if yes then [.granted true, .code true, .inside] else [.granted false, .code false, .ran false]

/-- `t` has gone to sleep again, in the acquire in which it slept before. -/
structure SleepsOn (es : List Event) (m m' : Machine) (t : ThreadId) : Prop where
  asleep : t ∈ m'.sleepers
  task : m'.tasks t = m.tasks t
  slept : .call t .slept ∈ es

/-- What a release or an abort of `g` does, from `m` to `m'`, to the threads that wait. -/
structure HandsOver (s : Setup) (sch : GuardId → Scheme) (op : Op) (g : GuardId) (m m' : Machine)
    (es : List Event) : Prop where
  alive : m'.fate = none
  unfailed : ∀ u o d f, .ended u o d (.fails f) ∉ es
  granted : ∀ u d, .ended u .acquire d (.gives (.granted true)) ∈ es →
    op = .abort ∧ d = g ∧ (m.waiters s g).head? = some u
  others : ∀ d, d ≠ g → m'.cells d = m.cells d ∧ (m'.waiters s d).Perm (m.waiters s d) ∧
    ∀ t ∈ m.waiters s d, SleepsOn es m m' t
  released : op = .release → (sch g).phaseOf (m'.cells g) = .complete ∧ m'.waiters s g = [] ∧
    ∀ t ∈ m.waiters s g, Returned es m m' t g false
  aborted : op = .abort → m.waiters s g = [] → m'.cells g = .zero (m.cells g).width ∧ m'.waiters s g = []
  passed : op = .abort → ∀ t rest, m.waiters s g = t :: rest →
    m'.cells g = (sch g).claimed (m.cells g).width (m.token s t) ∧ Returned es m m' t g true ∧
      (m'.waiters s g).Perm rest ∧ ∀ u ∈ rest, SleepsOn es m m' u

theorem returned {yes : Bool} (hd : m.Dozes sch t k me) (hg : k.guard = g) (ht : m'.tasks t = none)
    (he : .ended t .acquire k.guard (.gives (.granted yes)) ∈ es)
    (ha : .answer t (k.purpose.answer (.granted yes)) ∈ es) : Returned es m m' t g yes := by
  subst hg
  have hs : k.purpose.Suits .acquire := hd.acquires ▸ hd.suits
  refine ⟨ht, he, k, hd.task, ha, ?_⟩
  cases yes with
  | false => exact hs.answers.1
  | true => exact hs.answers.2

theorem mem_waiters : t ∈ m.waiters s g ↔ t ∈ m.sleepers ∧ ∃ k, m.tasks t = some k ∧ k.guard = g := by
  rw [waiters, List.mem_filter, mem_wakeOrder, wants, Option.any_eq_true]
  simp

theorem waiters_filter {p : ThreadId → Bool} (hs : m'.sleepers = (s.wakeOrder m.sleepers).filter p)
    (ht : ∀ u ∈ m.sleepers, p u = true → m'.tasks u = m.tasks u ∧ .call u .slept ∈ es) (d : GuardId) :
    (m'.waiters s d).Perm ((m.waiters s d).filter p) ∧ ∀ u ∈ (m.waiters s d).filter p, SleepsOn es m m' u := by
  constructor
  · have hw : ((s.wakeOrder m.sleepers).filter p).filter (m'.wants d) = (m.waiters s d).filter p := by
      rw [waiters, List.filter_filter, List.filter_filter]
      refine List.filter_congr fun u hu => ?_
      cases hpu : p u with
      | false => simp
      | true => rw [wants, wants, (ht u (mem_wakeOrder.mp hu) hpu).1, Bool.and_comm]
    rw [waiters, hs, ← hw]
    exact (wakeOrder_perm s _).filter _
  · intro u hu
    obtain ⟨hu, hpu⟩ := List.mem_filter.mp hu
    obtain ⟨hu, -⟩ := mem_waiters.mp hu
    obtain ⟨h₁, h₂⟩ := ht u hu hpu
    exact ⟨by rw [hs]; exact List.mem_filter.mpr ⟨mem_wakeOrder.mpr hu, hpu⟩, h₁, h₂⟩

theorem waiters_kept {p : ThreadId → Bool} (hs : m'.sleepers = (s.wakeOrder m.sleepers).filter p)
    (ht : ∀ u ∈ m.sleepers, p u = true → m'.tasks u = m.tasks u ∧ .call u .slept ∈ es)
    (hd : ∀ u ∈ m.waiters s d, p u = true) :
    (m'.waiters s d).Perm (m.waiters s d) ∧ ∀ u ∈ m.waiters s d, SleepsOn es m m' u := by
  have hw := waiters_filter hs ht d
  rwa [List.filter_eq_self.mpr hd] at hw

theorem ended_not_mem_log {n : Note} {o : Op} {r : Outcome} : .ended u o d r ∉ s.log t n := by
  intro he
  cases isNote_log _ he

theorem ended_of_visit {o : Op} {r : Outcome} (he : .ended u o d r ∈ m.visit s t) : r = .gives (.granted false) := by
  unfold visit at he
  split at he
  · cases he
  · split at he
    · simp at he
      exact he.2.2.2
    · simp [ended_not_mem_log] at he

theorem ended_of_settling {o : Op} {r : Outcome} (he : .ended u o d r ∈ m.settling s t k) : r = .gives .done := by
  simp [settling, ended_not_mem_log] at he
  exact he.2.2.2

theorem ended_of_granting {o : Op} {r : Outcome} {w : Bool} (he : .ended u o d r ∈ m.granting s t k w) :
    u = t ∧ d = k.guard ∧ r = .gives (.granted true) := by
  simp [granting, ended_not_mem_log] at he
  exact ⟨he.1, he.2.2⟩

theorem slept_of_not_served (hs : m.served t = false) (hk : m.tasks t = some k) : .call t .slept ∈ m.visit s t := by
  simp [visit, hk, (served_of_task hk).symm.trans hs]

theorem answered_of_served (hs : m.served t = true) (hk : m.tasks t = some k) :
    .ended t .acquire k.guard (.gives (.granted false)) ∈ m.visit s t ∧
      .answer t (k.purpose.answer (.granted false)) ∈ m.visit s t := by
  simp [visit, hk, (served_of_task hk).symm.trans hs]

def heeding (s : Setup) (m : Machine) (r : ThreadId) (k : Task) (c : Cell) : List Event :=
  m.settling s r k ++ (s.wakeOrder m.sleepers).flatMap (visit s (m.roused s k.guard c))

theorem Poised.drain_heeded {r : ThreadId} (hp : m.Poised sch) (free : m.tasks r = none) (hs : k.op.settles = true)
    (hl : k.point = .locking) (hh : k.op = .release ∨ m.waiters s k.guard = []) :
    (m.doing r k).drain s =
      ((m.roused s k.guard (k.stored (m.cells k.guard).width)).visited (s.wakeOrder m.sleepers) [],
        m.heeding s r k (k.stored (m.cells k.guard).width)) := by
  have h₁ := hp.leads_heeded (g := k.guard) (c := k.stored (m.cells k.guard).width)
    (List.append_nil (s.wakeOrder m.sleepers)).symm fun u hu hw => by
      rcases hh with ho | hn
      · rw [Task.isComplete_stored, decide_eq_true ho]
      · exact absurd hw (List.filter_eq_nil_iff.mp hn u hu)
  exact ((hp.leads_roused free hs hl).trans h₁).drain_eq hp.running rfl

section Heeded

variable {r : ThreadId} {c : Cell}

theorem mem_heeding {e : Event} (hu : u ∈ m.sleepers) (he : e ∈ visit s (m.roused s k.guard c) u) :
    e ∈ m.heeding s r k c :=
  List.mem_append_right _ (List.mem_flatMap.mpr ⟨u, mem_wakeOrder.mpr hu, he⟩)

theorem ended_of_heeding {o : Op} {x : Outcome} (he : .ended u o d x ∈ m.heeding s r k c) :
    x = .gives .done ∨ x = .gives (.granted false) := by
  rcases List.mem_append.mp he with he | he
  · exact .inl (ended_of_settling he)
  · obtain ⟨v, -, he⟩ := List.mem_flatMap.mp he
    exact .inr (ended_of_visit he)

variable (hp : m.Poised sch) (hc : k.stored (m.cells k.guard).width = c)
  (hh : k.op = .release ∨ m.waiters s k.guard = [])

include hp hc hh

theorem Poised.served_heeded (hu : u ∈ m.sleepers) : (m.roused s k.guard c).served u = m.wants k.guard u := by
  rw [hp.served_roused hu]
  rcases hh with ho | hw
  · rw [← hc, Task.isComplete_stored, decide_eq_true ho, Bool.and_true]
  · have hn : m.wants k.guard u = false := by
      simpa using List.filter_eq_nil_iff.mp hw u (mem_wakeOrder.mpr hu)
    rw [hn, Bool.false_and]

theorem Poised.tasks_heeded (hu : u ∈ m.sleepers) :
    ((m.roused s k.guard c).visited (s.wakeOrder m.sleepers) []).tasks u =
      if m.wants k.guard u = true then none else m.tasks u := by
  have tasks : (m.roused s k.guard c).tasks = m.tasks := rfl
  rw [← hp.served_heeded hc hh hu, ← tasks]
  simp [visited, mem_wakeOrder, hu]

theorem Poised.sleepers_heeded : ((m.roused s k.guard c).visited (s.wakeOrder m.sleepers) []).sleepers =
    (s.wakeOrder m.sleepers).filter fun u => !m.wants k.guard u := by
  rw [← List.filter_congr fun u hu => congrArg (! ·) (hp.served_heeded hc hh (mem_wakeOrder.mp hu))]
  exact List.nil_append _

theorem Poised.unheeded (hu : u ∈ m.sleepers) (hw : (!m.wants k.guard u) = true) :
    ((m.roused s k.guard c).visited (s.wakeOrder m.sleepers) []).tasks u = m.tasks u ∧
      .call u .slept ∈ m.heeding s r k c := by
  have hn : m.wants k.guard u = false := by simpa using hw
  obtain ⟨k', me, hd, -⟩ := hp.asleep u hu
  have hs := slept_of_not_served (s := s) ((hp.served_heeded hc hh hu).trans hn) hd.task
  exact ⟨by simp [hp.tasks_heeded hc hh hu, hn], mem_heeding hu hs⟩

theorem Poised.returned_heeded (hu : u ∈ m.waiters s k.guard) :
    Returned (m.heeding s r k c) m ((m.roused s k.guard c).visited (s.wakeOrder m.sleepers) []) u k.guard false := by
  obtain ⟨hu, k', hk', hg⟩ := mem_waiters.mp hu
  obtain ⟨k'', me, hd, -⟩ := hp.asleep u hu
  cases hd.task.symm.trans hk'
  have hw : m.wants k.guard u = true := by simp [wants, hk', hg]
  obtain ⟨he, ha⟩ := answered_of_served (s := s) ((hp.served_heeded hc hh hu).trans hw) hd.task
  exact returned hd hg (by rw [hp.tasks_heeded hc hh hu, if_pos hw]) (mem_heeding hu he) (mem_heeding hu ha)

theorem Poised.handsOver_of_heeded :
    HandsOver s sch k.op k.guard m ((m.roused s k.guard c).visited (s.wakeOrder m.sleepers) [])
      (m.heeding s r k c) := by
  have hsleepers := hp.sleepers_heeded hc hh
  have hrest := fun u hu hw => hp.unheeded (u := u) (r := r) hc hh hu hw
  have hnone : ((m.roused s k.guard c).visited (s.wakeOrder m.sleepers) []).waiters s k.guard = [] := by
    have hf : (m.waiters s k.guard).filter (fun u => !m.wants k.guard u) = [] := by
      simp [waiters, List.filter_filter]
    exact List.perm_nil.mp (hf ▸ (waiters_filter hsleepers hrest k.guard).1)
  exact {
    alive := hp.alive
    unfailed := fun u o d f he => by rcases ended_of_heeding he with h | h <;> cases h
    granted := fun u d he => by rcases ended_of_heeding he with h | h <;> cases h
    others := by
      intro d hd
      refine ⟨put_of_ne _ _ hd, waiters_kept hsleepers hrest fun u hu => ?_⟩
      obtain ⟨-, k', hk', hg⟩ := mem_waiters.mp hu
      simp [wants, hk', hg, hd]
    released := by
      intro ho
      refine ⟨?_, hnone, fun u hu => hp.returned_heeded hc hh hu⟩
      change (sch k.guard).phaseOf (put m.cells k.guard c k.guard) = .complete
      rw [put_same, ← hc, Task.phaseOf_stored, if_pos ho]
    aborted := by
      intro ho _
      refine ⟨?_, hnone⟩
      change put m.cells k.guard c k.guard = _
      rw [put_same, ← hc, Task.stored, ho, if_neg (by decide)]
    passed := by
      intro ho t rest hw
      rcases hh with h | h
      · cases ho.symm.trans h
      · cases hw.symm.trans h }

end Heeded

def passing (s : Setup) (m : Machine) (r : ThreadId) (j : Task) (c : Cell) (t : ThreadId) (k : Task)
    (xs ys : List ThreadId) : List Event :=
  m.settling s r j ++ (xs.flatMap (visit s (m.roused s k.guard c)) ++
    (granting s (m.roused s k.guard c) t k true ++ ys.flatMap (visit s (m.passed s t k xs))))

section Passed

variable {r : ThreadId} {j : Task} {c : Cell} {xs ys : List ThreadId}

theorem mem_passing {e : Event} : e ∈ m.passing s r j c t k xs ys ↔ e ∈ m.settling s r j ∨
    (∃ u ∈ xs, e ∈ visit s (m.roused s k.guard c) u) ∨ e ∈ granting s (m.roused s k.guard c) t k true ∨
    ∃ u ∈ ys, e ∈ visit s (m.passed s t k xs) u := by
  simp only [passing, List.mem_append, List.mem_flatMap]

theorem ended_of_passing {o : Op} {x : Outcome} (he : .ended u o d x ∈ m.passing s r j c t k xs ys) :
    x = .gives .done ∨ x = .gives (.granted false) ∨ u = t ∧ d = k.guard ∧ x = .gives (.granted true) := by
  rcases mem_passing.mp he with he | ⟨v, -, he⟩ | he | ⟨v, -, he⟩
  · exact .inl (ended_of_settling he)
  · exact .inr (.inl (ended_of_visit he))
  · exact .inr (.inr (ended_of_granting he))
  · exact .inr (.inl (ended_of_visit he))

variable (hp : m.Poised sch) (hw : s.wakeOrder m.sleepers = xs ++ t :: ys)

include hp hw

theorem Poised.others_ne : ∀ u ∈ xs ++ ys, u ≠ t := by
  have hn : (xs ++ t :: ys).Nodup := hw ▸ (wakeOrder_perm s _).nodup_iff.mpr hp.nodup
  rintro u hu rfl
  exact (List.nodup_cons.mp (List.perm_middle.nodup_iff.mp hn)).1 hu

theorem Poised.others_eq_filter : xs ++ ys = (s.wakeOrder m.sleepers).filter fun u => decide (u ≠ t) := by
  have hf : (xs ++ ys).filter (fun u => decide (u ≠ t)) = xs ++ ys :=
    List.filter_eq_self.mpr fun u hu => decide_eq_true (hp.others_ne hw u hu)
  rw [hw, List.filter_append, List.filter_cons_of_neg (by simp), ← List.filter_append, hf]

variable (hx : ∀ u ∈ xs, m.wants k.guard u = false) (ht : m.Dozes sch t k me)

include hx ht

omit hp in
theorem waiters_eq_cons : m.waiters s k.guard = t :: ys.filter (m.wants k.guard) := by
  have hnil : xs.filter (m.wants k.guard) = [] := List.filter_eq_nil_iff.mpr fun u hu => by simp [hx u hu]
  rw [waiters, hw, List.filter_append, hnil, List.nil_append, List.filter_cons_of_pos (by simp [wants, ht.task])]

theorem Poised.slept_of_passing (hd : m.tokens.Distinct) (hu : u ∈ m.sleepers) (hne : u ≠ t) :
    .call u .slept ∈ m.passing s r j c t k xs ys := by
  obtain ⟨k', me', hd', -⟩ := hp.asleep u hu
  have hmem : u ∈ xs ++ t :: ys := hw ▸ mem_wakeOrder.mpr hu
  rcases List.mem_append.mp hmem with hm | hm
  · have hs : (m.roused s k.guard c).served u = false := by
      rw [hp.served_roused hu, hx u hm, Bool.false_and]
    exact mem_passing.mpr (.inr (.inl ⟨u, hm, slept_of_not_served hs hd'.task⟩))
  · have hs := (hp.waits_passed (s := s) hd ht hu hne xs).not_served
    have hv := slept_of_not_served (s := s) hs ((put_of_ne _ _ hne).trans hd'.task)
    exact mem_passing.mpr (.inr (.inr (.inr ⟨u, List.mem_of_ne_of_mem hne hm, hv⟩)))

theorem Poised.handsOver_of_passed (hd : m.tokens.Distinct) :
    HandsOver s sch .abort k.guard m (m.passed s t k (xs ++ ys)) (m.passing s r j c t k xs ys) := by
  have hwaiters := waiters_eq_cons hw hx ht
  have hsleepers := hp.others_eq_filter hw
  have hrest : ∀ u ∈ m.sleepers, decide (u ≠ t) = true →
      (m.passed s t k (xs ++ ys)).tasks u = m.tasks u ∧ .call u .slept ∈ m.passing s r j c t k xs ys :=
    fun u hu hut =>
      ⟨put_of_ne _ _ (of_decide_eq_true hut), hp.slept_of_passing hw hx ht hd hu (of_decide_eq_true hut)⟩
  have hgrant : ∀ e ∈ granting s (m.roused s k.guard c) t k true, e ∈ m.passing s r j c t k xs ys :=
    fun e he => mem_passing.mpr (.inr (.inr (.inl he)))
  exact {
    alive := hp.alive
    unfailed := fun u o d f he => by rcases ended_of_passing he with h | h | ⟨-, -, h⟩ <;> cases h
    granted := by
      intro u d he
      rcases ended_of_passing he with h | h | ⟨rfl, hd, -⟩
      · cases h
      · cases h
      · exact ⟨rfl, hd, by rw [hwaiters]; rfl⟩
    others := by
      intro d hdg
      refine ⟨put_of_ne _ _ hdg, waiters_kept hsleepers hrest fun u hu => decide_eq_true ?_⟩
      obtain ⟨-, k', hk', hg'⟩ := mem_waiters.mp hu
      rintro rfl
      cases ht.task.symm.trans hk'
      exact hdg hg'.symm
    released := by simp
    aborted := fun _ hn => by cases hwaiters.symm.trans hn
    passed := by
      rintro - u rest hu
      obtain ⟨rfl, rfl⟩ := List.cons.inj (hwaiters.symm.trans hu)
      have hf : (m.waiters s k.guard).filter (fun u => decide (u ≠ t)) = ys.filter (m.wants k.guard) := by
        rw [hwaiters, List.filter_cons_of_neg (by simp)]
        exact List.filter_eq_self.mpr fun u hu =>
          decide_eq_true (hp.others_ne hw u (List.mem_append_right _ (List.mem_of_mem_filter hu)))
      obtain ⟨h₁, h₂⟩ := waiters_filter hsleepers hrest k.guard
      rw [hf] at h₁ h₂
      refine ⟨?_, returned ht rfl (put_same ..) (hgrant _ ?_) (hgrant _ ?_), h₁, h₂⟩
      · rw [cells_passed, put_same, ht.scheme]
      · simp [granting]
      · simp [granting] }

end Passed

theorem Poised.handsOver {r : ThreadId} (hp : m.Poised sch) (hd : m.tokens.Distinct) (free : m.tasks r = none)
    (hs : k.op.settles = true) (hl : k.point = .locking) :
    HandsOver s sch k.op k.guard m ((m.doing r k).drain s).1 ((m.doing r k).drain s).2 := by
  have h₀ := hp.leads_roused (s := s) free hs hl
  have hheeded (hh : k.op = .release ∨ m.waiters s k.guard = []) :
      HandsOver s sch k.op k.guard m ((m.doing r k).drain s).1 ((m.doing r k).drain s).2 := by
    rw [hp.drain_heeded free hs hl hh]
    exact hp.handsOver_of_heeded rfl hh
  cases hw : m.waiters s k.guard with
  | nil => exact hheeded (.inr hw)
  | cons t rest =>
    by_cases ho : k.op = .release
    · exact hheeded (.inl ho)
    · have ha : k.op = .abort := by
        cases hk : k.op with
        | release => exact absurd hk ho
        | abort => rfl
        | acquire | inspect => rw [hk] at hs; cases hs
      obtain ⟨xs, ys, hord, hx, ht, -⟩ := List.filter_eq_cons_iff.mp hw
      have hsl : t ∈ m.sleepers := mem_wakeOrder.mp (by rw [hord]; simp)
      obtain ⟨j, me, hj, -⟩ := hp.asleep t hsl
      have hg : j.guard = k.guard := by simpa [wants, hj.task] using ht
      have hx' : ∀ u ∈ xs, m.wants j.guard u = false := fun u hu => by simpa [hg] using hx u hu
      have hz : Cell.zero (m.cells j.guard).width = k.stored (m.cells k.guard).width := by
        rw [Task.stored, if_neg ho, hg]
      have h₁ := hp.leads_passed hd hord hx' hj hz
      rw [hg] at h₁
      rw [(h₀.trans h₁).drain_eq hp.running hp.ready, ha, ← hg]
      exact hp.handsOver_of_passed hord hx' hj hd

theorem HandsOver.prepend {op : Op} {fs : ThreadId → List Frame} {pre : List Event}
    (hh : HandsOver s sch op g { m with frames := fs } m' es) (hpre : ∀ u o d r, .ended u o d r ∉ pre) :
    HandsOver s sch op g m m' (pre ++ es) := by
  have hsub : ∀ e ∈ es, e ∈ pre ++ es := fun e => List.mem_append_right pre
  have hback : ∀ u o d r, .ended u o d r ∈ pre ++ es → .ended u o d r ∈ es := fun u o d r he =>
    (List.mem_append.mp he).resolve_left (hpre u o d r)
  have hsleeps : ∀ t, SleepsOn es { m with frames := fs } m' t → SleepsOn (pre ++ es) m m' t := fun t ht =>
    ⟨ht.asleep, ht.task, hsub _ ht.slept⟩
  have hreturned : ∀ t yes, Returned es { m with frames := fs } m' t g yes → Returned (pre ++ es) m m' t g yes := by
    rintro t yes ⟨hi, he, k, hk, ha, hl⟩
    exact ⟨hi, hsub _ he, k, hk, hsub _ ha, hl⟩
  exact {
    alive := hh.alive
    unfailed := fun u o d f he => hh.unfailed u o d f (hback u o d _ he)
    granted := fun u d he => hh.granted u d (hback u _ d _ he)
    others := fun d hd =>
      have ⟨hc, hw, hs⟩ := hh.others d hd
      ⟨hc, hw, fun t ht => hsleeps t (hs t ht)⟩
    released := fun ho =>
      have ⟨hc, hw, hr⟩ := hh.released ho
      ⟨hc, hw, fun t ht => hreturned t false (hr t ht)⟩
    aborted := hh.aborted
    passed := fun ho t rest hw =>
      have ⟨hc, hr, hw, hs⟩ := hh.passed ho t rest hw
      ⟨hc, hreturned t true hr, hw, fun u hu => hsleeps u (hs u hu)⟩ }

/-- Who has to be told that a guard is released or aborted is told so, and nobody else. -/
theorem hand_over {op : Op} {r : ThreadId} {st : OnceInit.Step}
    (hr : Reaches s (Step.Smooth s sch) (.start cells) m h) (hs : m.settled = true) (hd : m.tokens.Distinct)
    (hst : st.Smooth s sch) (hb : .began r op g ∈ (m.step s st).2) (ho : op.settles = true) :
    HandsOver s sch op g m (m.step s st).1 (m.step s st).2 := by
  have hf : m.fate = none := by
    cases hm : m.fate with
    | none => rfl
    | some f => simp [step, hm] at hb
  have hp := hr.poised hs hf
  have hstep := step_of_alive (s := s) hf st
  have hbegins := hp.begins hst
  generalize m.begin s st = b at hstep hbegins
  rw [hstep] at hb ⊢
  replace hb := (List.mem_append.mp hb).resolve_right (not_began_of_drain _ r op g)
  cases hbegins with
  | nothing hes => cases hes _ hb
  | wakes => cases hb
  | starts free _ hk =>
    cases List.mem_singleton.mp hb
    exact HandsOver.prepend (hp.handsOver hd free ho (GuardKind.task?_eq hk ▸ rfl)) (by simp [launch])
  | @closes t f rest e free =>
    cases List.mem_singleton.mp ((List.mem_cons.mp hb).resolve_left (by simp))
    refine HandsOver.prepend ((hp.of_frames (put m.frames r rest)).handsOver hd free ho rfl) fun u o d x he => ?_
    simp [launch, emit] at he

/-- Four threads wait for two guards, the first of which is aborted. -/
theorem hand_over_aborted : ∃ m h,
    Reaches (.plain .owner) (Step.Smooth (.plain .owner) fun _ => .owner) (.start fun _ => .zero .wide) m h ∧
    m.tokens.Distinct ∧ m.waiters (.plain .owner) 0 = [1, 3, 4] ∧ m.waiters (.plain .owner) 1 = [2] ∧
    HandsOver (.plain .owner) (fun _ => .owner) .abort 0 m
      (m.step (.plain .owner) (.act 0 0 none (some .abort))).1
      (m.step (.plain .owner) (.act 0 0 none (some .abort))).2 := by
  have hr : Reaches (.plain .owner) (Step.Smooth (.plain .owner) fun _ => .owner)
      (.start fun _ => .zero .wide) _ [] := .start
  have hp := Setup.plain_smooth .owner
  have h₁ := (hr.begin (.act 0 0 none (some .acquire)) (by decide) (by decide) (hp ..)).turns 9
  have h₂ := (h₁.begin (.act 1 0 none (some .acquire)) (by decide) (by decide) (hp ..)).turns 9
  have h₃ := (h₂.begin (.act 0 1 none (some .acquire)) (by decide) (by decide) (hp ..)).turns 9
  have h₄ := (h₃.begin (.act 2 1 none (some .acquire)) (by decide) (by decide) (hp ..)).turns 9
  have h₅ := (h₄.begin (.act 3 0 none (some .acquire)) (by decide) (by decide) (hp ..)).turns 9
  have h₆ := (h₅.begin (.act 4 0 none (some .acquire)) (by decide) (by decide) (hp ..)).turns 9
  refine ⟨_, _, h₆, ?hd, by decide, by decide, hand_over (r := 0) h₆ (by decide) ?hd (hp ..) ?hb rfl⟩
  · exact Registry.distinct_of_numbered fun
      | 0, _, h | 1, _, h | 2, _, h | 3, _, h | 4, _, h => by cases h; rfl
      | t + 5, _, h => by cases h
  · decide

end OnceInit.Machine

import OnceInit.Proofs.Smooth

/-! What a thread does from the moment that it gets the processor: how an acquire that gets the mutex goes on by what it
finds in its cell, whatever has happened before and as long as its next call is not refused, and, in a process where no
call fails, what a release, an abort and a look at a cell do. -/

namespace OnceInit

namespace Next

variable {t : ThreadId} {k k' : Task} {n : Next}

theorem report_of_after (ha : n.after k = some k') : n.report t k = [] := by
  cases n with
  | go | tell => rfl
  | finish => cases ha

theorem frames_of_after (ha : n.after k = some k') : n.frames k = [] := by
  cases n with
  | go | tell => rfl
  | finish => cases ha

theorem doom_of_after (ha : n.after k = some k') : n.doom k = none := by
  cases n with
  | go | tell => rfl
  | finish => cases ha

end Next

theorem Task.judge_of_underWay {k : Task} {x : Cell} {me : Token} {c : Claim}
    (hc : k.scheme.phaseOf x = .underWay c) (hne : c ≠ .takenBy me) :
    k.judge x me = .tell (.waiting k.guard) .waiting := by
  obtain ⟨-, hclaim, hfree⟩ := (Scheme.phaseOf_eq_underWay_iff ..).mp hc
  rw [judge, hclaim]
  cases c with
  | free => exact absurd rfl hfree
  | taken => rfl
  | takenBy u => exact if_neg fun e => hne (by rw [e])

namespace Machine

/-- Turns lead from one state to another, and `es` happens on the way. -/
inductive Leads (s : Setup) : Machine → List Event → Machine → Prop
  | refl {m : Machine} : Leads s m [] m
  | turn {m m' : Machine} {es : List Event} (unsettled : m.settled = false)
      (rest : Leads s (m.turn s).1 es m') : Leads s m ((m.turn s).2 ++ es) m'

def doing (m : Machine) (t : ThreadId) (k : Task) : Machine :=
  { m with running := some t, tasks := put m.tasks t (some k) }

def done (m : Machine) (t : ThreadId) : Machine :=
  { m with running := none, tasks := put m.tasks t none }

def Accepts (m : Machine) (k : Task) : Prop := ∀ c n r, k.node = .call c n r → m.refusal c = none

def letGo (m : Machine) (c : Call) : Machine := (m.spend c).unlock

variable {s : Setup} {m m' m₁ m₂ : Machine} {es es' : List Event} {t : ThreadId} {k k' : Task} {n : Next}

theorem Unarmed.accepts (hu : m.Unarmed) (k : Task) : m.Accepts k := fun c _ _ _ => hu.refusal c

theorem Accepts.of_call {c : Call} {r : Int → Next} (hn : k.node = .call c n r) (hc : m.refusal c = none) :
    m.Accepts k := by
  intro c' n' r' hn'
  cases hn.symm.trans hn'
  exact hc

theorem Accepts.of_ne {x : Node} (hn : k.node = x) (hx : ∀ c n r, x ≠ .call c n r) : m.Accepts k :=
  fun c n r hc => absurd (hn.symm.trans hc) (hx c n r)

theorem Leads.trans (h₁ : Leads s m es m₁) (h₂ : Leads s m₁ es' m₂) : Leads s m (es ++ es') m₂ := by
  induction h₁ with
  | refl => exact h₂
  | turn hu _ ih =>
    rw [List.append_assoc]
    exact .turn hu (ih h₂)

theorem Leads.drain (hl : Leads s m es m') : m.drain s = prepend es (m'.drain s) := by
  induction hl with
  | refl => rfl
  | turn hu _ ih => rw [drain_of_not_settled hu, ih, prepend, prepend, prepend, List.append_assoc]

theorem Leads.drain_eq (hl : Leads s m es m') (hr : m'.running = none) (hq : m'.ready = []) :
    m.drain s = (m', es) := by
  rw [hl.drain, drain_of_settled (by simp [settled, hr, hq]), prepend, List.append_nil]

theorem Act.turn_eq (ha : Act s m t k m₁ es n) (hc : m.Accepts k) (hr : m.running = some t)
    (hk : m.tasks t = some k) :
    m.turn s = (m₁.advance t k n, es ++ (n.report t k ++ n.notes s t k)) := by
  have hp : m.turn s = m.perform s t k := by rw [Machine.turn, hr]; simp only [hk]
  rw [hp]
  cases ha with
  | refused hn hx => cases (hc _ _ _ hn).symm.trans hx
  | lock hn => simp only [perform, hn, invoke, hc _ _ _ hn, serve, proceed_eq (m := m.spend .lock) hr]; rfl
  | unlock hn =>
    simp only [perform, hn, invoke, hc _ _ _ hn, serve, emit, proceed_eq (m := (m.spend .unlock).unlock) hr]
    rfl
  | broadcast hn =>
    simp only [perform, hn, invoke, hc _ _ _ hn, serve, emit,
      proceed_eq (m := (m.spend .broadcast).broadcast s) hr]
    rfl
  | took hn free => simp only [perform, hn, take, free, emit, proceed_eq (m := { m with owner := some t }) hr]; rfl
  | read hn => simp only [perform, hn, emit, proceed_eq hr]; rfl
  | asked hn => simp only [perform, hn, proceed_eq (m := m.register s t) hr]; rfl
  | wrote hn =>
    simp only [perform, hn, emit, proceed_eq (m := m.poke k.guard _) hr]
    rfl

theorem leads_turn (hf : m.fate = none) :
    Leads s (m.doing t k) ((m.doing t k).turn s).2 ((m.doing t k).turn s).1 := by
  have hl : Leads s (m.doing t k) (((m.doing t k).turn s).2 ++ []) ((m.doing t k).turn s).1 :=
    .turn (by simp [settled, doing, hf]) .refl
  rwa [List.append_nil] at hl

theorem doing_advance (ha : n.after k = some k') : (m.doing t k).advance t k n = m.doing t k' := by
  simp [doing, advance, ha, Next.frames_of_after ha, Next.doom_of_after ha]

theorem Act.leads (ha : Act s (m.doing t k) t k (m₁.doing t k) es n) (hn : n.after k = some k')
    (hc : m.Accepts k) (hf : m.fate = none) : Leads s (m.doing t k) (es ++ n.notes s t k) (m₁.doing t k') := by
  have ht := ha.turn_eq hc rfl (put_same ..)
  rw [doing_advance hn, Next.report_of_after hn, List.nil_append] at ht
  have hl := leads_turn (s := s) (t := t) (k := k) hf
  rwa [ht] at hl

theorem Act.leads_gives {v : Value} (ha : Act s (m.doing t k) t k (m₁.doing t k) es (.finish (.gives v)))
    (hc : m.Accepts k) (hf : m.fate = none) :
    Leads s (m.doing t k)
      (es ++ .ended t k.op k.guard (.gives v) :: (k.opens v).map (fun f => .opened t f.guard) ++
        [.answer t (k.purpose.answer v)])
      ((m₁.enter t k v).done t) := by
  have ht := ha.turn_eq hc rfl (put_same ..)
  have hl := leads_turn (s := s) (t := t) (k := k) hf
  have he : (m₁.doing t k).advance t k (.finish (.gives v)) = (m₁.enter t k v).done t := by
    simp [doing, done, enter, advance, Next.after, Next.frames, Next.doom]
  rw [ht, he] at hl
  simpa [Next.report, Next.notes] using hl

theorem Act.leads_fails {f : Failure} (ha : Act s (m.doing t k) t k (m₁.doing t k) es (.finish (.fails f)))
    (hc : m.Accepts k) (hf : m.fate = none) (hf₁ : m₁.fate = none) :
    Leads s (m.doing t k) (es ++ .ended t k.op k.guard (.fails f) :: Next.notes s t k (.finish (.fails f)))
      { m₁.done t with fate := Next.doom k (.finish (.fails f)) } := by
  have ht := ha.turn_eq hc rfl (put_same ..)
  have hl := leads_turn (s := s) (t := t) (k := k) hf
  have he : (m₁.doing t k).advance t k (.finish (.fails f)) =
      { m₁.done t with fate := Next.doom k (.finish (.fails f)) } := by
    simp [doing, done, advance, Next.after, Next.frames, hf₁]
  rw [ht, he] at hl
  simpa [Next.report] using hl

def dozing (m : Machine) (t : ThreadId) (k : Task) : Machine :=
  { m with
    running := none
    tasks := put m.tasks t (some { k with point := .waking })
    sleepers := m.sleepers ++ [t] }

theorem turn_slept (hr : m.running = some t) (hk : m.tasks t = some k) (hp : k.point = .waiting)
    (hw : m.refusal .wait = none) :
    m.turn s = ((m.letGo .wait).dozing t k, [.call t .slept, .answer t .waiting]) := by
  have hn : k.node = .call .wait (.go .waking) (k.fail .wait) := by rw [Task.node, hp]
  simp only [Machine.turn, hr, hk, perform, hn, invoke, hw, serve, sleep, proceed]
  simp [dozing, place, unlock, letGo]

def taken (m : Machine) (t : ThreadId) : Machine := { m with owner := some t }

theorem leads_slept (hp : k.point = .waiting) (hw : m.refusal .wait = none) (hf : m.fate = none) :
    Leads s ((m.taken t).doing t k) [.call t .slept, .answer t .waiting] ((m.letGo .wait).dozing t k) := by
  have ht := turn_slept (s := s) (m := (m.taken t).doing t k) rfl (put_same ..) hp hw
  have hd : (((m.taken t).doing t k).letGo .wait).dozing t k = (m.letGo .wait).dozing t k := by
    simp [taken, doing, dozing, unlock, letGo, spend]
  have hl := leads_turn (s := s) (m := m.taken t) (t := t) (k := k) hf
  rwa [ht, hd] at hl

theorem leads_entering (hp : k.point = .locking) (hl : m.refusal .lock = none) (hf : m.fate = none) :
    Leads s (m.doing t k) [] ((m.spend .lock).doing t { k with point := .contending }) := by
  have hn : k.node = .call .lock (.go .contending) (k.fail .lock) := by rw [Task.node, hp]
  have ha : Act s (m.doing t k) t k ((m.spend .lock).doing t k) [] (.go .contending) := .lock hn
  exact ha.leads rfl (.of_call hn hl) hf

theorem leads_locking (hp : k.point = .locking) (hm : m.Free) :
    Leads s (m.doing t k) [] (m.doing t { k with point := .contending }) := by
  have hl := leads_entering (s := s) (t := t) hp (hm.unarmed.refusal .lock) hm.alive
  rwa [hm.unarmed.spend] at hl

theorem Free.register (hm : m.Free) (t : ThreadId) : (m.register s t).Free :=
  ⟨hm.queue, hm.owner, hm.alive, hm.unarmed⟩

theorem Free.poke (hm : m.Free) (g : GuardId) (c : Cell) : (m.poke g c).Free :=
  ⟨hm.queue, hm.owner, hm.alive, hm.unarmed⟩

theorem Free.letGo (hm : m.Free) (c : Call) : m.letGo c = m := by
  rw [Machine.letGo, hm.unarmed.spend]
  obtain ⟨hq, ho, -, -⟩ := hm
  cases m
  simp_all [unlock]

section Mutex

variable {w : Bool} {v : Value} {p : Point}

theorem leads_took (hn : k.node = .take w k.entered) (ho : m.owner = none) (hf : m.fate = none) :
    Leads s (m.doing t k) [.call t (if w then .woke else .locked)]
      ((m.taken t).doing t { k with point := if k.op.settles then .storing else .reading }) := by
  have ha : Act s (m.doing t k) t k ((m.taken t).doing t k) _ k.entered := .took hn ho
  have hl := ha.leads (Task.after_take hn).2 (.of_ne hn (by simp)) hf
  rwa [Task.entered, Next.notes, List.append_nil] at hl

theorem leads_unlocked (hp : k.point = .leaving v) (hs : k.op.settles = false) (hu : m.refusal .unlock = none)
    (hf : m.fate = none) :
    Leads s ((m.taken t).doing t k)
      (.call t .unlocked :: .ended t k.op k.guard (.gives v) :: (k.opens v).map (fun f => .opened t f.guard) ++
        [.answer t (k.purpose.answer v)])
      (((m.letGo .unlock).enter t k v).done t) := by
  have hn : k.node = .call .unlock (.finish (.gives v)) (k.fail .unlock) := by
    rw [Task.node, hp, hs]
    rfl
  have ha : Act s ((m.taken t).doing t k) t k ((m.letGo .unlock).doing t k) [.call t .unlocked]
      (.finish (.gives v)) := .unlock hn
  exact ha.leads_gives (.of_call hn hu) hf

theorem enter_eq_self {v : Value} (hv : k.opens v = []) : m.enter t k v = m := by
  rw [enter, hv, List.nil_append, put_eq_self]

theorem leads_read (hs : k.op.settles = false) (hn : k.node = .take w k.entered) (ho : m.owner = none)
    (hf : m.fate = none) (hp : k.seen (m.cells k.guard) = .go p) :
    Leads s (m.doing t k)
      [.call t (if w then .woke else .locked), .read t k.guard (m.cells k.guard)]
      ((m.taken t).doing t { k with point := p }) := by
  have h₁ : Leads s (m.doing t k) [.call t (if w then .woke else .locked)]
      ((m.taken t).doing t { k with point := .reading }) := by
    simpa [hs] using leads_took (s := s) (t := t) hn ho hf
  have h₂ : Act s ((m.taken t).doing t { k with point := .reading }) t { k with point := .reading }
      ((m.taken t).doing t { k with point := .reading }) _ (k.seen (m.cells k.guard)) := .read rfl
  rw [hp] at h₂
  exact h₁.trans (h₂.leads rfl (.of_ne (x := .read _) rfl (by simp)) hf)

end Mutex

theorem leads_inspected (hi : k.op = .inspect) (hp : k.point = .locking) (hm : m.Free) :
    Leads s (m.doing t k)
      [.call t .locked, .read t k.guard (m.cells k.guard), .call t .unlocked,
        .ended t .inspect k.guard (.gives (.phase (k.scheme.phaseOf (m.cells k.guard)))),
        .answer t (k.purpose.answer (.phase (k.scheme.phaseOf (m.cells k.guard))))]
      (m.done t) := by
  have hs : k.op.settles = false := by rw [hi]; rfl
  have h₁ := leads_read (s := s) (t := t) (k := { k with point := .contending }) (w := false) hs rfl hm.owner hm.alive
    (if_pos hi)
  have hv : ∀ p : Phase, ({ k with point := .leaving (.phase p) } : Task).opens (.phase p) = [] :=
    fun p => opens_eq_nil (by simp)
  have h₂ := leads_unlocked (s := s) (t := t) (m := m)
    (k := { k with point := .leaving (.phase (k.scheme.phaseOf (m.cells k.guard))) }) rfl hs (hm.unarmed.refusal _)
    hm.alive
  rw [enter_eq_self (hv _), hv, List.map_nil, hm.letGo] at h₂
  rw [← hi]
  exact (leads_locking hp hm).trans (h₁.trans h₂)

theorem leads_settled (hs : k.op.settles = true) (hp : k.point = .locking) (hm : m.Free) :
    Leads s (m.doing t k)
      (.call t .locked :: .write t k.op k.guard (k.stored (m.cells k.guard).width) ::
        (s.log t k.storedNote ++ [.call t .unlocked, .call t .announced, .ended t k.op k.guard (.gives .done),
          .answer t (k.purpose.answer .done)]))
      (((m.poke k.guard (k.stored (m.cells k.guard).width)).broadcast s).done t) := by
  have h₁ : Leads s (m.doing t { k with point := .contending }) [.call t .locked]
      ((m.taken t).doing t { k with point := .storing }) := by
    simpa [hs] using leads_took (s := s) (t := t) (k := { k with point := .contending }) (w := false) rfl hm.owner
      hm.alive
  have h₂ : Act s ((m.taken t).doing t { k with point := .storing }) t { k with point := .storing }
      (((m.poke k.guard (k.stored (m.cells k.guard).width)).taken t).doing t { k with point := .storing })
      _ (.tell k.storedNote (.leaving .done)) := .wrote rfl
  generalize hm₁ : m.poke k.guard (k.stored (m.cells k.guard).width) = m₁ at h₂ ⊢
  have hf : m₁.Free := hm₁ ▸ hm.poke ..
  have hn : ({ k with point := .leaving .done } : Task).node =
      .call .unlock (.go .announcing) (k.fail .unlock) := by
    rw [Task.node, hs]
    rfl
  have h₃ : Act s ((m₁.taken t).doing t { k with point := .leaving .done }) t { k with point := .leaving .done }
      ((m₁.letGo .unlock).doing t { k with point := .leaving .done }) [.call t .unlocked] (.go .announcing) :=
    .unlock hn
  rw [hf.letGo] at h₃
  have h₄ : Act s (m₁.doing t { k with point := .announcing }) t { k with point := .announcing }
      (((m₁.spend .broadcast).broadcast s).doing t { k with point := .announcing }) [.call t .announced]
      (.finish (.gives .done)) := .broadcast rfl
  rw [hf.unarmed.spend] at h₄
  have hv : ({ k with point := .announcing } : Task).opens .done = [] := opens_eq_nil (by simp)
  have h₅ := h₄.leads_gives (hf.unarmed.accepts _) hf.alive
  rw [enter_eq_self hv, hv, List.map_nil] at h₅
  exact (leads_locking hp hm).trans (h₁.trans ((h₂.leads rfl (hm.unarmed.accepts _) hm.alive).trans
    ((h₃.leads rfl (hf.unarmed.accepts _) hf.alive).trans h₅)))

theorem leads_resumed {rest : List ThreadId} (hr : m.running = none) (hq : m.ready = t :: rest)
    (hk : m.tasks t = some k) (hf : m.fate = none) : Leads s m [] ({ m with ready := rest }.doing t k) := by
  have ht : m.turn s = ({ m with ready := rest }.doing t k, []) := by
    simp [turn, hr, hq, doing, ← hk, put_eq_self]
  have hl : Leads s m ((m.turn s).2 ++ []) (m.turn s).1 := .turn (by simp [settled, hf, hq]) .refl
  rwa [ht] at hl

def granting (s : Setup) (m : Machine) (t : ThreadId) (k : Task) (woken : Bool) : List Event :=
  .call t (if woken then .woke else .locked) :: .read t k.guard (m.cells k.guard) ::
    .write t .acquire k.guard (k.scheme.claimed (m.cells k.guard).width (m.token s t)) ::
    (s.log t (.granted k.guard k.scheme) ++ .call t .unlocked ::
      .ended t .acquire k.guard (.gives (.granted true)) ::
      (k.opens (.granted true)).map (fun f => .opened t f.guard) ++
      [.answer t (k.purpose.answer (.granted true))])

section Acquire

variable {w : Bool} (ha : k.op = .acquire) (hn : k.node = .take w k.entered) (ho : m.owner = none) (hf : m.fate = none)

include ha hn ho hf

theorem leads_judged {n : Next} {p : Point} (hc : (m.cells k.guard).isComplete = false)
    (hj : k.judge (m.cells k.guard) (m.token s t) = n) (hp : n.after k = some { k with point := p }) :
    Leads s (m.doing t k)
      (.call t (if w then .woke else .locked) :: .read t k.guard (m.cells k.guard) :: n.notes s t k)
      (((m.register s t).taken t).doing t { k with point := p }) := by
  have hs : k.seen (m.cells k.guard) = .go (.judging (m.cells k.guard)) := by simp [Task.seen, ha, hc]
  have h₁ := leads_read (s := s) (t := t) (by rw [ha]; rfl) hn ho hf hs
  have h₂ : Act s ((m.taken t).doing t { k with point := .judging (m.cells k.guard) }) t
      { k with point := .judging (m.cells k.guard) } (((m.register s t).taken t).doing t
        { k with point := .judging (m.cells k.guard) }) [] (k.judge (m.cells k.guard) (m.token s t)) := .asked rfl
  rw [hj] at h₂
  exact h₁.trans (h₂.leads (hp ▸ rfl) (.of_ne (x := .ask _) rfl (by simp)) hf)

theorem leads_dozing {c : Claim} (hw : m.refusal .wait = none)
    (hc : k.scheme.phaseOf (m.cells k.guard) = .underWay c) (hne : c ≠ .takenBy (m.token s t)) :
    Leads s (m.doing t k)
      (.call t (if w then .woke else .locked) :: .read t k.guard (m.cells k.guard) ::
        s.log t (.waiting k.guard) ++ [.call t .slept, .answer t .waiting])
      (((m.register s t).letGo .wait).dozing t k) := by
  have hj := Task.judge_of_underWay hc hne
  have h₁ := leads_judged (s := s) (t := t) ha hn ho hf ((Scheme.phaseOf_eq_underWay_iff ..).mp hc).1 hj rfl
  have h₂ := leads_slept (s := s) (t := t) (m := m.register s t) (k := { k with point := .waiting }) rfl hw hf
  exact h₁.trans h₂

variable (hu : m.refusal .unlock = none)

include hu

theorem leads_complete (hc : (m.cells k.guard).isComplete = true) :
    Leads s (m.doing t k)
      [.call t (if w then .woke else .locked), .read t k.guard (m.cells k.guard), .call t .unlocked,
        .ended t .acquire k.guard (.gives (.granted false)), .answer t (k.purpose.answer (.granted false))]
      ((m.letGo .unlock).done t) := by
  have hs : k.seen (m.cells k.guard) = .go (.leaving (.granted false)) := by simp [Task.seen, ha, hc]
  have h₁ := leads_read (s := s) (t := t) (by rw [ha]; rfl) hn ho hf hs
  have hv : ({ k with point := .leaving (.granted false) } : Task).opens (.granted false) = [] :=
    opens_eq_nil (by simp)
  have h₂ := leads_unlocked (s := s) (k := { k with point := .leaving (.granted false) }) (t := t) rfl
    (by rw [ha]; rfl) hu hf
  rw [enter_eq_self hv, hv, List.map_nil] at h₂
  rw [← ha]
  exact h₁.trans h₂

theorem leads_granted (hc : k.scheme.phaseOf (m.cells k.guard) = .untouched) :
    Leads s (m.doing t k) (m.granting s t k w)
      (((((m.register s t).poke k.guard (k.scheme.claimed (m.cells k.guard).width (m.token s t))).letGo .unlock).enter t
        k (.granted true)).done t) := by
  obtain ⟨hc, hfree⟩ := (Scheme.phaseOf_eq_untouched_iff ..).mp hc
  have h₁ := leads_judged (s := s) (t := t) ha hn ho hf hc (by rw [Task.judge, hfree]) rfl
  have hw : ({ k with point := .claiming (m.token s t) } : Task).node =
      .write (fun w => k.scheme.claimed w (m.token s t))
        (.tell (.granted k.guard k.scheme) (.leaving (.granted true))) := rfl
  have h₂ : Act s (((m.register s t).taken t).doing t { k with point := .claiming (m.token s t) }) t
      { k with point := .claiming (m.token s t) }
      ((((m.register s t).poke k.guard (k.scheme.claimed (m.cells k.guard).width (m.token s t))).taken t).doing t
        { k with point := .claiming (m.token s t) })
      _ (.tell (.granted k.guard k.scheme) (.leaving (.granted true))) := .wrote hw
  have h₃ := leads_unlocked (s := s) (k := { k with point := .leaving (.granted true) }) (t := t)
    (m := (m.register s t).poke k.guard (k.scheme.claimed (m.cells k.guard).width (m.token s t))) rfl
    (by rw [ha]; rfl) hu hf
  rw [granting, ← ha, List.append_assoc]
  exact h₁.trans ((h₂.leads rfl (.of_ne hw (by simp)) hf).trans h₃)

theorem leads_deadlock (hc : k.scheme.phaseOf (m.cells k.guard) = .underWay (.takenBy (m.token s t))) :
    Leads s (m.doing t k)
      ([.call t (if w then .woke else .locked), .read t k.guard (m.cells k.guard), .call t .unlocked,
        .ended t .acquire k.guard (.fails (.deadlock .acquire))] ++
          Next.notes s t k (.finish (.fails (.deadlock .acquire))))
      { ((m.register s t).letGo .unlock).done t with fate := Next.doom k (.finish (.fails (.deadlock .acquire))) } := by
  obtain ⟨hc, hclaim, -⟩ := (Scheme.phaseOf_eq_underWay_iff ..).mp hc
  have hj : k.judge (m.cells k.guard) (m.token s t) = .go .yielding := by
    rw [Task.judge, hclaim]
    exact if_pos rfl
  have h₁ := leads_judged (s := s) (t := t) ha hn ho hf hc hj rfl
  have h₂ : Act s (((m.register s t).taken t).doing t { k with point := .yielding }) t
      { k with point := .yielding }
      (((m.register s t).letGo .unlock).doing t { k with point := .yielding }) [.call t .unlocked]
      (.finish (.fails (.deadlock k.op))) := .unlock rfl
  rw [← ha]
  exact h₁.trans (h₂.leads_fails (.of_call rfl hu) hf hf)

end Acquire

section AtRest

variable (hm : m.AtRest)

include hm

theorem AtRest.drain_inspected (hi : k.op = .inspect) (hl : k.point = .locking) :
    (m.doing t k).drain s = (m.done t, [.call t .locked, .read t k.guard (m.cells k.guard), .call t .unlocked,
      .ended t .inspect k.guard (.gives (.phase (k.scheme.phaseOf (m.cells k.guard)))),
      .answer t (k.purpose.answer (.phase (k.scheme.phaseOf (m.cells k.guard))))]) :=
  (leads_inspected hi hl hm.toFree).drain_eq rfl hm.ready

theorem AtRest.drain_begun (hl : k.point = .locking) (h : Leads s (m.doing t { k with point := .contending }) es m')
    (hr : m'.running = none) (hq : m'.ready = []) : (m.doing t k).drain s = (m', es) :=
  ((leads_locking hl hm.toFree).trans h).drain_eq hr hq

variable (ho : k.op = .acquire) (hl : k.point = .locking)

include ho hl

theorem AtRest.drain_complete (hc : k.scheme.phaseOf (m.cells k.guard) = .complete) :
    (m.doing t k).drain s = (m.done t, [.call t .locked, .read t k.guard (m.cells k.guard), .call t .unlocked,
      .ended t .acquire k.guard (.gives (.granted false)), .answer t (k.purpose.answer (.granted false))]) := by
  have h := leads_complete (s := s) (t := t) (k := { k with point := .contending }) (w := false) ho rfl hm.owner hm.alive
    (hm.unarmed.refusal _) ((Scheme.phaseOf_eq_complete_iff ..).mp hc)
  rw [hm.letGo] at h
  exact hm.drain_begun hl h rfl hm.ready

theorem AtRest.drain_granted (hc : k.scheme.phaseOf (m.cells k.guard) = .untouched) :
    (m.doing t k).drain s =
      ((((m.register s t).poke k.guard (k.scheme.claimed (m.cells k.guard).width (m.token s t))).enter t k
        (.granted true)).done t, m.granting s t k false) := by
  have h := leads_granted (s := s) (t := t) (k := { k with point := .contending }) (w := false) ho rfl hm.owner hm.alive
    (hm.unarmed.refusal _) hc
  rw [((hm.register t).poke ..).letGo] at h
  exact hm.drain_begun hl h rfl hm.ready

theorem AtRest.drain_dozing {c : Claim} (hc : k.scheme.phaseOf (m.cells k.guard) = .underWay c)
    (hne : c ≠ .takenBy (m.token s t)) :
    (m.doing t k).drain s = ((m.register s t).dozing t k,
      .call t .locked :: .read t k.guard (m.cells k.guard) ::
        s.log t (.waiting k.guard) ++ [.call t .slept, .answer t .waiting]) := by
  have h := leads_dozing (s := s) (t := t) (k := { k with point := .contending }) (w := false) ho rfl hm.owner hm.alive
    (hm.unarmed.refusal _) hc hne
  rw [(hm.register t).letGo] at h
  exact hm.drain_begun hl h rfl hm.ready

theorem AtRest.drain_deadlock (hc : k.scheme.phaseOf (m.cells k.guard) = .underWay (.takenBy (m.token s t))) :
    (m.doing t k).drain s =
      ({ (m.register s t).done t with fate := Next.doom k (.finish (.fails (.deadlock .acquire))) },
        [.call t .locked, .read t k.guard (m.cells k.guard), .call t .unlocked,
          .ended t .acquire k.guard (.fails (.deadlock .acquire))] ++
            Next.notes s t k (.finish (.fails (.deadlock .acquire)))) := by
  have h := leads_deadlock (s := s) (t := t) (k := { k with point := .contending }) (w := false) ho rfl hm.owner
    hm.alive (hm.unarmed.refusal _) hc
  rw [(hm.register t).letGo] at h
  exact hm.drain_begun hl h rfl hm.ready

end AtRest

end Machine
end OnceInit

import OnceInit.Proofs.Refine

/-! Who owns the mutex. A running thread owns it exactly while it is inside, whatever the callers do and whichever
calls fail. A refusal to let go of the mutex is the one way in which it is left taken, and the operation fails then
with the mutex in the hands of its thread. -/

namespace OnceInit

theorem Task.outside_of_called {k k' : Task} {c : Call} {n : Next} {r : Int → Next}
    (hn : k.node = .call c n r) (ha : n.after k = some k') :
    k'.point.inside = false ∧ (k'.point = .announcing → c = .unlock) := by
  cases calls hn with
  | lock | wait =>
    cases ha
    exact ⟨rfl, nofun⟩
  | unlock =>
    split at ha
    · cases ha
      exact ⟨rfl, fun _ => rfl⟩
    · cases ha
  | yield | broadcast => cases ha

theorem Task.failure_of_refused {k : Task} {c : Call} {n : Next} {r : Int → Next} {code : Int} {f : Failure}
    (hn : k.node = .call c n r) (hf : r code = .finish (.fails f)) :
    f = .ofCall k.op c code ∨ c = .unlock ∧ f = .deadlock k.op := by
  unfold node at hn
  cases hp : k.point with
  | yielding =>
    simp only [hp, Node.call.injEq] at hn
    obtain ⟨rfl, -, rfl⟩ := hn
    cases hf
    exact .inr ⟨rfl, rfl⟩
  | locking | waiting | leaving | announcing =>
    simp only [hp, Node.call.injEq] at hn
    obtain ⟨rfl, -, rfl⟩ := hn
    cases hf
    exact .inl rfl
  | contending | reading | judging | claiming | storing | waking => simp [hp] at hn

theorem Task.failure_of_called {k : Task} {c : Call} {r : Int → Next} {f : Failure}
    (hn : k.node = .call c (.finish (.fails f)) r) : c = .unlock ∧ f = .deadlock k.op := by
  generalize hx : Next.finish (.fails f) = n at hn
  cases calls hn with
  | lock | wait | broadcast => cases hx
  | unlock => split at hx <;> cases hx
  | yield =>
    cases hx
    exact ⟨rfl, rfl⟩

theorem Task.outside_of_take {k : Task} {w : Bool} {n : Next} (hn : k.node = .take w n) :
    k.point.inside = false := by
  rcases (after_take hn).1 with hp | hp <;> rw [hp] <;> rfl

def Event.keeper : Event → Option ThreadId
  | .call t (.refused c _) => if c.leaves then some t else none
  | _ => none

theorem Point.not_announcing_of_inside {p : Point} (hp : p.inside = true) : p ≠ .announcing := by
  rintro rfl
  cases hp

namespace Machine

variable {s : Setup} {ok : OnceInit.Step → Prop} {cells : GuardId → Cell} {m m₁ : Machine}
  {h es : List Event} {t : ThreadId} {k : Task} {n : Next}

def Loose (m : Machine) : Prop :=
  ∀ u, m.owner = some u → m.running = some u ∧ ∃ k, m.tasks u = some k ∧ k.point.inside = true

theorem Loose.free (hm : m.Loose) (hr : m.running = none) : m.owner = none := by
  by_contra ho
  obtain ⟨u, hu⟩ := Option.ne_none_iff_exists'.mp ho
  cases hr.symm.trans (hm u hu).1

theorem Loose.free_outside (hm : m.Loose) (hr : m.running = some t) (hk : m.tasks t = some k)
    (hi : k.point.inside = false) : m.owner = none := by
  by_contra ho
  obtain ⟨u, hu⟩ := Option.ne_none_iff_exists'.mp ho
  obtain ⟨hu', k', hk', hi'⟩ := hm u hu
  cases hr.symm.trans hu'
  cases hk.symm.trans hk'
  rw [hi] at hi'
  cases hi'

theorem loose_of_free (ho : m.owner = none) : m.Loose := fun _ hu => nomatch ho.symm.trans hu

structure Calm (m : Machine) : Prop where
  queue : m.queue = []
  owner : ∀ u, m.owner = some u → m.running = some u ∧ ∃ k, m.tasks u = some k ∧ k.point.inside = true

theorem Calm.loose (hm : m.Calm) : m.Loose := hm.owner

theorem Calm.free (hm : m.Calm) (hr : m.running = none) : m.owner = none := hm.loose.free hr

theorem calm_of_free (hq : m.queue = []) (ho : m.owner = none) : m.Calm where
  queue := hq
  owner := fun _ hu => nomatch ho.symm.trans hu

theorem Calm.begin (hm : m.Calm) (hr : m.running = none) (st : OnceInit.Step) : (m.begin s st).1.Calm := by
  have hq := hm.queue
  have ho := hm.free hr
  have hb := onset s m st
  generalize m.begin s st = r at hb ⊢
  cases hb with
  | armed | poked | woken | launched | closed => exact calm_of_free hq ho
  | freed => exact calm_of_free (by simp [unlock, hq]) rfl
  | skipped | declined => exact hm

theorem Loose.inside (hm : m.Loose) (hr : m.running = some t)
    (ha : ∃ k', n.after k = some k' ∧ k'.point.inside = true)
    (ho : ∀ u, m₁.owner = some u → m.owner = some u ∨ u = t) : (m₁.advance t k n).Loose := by
  intro u hu
  obtain ⟨k', ha, hi⟩ := ha
  have hut : u = t := by
    rcases ho u hu with h | h
    · exact (Option.some.inj (hr.symm.trans (hm u h).1)).symm
    · exact h
  subst hut
  exact ⟨by simp [Machine.advance, ha], k', by simp [Machine.advance, ha], hi⟩

/-- No refusal among `es` has left the mutex taken. -/
def LetsGo (es : List Event) : Prop := ∀ u c code, .call u (.refused c code) ∈ es → c.leaves = false

theorem letsGo_iff : LetsGo es ↔ ∀ e ∈ es, e.keeper = none := by
  constructor
  · intro hl e he
    cases e with
    | call t x =>
      cases x with
      | refused c code => simp [Event.keeper, hl t c code he]
      | locked | blocked | unlocked | slept | woke | announced => rfl
    | began | ended | read | write | opened | closed | log | answer | skip => rfl
  · intro hk t c code he
    simpa [Event.keeper] using hk _ he

instance : Decidable (LetsGo es) := decidable_of_iff' _ letsGo_iff

theorem LetsGo.left {hs : List Event} (hl : LetsGo (hs ++ es)) : LetsGo hs :=
  fun u c code hm => hl u c code (List.mem_append_left _ hm)

theorem LetsGo.right {hs : List Event} (hl : LetsGo (hs ++ es)) : LetsGo es :=
  fun u c code hm => hl u c code (List.mem_append_right _ hm)

theorem LetsGo.append {hs : List Event} (hh : LetsGo hs) (hl : LetsGo es) : LetsGo (hs ++ es) :=
  fun u c code hm => (List.mem_append.mp hm).elim (hh u c code) (hl u c code)

theorem Loose.act (hm : m.Loose) (hr : m.running = some t) (hk : m.tasks t = some k)
    (ha : Act s m t k m₁ es n) (hl : LetsGo es) : (m₁.advance t k n).Loose := by
  cases ha with
  | @refused c n r code hn hc =>
    have hi : k.point.inside = false := (Task.inside_of_call hn).trans (hl t c code (by simp))
    exact loose_of_free (hm.free_outside hr hk hi)
  | lock hn | broadcast hn => exact loose_of_free (hm.free_outside hr hk (Task.inside_of_call hn))
  | unlock hn => exact loose_of_free rfl
  | took hn free =>
    refine hm.inside hr ⟨_, (Task.after_take hn).2, ?_⟩ fun u hu => .inr (Option.some.inj hu).symm
    split <;> rfl
  | read hn =>
    obtain ⟨k', ha, hi, -⟩ := Task.after_read hn (m.cells k.guard)
    exact hm.inside hr ⟨k', ha, hi⟩ fun u hu => .inl hu
  | asked hn =>
    obtain ⟨k', ha, hi, -⟩ := Task.after_ask hn (m.token s t)
    exact hm.inside hr ⟨k', ha, hi⟩ fun u hu => .inl hu
  | wrote hn =>
    obtain ⟨v, ha⟩ := Task.after_write hn
    exact hm.inside hr ⟨_, ha, rfl⟩ fun u hu => .inl hu

theorem Act.queue (ha : Act s m t k m₁ es n) (hq : m.queue = []) : m₁.queue = [] := by
  cases ha with
  | unlock => simp [Machine.unlock, spend, hq]
  | refused | lock | broadcast | took | read | asked | wrote => exact hq

theorem news_cases {e : Event} (hm : e ∈ n.report t k ++ n.notes s t k) :
    (∃ r, n = .finish r ∧ e = .ended t k.op k.guard r) ∨ (∃ g, e = .opened t g) ∨ (∃ x, e = .log t x) ∨
      ∃ a, e = .answer t a := by
  rcases List.mem_append.mp hm with hm | hm
  · cases n with
    | go | tell => cases hm
    | finish r =>
      cases r with
      | gives v =>
        rcases List.mem_cons.mp hm with rfl | hm
        · exact .inl ⟨_, rfl, rfl⟩
        · obtain ⟨f, -, rfl⟩ := List.mem_map.mp hm
          exact .inr (.inl ⟨f.guard, rfl⟩)
      | fails f => exact .inl ⟨_, rfl, List.mem_singleton.mp hm⟩
  · unfold Next.notes at hm
    split at hm
    · cases hm
    · exact .inr (.inr (.inl ⟨_, eq_of_mem_log hm⟩))
    · exact .inr (.inr (.inr ⟨_, List.mem_singleton.mp hm⟩))
    · split at hm
      · exact .inr (.inr (.inr ⟨_, List.mem_singleton.mp hm⟩))
      · rcases List.mem_append.mp hm with hm | hm
        · exact .inr (.inr (.inl ⟨_, eq_of_mem_log hm⟩))
        · exact .inr (.inr (.inr ⟨_, List.mem_singleton.mp hm⟩))

theorem call_not_mem_news (n : Next) (u : ThreadId) (x : Mark) :
    .call u x ∉ n.report t k ++ n.notes s t k := fun hm => by
  obtain ⟨_, _, hm⟩ | ⟨_, hm⟩ | ⟨_, hm⟩ | ⟨_, hm⟩ := news_cases hm <;> cases hm

theorem Played.refused {r : Machine × List Event} {u : ThreadId} {c : Call} {code : Int}
    (hp : Played s m t k r) (hm : .call u (.refused c code) ∈ r.2) :
    u = t ∧ m.refusal c = some code ∧ ∃ n f, k.node = .call c n f ∧
      r = ((m.spend c).advance t k (f code),
        .call t (.refused c code) :: ((f code).report t k ++ (f code).notes s t k)) := by
  cases hp with
  | slept => simp at hm
  | parked => simp [park] at hm
  | @act m₁ es n ha =>
    have he : .call u (.refused c code) ∈ es := (List.mem_append.mp hm).resolve_right (call_not_mem_news n u _)
    clear hm
    cases ha with
    | @refused c' n f code' hn hc =>
      cases List.mem_singleton.mp he
      exact ⟨rfl, hc, n, f, hn, rfl⟩
    | lock | asked => cases he
    | unlock | broadcast | read | wrote => cases List.mem_singleton.mp he
    | @took w => cases w <;> cases List.mem_singleton.mp he

theorem Loose.played (hm : m.Loose) (hr : m.running = some t) (hk : m.tasks t = some k)
    {r : Machine × List Event} (hp : Played s m t k r) (hl : LetsGo r.2) : r.1.Loose := by
  cases hp with
  | act ha => exact hm.act hr hk ha hl.left
  | slept => exact loose_of_free rfl
  | parked hn => exact loose_of_free (hm.free_outside hr hk (Task.outside_of_take hn))

theorem Calm.played (hm : m.Calm) (hr : m.running = some t) (hk : m.tasks t = some k)
    {r : Machine × List Event} (hp : Played s m t k r) (hl : LetsGo r.2) : r.1.Calm := by
  refine ⟨?_, hm.loose.played hr hk hp hl⟩
  cases hp with
  | act ha => exact ha.queue hm.queue
  | slept => simp [unlock, spend, hm.queue]
  | parked hn taken => exact absurd (hm.loose.free_outside hr hk (Task.outside_of_take hn)) taken

theorem Reaches.seated (hr : Reaches s ok (.start cells) m h) : m.Seated := by
  induction hr with
  | start => exact seated_start cells
  | begin st _ hs hf _ ih => exact ih.begin hs hf st
  | turn _ hu ih => exact ih.turn hu

theorem Reaches.calm_of_letsGo (hr : Reaches s ok (.start cells) m h) (hl : LetsGo h) : m.Calm := by
  induction hr with
  | start => exact calm_of_free rfl rfl
  | begin st _ hs ha _ ih => exact (ih hl.left).begin (idle_of_settled hs ha).1 st
  | turn hr hu ih =>
    have hm := ih hl.left
    obtain ⟨-, ⟨t, k, hrun, hk, hp⟩ | ⟨t, rest, hrun, hq, ht⟩⟩ := hr.seated.turn_cases (s := s) hu
    · exact hm.played hrun hk hp hl.right
    · rw [ht]
      exact calm_of_free hm.queue (hm.free hrun)

/-- The running thread owns the mutex while it is inside, and nobody does while it has a broadcast to make. -/
structure Owned (m : Machine) : Prop where
  inside : ∀ t k, m.running = some t → m.tasks t = some k → k.point.inside = true → m.owner = some t
  announcing : ∀ t k, m.running = some t → m.tasks t = some k → k.point = .announcing → m.owner = none

def Entering (m : Machine) : Prop := ∀ t k, m.running = some t → m.tasks t = some k →
  k.point = .locking ∨ k.point = .contending ∨ k.point = .waking

theorem entering_of_idle (hr : m.running = none) : m.Entering := fun _ _ hr' => nomatch hr.symm.trans hr'

theorem entering_of_task (hr : m.running = some t) (hk : m.tasks t = some k)
    (hp : k.point = .locking ∨ k.point = .contending ∨ k.point = .waking) : m.Entering := by
  intro u k' hr' hk'
  cases hr.symm.trans hr'
  cases hk.symm.trans hk'
  exact hp

theorem Seated.entering_begin (hs : m.Seated) (hr : m.running = none) (st : OnceInit.Step) :
    (m.begin s st).1.Entering := by
  have ho := onset s m st
  generalize m.begin s st = r at ho ⊢
  cases ho with
  | armed | poked | freed | skipped | declined => exact entering_of_idle hr
  | @woken u hu =>
    obtain ⟨k, hk⟩ := Option.isSome_iff_exists.mp ((hs.busy u).mp (by simp [seats, hu]))
    exact entering_of_task rfl hk (.inr (hs.parked u k hk (by simp [hr])))
  | launched _ _ hk =>
    refine entering_of_task rfl (put_same ..) (.inl ?_)
    rw [GuardKind.task?_eq hk, Task.start]
  | closed => exact entering_of_task rfl (put_same ..) (.inl rfl)

theorem Seated.entering_resume (hs : m.Seated) (hr : m.running = none) {rest : List ThreadId}
    (hq : m.ready = t :: rest) : Entering { m with running := some t, ready := rest } := by
  obtain ⟨k, hk⟩ := Option.isSome_iff_exists.mp ((hs.busy t).mp (by simp [seats, hq]))
  exact entering_of_task rfl hk (.inr (hs.parked t k hk (by simp [hr])))

theorem Entering.owned (he : m.Entering) : m.Owned where
  inside := by
    intro t k hr hk hi
    rcases he t k hr hk with hp | hp | hp <;> rw [hp] at hi <;> cases hi
  announcing := by
    intro t k hr hk hq
    rcases he t k hr hk with hp | hp | hp <;> cases hp.symm.trans hq

theorem owned_of_idle (hr : m.running = none) : m.Owned := (entering_of_idle hr).owned

theorem owned_advance (hi : ∀ k', n.after k = some k' → k'.point.inside = true → m.owner = some t)
    (hq : ∀ k', n.after k = some k' → k'.point = .announcing → m.owner = none) : (m.advance t k n).Owned := by
  have running : ∀ {u k'}, (m.advance t k n).running = some u → (m.advance t k n).tasks u = some k' →
      u = t ∧ n.after k = some k' := by
    intro u k' hr hk'
    have hu : u = t := by
      by_contra hu
      simp [Machine.advance, Ne.symm hu] at hr
    subst hu
    exact ⟨rfl, (put_same ..).symm.trans hk'⟩
  constructor
  · intro u k' hr hk' hp
    obtain ⟨rfl, ha⟩ := running hr hk'
    exact hi k' ha hp
  · intro u k' hr hk' hp
    obtain ⟨-, ha⟩ := running hr hk'
    exact hq k' ha hp

theorem Owned.act (hm : m.Owned) (hr : m.running = some t) (hk : m.tasks t = some k)
    (ha : Act s m t k m₁ es n) : (m₁.advance t k n).Owned := by
  have stay : ∀ {m₁ : Machine} {n : Next}, k.point.inside = true → m₁.owner = m.owner →
      (∃ k', n.after k = some k' ∧ k'.point.inside = true) → (m₁.advance t k n).Owned := by
    intro m₁ n hp ho hn
    obtain ⟨k', ha, hi⟩ := hn
    refine owned_advance (fun _ _ _ => ho.trans (hm.inside t k hr hk hp)) fun k'' ha' hq => ?_
    cases ha.symm.trans ha'
    exact absurd hq (Point.not_announcing_of_inside hi)
  cases ha with
  | @refused c n r code hn _ =>
    have hz := Task.after_refused hn code
    exact owned_advance (by simp [hz]) (by simp [hz])
  | lock hn | broadcast hn =>
    refine owned_advance (fun k' ha hi => ?_) fun k' ha hq => ?_
    · rw [(Task.outside_of_called hn ha).1] at hi
      cases hi
    · cases (Task.outside_of_called hn ha).2 hq
  | unlock hn =>
    refine owned_advance (fun k' ha hi => ?_) fun _ _ _ => rfl
    rw [(Task.outside_of_called hn ha).1] at hi
    cases hi
  | took hn _ =>
    refine owned_advance (fun _ _ _ => rfl) fun k' ha hq => ?_
    cases (Task.after_take hn).2.symm.trans ha
    split at hq <;> cases hq
  | read hn =>
    obtain ⟨k', ha, hi, -⟩ := Task.after_read hn (m.cells k.guard)
    exact stay (Task.inside_of_read hn) rfl ⟨k', ha, hi⟩
  | asked hn =>
    obtain ⟨k', ha, hi, -⟩ := Task.after_ask hn (m.token s t)
    exact stay (Task.inside_of_ask hn) rfl ⟨k', ha, hi⟩
  | wrote hn =>
    obtain ⟨v, ha⟩ := Task.after_write hn
    exact stay (Task.inside_of_write hn) rfl ⟨_, ha, rfl⟩

theorem Reaches.owned (hr : Reaches s ok (.start cells) m h) : m.Owned := by
  induction hr with
  | start => exact owned_of_idle rfl
  | begin st hr hs ha _ _ => exact (hr.seated.entering_begin (idle_of_settled hs ha).1 st).owned
  | @turn m h hr hu ih =>
    obtain ⟨-, ⟨t, k, hrun, hk, hp⟩ | ⟨t, rest, hrun, hq, ht⟩⟩ := hr.seated.turn_cases (s := s) hu
    · generalize m.turn s = r at hp
      cases hp with
      | act ha => exact ih.act hrun hk ha
      | slept | parked => exact owned_of_idle rfl
    · rw [ht]
      exact (hr.seated.entering_resume hrun hq).owned

theorem Act.failed {f : Failure} (ha : Act s m t k m₁ es (.finish (.fails f))) :
    (∃ c code n r, k.node = .call c n r ∧ m₁ = m.spend c ∧ es = [.call t (.refused c code)] ∧
      (f = .ofCall k.op c code ∨ c = .unlock ∧ f = .deadlock k.op)) ∨
    m₁.owner = none ∧ es = [.call t .unlocked] ∧ f = .deadlock k.op := by
  generalize hx : Next.finish (.fails f) = n at ha
  cases ha with
  | @refused c n r code hn hc => exact .inl ⟨c, code, n, r, hn, rfl, rfl, Task.failure_of_refused hn hx.symm⟩
  | lock hn | broadcast hn =>
    subst hx
    cases (Task.failure_of_called hn).1
  | unlock hn =>
    subst hx
    exact .inr ⟨rfl, rfl, (Task.failure_of_called hn).2⟩
  | took hn _ => exact absurd hx.symm (Task.ne_finish_of_after (Task.after_take hn).2 _)
  | read hn =>
    obtain ⟨k', ha, -⟩ := Task.after_read hn (m.cells k.guard)
    exact absurd hx.symm (Task.ne_finish_of_after ha _)
  | asked hn =>
    obtain ⟨k', ha, -⟩ := Task.after_ask hn (m.token s t)
    exact absurd hx.symm (Task.ne_finish_of_after ha _)
  | wrote hn =>
    obtain ⟨v, ha⟩ := Task.after_write hn
    exact absurd hx.symm (Task.ne_finish_of_after ha _)

theorem Act.not_ended (ha : Act s m t k m₁ es n) (u : ThreadId) (op : Op) (g : GuardId) (r : Outcome) :
    .ended u op g r ∉ es := by
  cases ha <;> simp

theorem ended_of_news {u : ThreadId} {op : Op} {g : GuardId} {r : Outcome}
    (hm : .ended u op g r ∈ n.report t k ++ n.notes s t k) :
    u = t ∧ op = k.op ∧ g = k.guard ∧ n = .finish r := by
  obtain ⟨_, rfl, he⟩ | ⟨_, he⟩ | ⟨_, he⟩ | ⟨_, he⟩ := news_cases hm <;> cases he
  exact ⟨rfl, rfl, rfl, rfl⟩

theorem Played.ended {r : Machine × List Event} {u : ThreadId} {op : Op} {g : GuardId} {x : Outcome}
    (hp : Played s m t k r) (hm : .ended u op g x ∈ r.2) :
    u = t ∧ op = k.op ∧ g = k.guard ∧ ∃ m₁ es, Act s m t k m₁ es (.finish x) ∧
      r = (m₁.advance t k (.finish x), es ++ (Next.report t k (.finish x) ++ Next.notes s t k (.finish x))) := by
  cases hp with
  | slept => simp at hm
  | parked => simp [park] at hm
  | @act m₁ es n ha =>
    obtain ⟨rfl, rfl, rfl, rfl⟩ := ended_of_news ((List.mem_append.mp hm).resolve_left (ha.not_ended _ _ _ _))
    exact ⟨rfl, rfl, rfl, m₁, es, ha, rfl⟩

/-- An operation that fails leaves the mutex to its thread exactly if it was refused to let go of it, or if it was
refused the mutex while its thread had it already. -/
theorem owner_of_failed (hr : Reaches s ok (.start cells) m h) (hu : m.settled = false) {o : Op} {g : GuardId}
    {f : Failure} (hf : .ended t o g (.fails f) ∈ (m.turn s).2) :
    (m.turn s).1.owner = some t ↔
      (∃ c code, c.leaves = true ∧ .call t (.refused c code) ∈ (m.turn s).2) ∨
        f.kind = .lockFailed ∧ m.owner = some t := by
  obtain ⟨-, ⟨u, k, hrun, hk, hp⟩ | ⟨u, rest, -, -, ht⟩⟩ := hr.seated.turn_cases (s := s) hu
  · have ho := hr.owned
    generalize m.turn s = r at hp hf
    obtain ⟨rfl, rfl, rfl, m₁, es, ha, rfl⟩ := hp.ended hf
    have refusal : ∀ c code, .call t (.refused c code) ∈ es ++
        (Next.report t k (.finish (.fails f)) ++ Next.notes s t k (.finish (.fails f))) ↔
          .call t (.refused c code) ∈ es :=
      fun c code => by rw [List.mem_append, or_iff_left (call_not_mem_news _ _ _)]
    simp only [refusal]
    rcases ha.failed with ⟨c, code, n, r, hn, rfl, rfl, hx⟩ | ⟨hown, rfl, rfl⟩
    · have hi := Task.inside_of_call hn
      have hown : ((m.spend c).advance t k (.finish (.fails f))).owner = m.owner := rfl
      rw [hown]
      cases c with
      | lock =>
        obtain rfl := hx.resolve_right nofun
        simp [Call.leaves, Failure.ofCall, Call.kind]
      | broadcast =>
        obtain rfl := hx.resolve_right nofun
        have hq : k.point = .announcing := by cases Task.calls hn; assumption
        simp [ho.announcing t k hrun hk hq, Call.leaves]
      | unlock | wait =>
        simp [ho.inside t k hrun hk hi, Call.leaves]
    · have free : ∀ x, (m₁.advance t k x).owner = none := fun _ => hown
      simp [free, Failure.deadlock]
  · simp [ht] at hf

/-- A thread runs into its own claim, and the unlock of which nobody is told is refused. -/
theorem owner_of_failed_yielding : ∃ m h,
    Reaches (.plain .owner) (fun _ => True) (.start fun _ => .zero .wide) m h ∧ m.settled = false ∧
    .ended 0 .acquire 0 (.fails (.deadlock .acquire)) ∈ (m.turn (.plain .owner)).2 ∧
    (m.turn (.plain .owner)).1.owner = some 0 := by
  have hr : Reaches (.plain .owner) (fun _ => True) (.start fun _ => .zero .wide) _ [] := .start
  have h₁ := (hr.begin (.act 0 0 none (some .acquire)) (by decide) (by decide) trivial).turns 9
  have h₂ := h₁.begin (.fault .unlock ⟨22, 0⟩) (by decide) (by decide) trivial
  have h₃ := (h₂.begin (.act 0 0 none (some .acquire)) (by decide) (by decide) trivial).turns 4
  have hf := owner_of_failed (t := 0) (o := .acquire) (g := 0) (f := .deadlock .acquire) h₃ (by decide) (by decide)
  exact ⟨_, _, h₃, by decide, by decide, hf.mpr (.inl ⟨.unlock, 22, rfl, by decide⟩)⟩

/-- The mutex is not always free when an operation has failed: an acquire whose unlock is refused keeps it. -/
theorem not_free_of_failed : ¬ ∀ s cells m h t op g f,
    Reaches s (fun _ => True) (.start cells) m h → m.settled = false →
    .ended t op g (.fails f) ∈ (m.turn s).2 → (m.turn s).1.owner ≠ some t := by
  intro hall
  have hr : Reaches (.plain .owner) (fun _ => True) (.start fun _ => .zero .wide) _ [] := .start
  have h₁ := hr.begin (.fault .unlock ⟨22, 0⟩) (by decide) (by decide) trivial
  have h₂ := (h₁.begin (.act 0 0 none (some .acquire)) (by decide) (by decide) trivial).turns 5
  exact hall _ _ _ _ 0 .acquire 0 (.ofCall .acquire .unlock 22) h₂ (by decide) (by decide) (by decide)

end Machine
end OnceInit

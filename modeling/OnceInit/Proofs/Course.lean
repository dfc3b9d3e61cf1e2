import OnceInit.Proofs.Standing
import OnceInit.Proofs.Wakeup

/-! The course of one operation, in any machine whatsoever: how often its thread parks, what others do to the guard
meanwhile and whether they keep to any rule makes no difference. What it has read decides at which point it can be, and
it does not go on after a refusal. -/

namespace OnceInit

def Event.actor : Event → Option ThreadId
  | began t .. | ended t .. | call t _ | read t .. | write t .. => some t
  | opened t _ | closed t .. | log t _ | answer t _ => some t
  | skip _ => none

def Event.returns : Event → Option ThreadId
  | ended t .. => some t
  | _ => none

def readsOf (t : ThreadId) (g : GuardId) (es : List Event) : List Cell :=
  es.filterMap fun
    | .read u d c => if u = t ∧ d = g then some c else none
    | _ => none

section Reads

variable {t : ThreadId} {g : GuardId} {c : Cell} {es : List Event}

theorem readsOf_append (t : ThreadId) (g : GuardId) (es fs : List Event) :
    readsOf t g (es ++ fs) = readsOf t g es ++ readsOf t g fs :=
  List.filterMap_append

theorem mem_readsOf : c ∈ readsOf t g es ↔ .read t g c ∈ es := by
  constructor
  · intro hc
    obtain ⟨e, he, hc⟩ := List.mem_filterMap.mp hc
    split at hc
    · split at hc
      · next ht =>
        cases hc
        obtain ⟨rfl, rfl⟩ := ht
        exact he
      · cases hc
    · cases hc
  · exact fun he => List.mem_filterMap.mpr ⟨_, he, by simp⟩

theorem readsOf_eq_nil (hs : ∀ c, .read t g c ∉ es) : readsOf t g es = [] :=
  List.eq_nil_iff_forall_not_mem.mpr fun c hc => hs c (mem_readsOf.mp hc)

theorem readsOf_append_of_unread (h : List Event) (hs : ∀ c, .read t g c ∉ es) :
    readsOf t g (h ++ es) = readsOf t g h := by
  rw [readsOf_append, readsOf_eq_nil hs, List.append_nil]

end Reads

namespace Scheme

/-- The cell is not complete and tells of a claim of `me`. -/
def Catches (c : Scheme) (me : Token) (d : Cell) : Prop := d.isComplete = false ∧ c.claimOf d = .takenBy me

def Clears (c : Scheme) (own : Option Token) (d : Cell) : Prop :=
  d.isComplete = false → ∃ me, own = some me ∧ c.claimOf d ≠ .takenBy me

variable {c : Scheme} {own : Option Token} {me : Token} {d : Cell}

theorem Clears.learns (hc : c.Clears own d) (hm : ∀ x, own = some x → x = me) : c.Clears (some me) d := by
  intro hd
  obtain ⟨x, hx, hne⟩ := hc hd
  exact ⟨me, rfl, hm x hx ▸ hne⟩

theorem Clears.not_catches (hc : c.Clears own d) (hm : ∀ x, own = some x → x = me) : ¬ c.Catches me d := by
  rintro ⟨hd, he⟩
  obtain ⟨x, hx, hne⟩ := hc hd
  exact hne (hm x hx ▸ he)

end Scheme

namespace Task

def Sighted (k : Task) (own : Option Token) (rs : List Cell) : Prop :=
  match k.point with
  | .reading => k.op.settles = false ∧ (k.op = .acquire → ∀ d ∈ rs, k.scheme.Clears own d)
  | .judging c => k.op = .acquire ∧ c.isComplete = false ∧ ∃ ds, rs = ds ++ [c] ∧ ∀ d ∈ ds, k.scheme.Clears own d
  | .yielding => k.op = .acquire ∧ ∃ me, own = some me ∧ ∃ d ∈ rs, k.scheme.Catches me d
  | _ => k.op = .acquire → ∀ d ∈ rs, k.scheme.Clears own d

variable {k k' : Task} {own : Option Token} {rs : List Cell} {n : Next}

theorem sighted_start (op : Op) (g : GuardId) (c : Scheme) (p : Purpose) (own : Option Token) :
    (start op g c p).Sighted own [] := fun _ _ hd => nomatch hd

theorem Sighted.clears (hs : k.Sighted own rs) {x : Call} {r : Int → Next} (hn : k.node = .call x n r)
    (hy : k.point ≠ .yielding) : k.op = .acquire → ∀ d ∈ rs, k.scheme.Clears own d := by
  cases calls hn with
  | lock hp | wait hp | unlock hp | broadcast hp => simpa only [Sighted, hp] using hs
  | yield hp => exact absurd hp hy

theorem Sighted.catches (hs : k.Sighted own rs) (hp : k.point = .yielding) :
    k.op = .acquire ∧ ∃ me, own = some me ∧ ∃ d ∈ rs, k.scheme.Catches me d := by
  simpa only [Sighted, hp] using hs

theorem sighted_called (hs : k.Sighted own rs) {x : Call} {r : Int → Next} (hn : k.node = .call x n r)
    (ha : n.after k = some k') : k'.Sighted own rs := by
  cases calls hn with
  | lock hp | wait hp =>
    have hc := hs.clears hn (by simp [hp])
    cases ha
    exact hc
  | unlock hp =>
    have hc := hs.clears hn (by simp [hp])
    split at ha
    · cases ha
      exact hc
    · cases ha
  | yield | broadcast => cases ha

theorem sighted_took (hs : k.Sighted own rs) {w : Bool} (hn : k.node = .take w n) (ha : n.after k = some k') :
    k'.Sighted own rs := by
  obtain ⟨hp, he⟩ := after_take hn
  have hc : k.op = .acquire → ∀ d ∈ rs, k.scheme.Clears own d := by
    rcases hp with hp | hp <;> simpa only [Sighted, hp] using hs
  cases he.symm.trans ha
  by_cases ho : k.op.settles = true
  · simpa only [Sighted, if_pos ho] using hc
  · simpa only [Sighted, if_neg ho] using ⟨Bool.eq_false_iff.mpr ho, hc⟩

theorem sighted_read (hs : k.Sighted own rs) {f : Cell → Next} (hn : k.node = .read f) {d : Cell}
    (ha : (f d).after k = some k') : k'.Sighted own (rs ++ [d]) := by
  have hsees := sees hn d
  simp only [Sighted, point_of_read hn] at hs
  obtain ⟨ho, hc⟩ := hs
  generalize f d = n at hsees ha
  cases hsees with
  | inspected hi =>
    cases ha
    intro he
    cases hi.symm.trans he
  | complete hi hd =>
    cases ha
    intro he x hx
    rcases List.mem_append.mp hx with hx | hx
    · exact hc he x hx
    · cases List.mem_singleton.mp hx
      exact fun hn => absurd (hd.symm.trans hn) (by decide)
  | unsure hi hd =>
    cases ha
    exact ⟨eq_acquire_of_not_settles ho hi, hd, rs, rfl, hc (eq_acquire_of_not_settles ho hi)⟩

theorem sighted_asked (hs : k.Sighted own rs) {f : Token → Next} (hn : k.node = .ask f) {me : Token}
    (hm : ∀ x, own = some x → x = me) (ha : (f me).after k = some k') : k'.Sighted (some me) rs := by
  obtain ⟨c, hp⟩ := point_of_ask hn
  have hj := judges hn hp me
  simp only [Sighted, hp] at hs
  obtain ⟨ho, hd, ds, rfl, hc⟩ := hs
  have clears : k.scheme.claimOf c ≠ .takenBy me → ∀ d ∈ ds ++ [c], k.scheme.Clears (some me) d := by
    intro hne d hx
    rcases List.mem_append.mp hx with hx | hx
    · exact (hc d hx).learns hm
    · cases List.mem_singleton.mp hx
      exact fun _ => ⟨me, rfl, hne⟩
  generalize f me = n at hj ha
  cases hj with
  | free hx =>
    cases ha
    exact fun _ => clears (by simp [hx])
  | own hx =>
    cases ha
    exact ⟨ho, me, rfl, c, by simp, hd, hx⟩
  | others hx _ hne =>
    cases ha
    exact fun _ => clears (hx ▸ hne)

theorem sighted_wrote (hs : k.Sighted own rs) {new : Width → Cell} (hn : k.node = .write new n)
    (ha : n.after k = some k') : k'.Sighted own rs := by
  cases writes hn with
  | claim hp | store hp =>
    simp only [Sighted, hp] at hs
    cases ha
    exact hs

end Task

namespace Machine

variable {s : Setup} {ok : OnceInit.Step → Prop} {m m₀ m₁ : Machine} {h es : List Event} {t u : ThreadId}
  {k k' : Task} {n : Next} {r : Machine × List Event}

theorem Act.actor (ha : Act s m t k m₁ es n) : ∀ e ∈ es, e.actor = some t := by
  cases ha with
  | lock | asked => exact fun e he => nomatch he
  | refused | unlock | broadcast | took | read | wrote =>
    intro e he
    cases List.mem_singleton.mp he
    rfl

theorem actor_of_report (t : ThreadId) (k : Task) (n : Next) : ∀ e ∈ n.report t k, e.actor = some t := by
  intro e he
  cases n with
  | go | tell => cases he
  | finish x =>
    cases x with
    | gives v =>
      rcases List.mem_cons.mp he with rfl | he
      · rfl
      · obtain ⟨f, -, rfl⟩ := List.mem_map.mp he
        rfl
    | fails f =>
      cases List.mem_singleton.mp he
      rfl

theorem actor_of_notes (s : Setup) (t : ThreadId) (k : Task) (n : Next) : ∀ e ∈ n.notes s t k, e.actor = some t := by
  intro e he
  unfold Next.notes at he
  split at he
  · cases he
  · rw [eq_of_mem_log he]
    rfl
  · cases List.mem_singleton.mp he
    rfl
  · split at he
    · cases List.mem_singleton.mp he
      rfl
    · rcases List.mem_append.mp he with he | he
      · rw [eq_of_mem_log he]
        rfl
      · cases List.mem_singleton.mp he
        rfl

theorem Played.actor (hp : Played s m t k r) : ∀ e ∈ r.2, e.actor = some t := by
  intro e he
  cases hp with
  | slept | parked => rcases List.mem_pair.mp he with rfl | rfl <;> rfl
  | @act m₁ es n ha =>
    rcases List.mem_append.mp he with he | he
    · exact ha.actor e he
    · exact (List.mem_append.mp he).elim (actor_of_report t k n e) (actor_of_notes s t k n e)

theorem Act.sighted (ha : Act s m t k m₁ es n) {rs : List Cell} (hs : k.Sighted (m.tokens.known t) rs)
    (hk : n.after k = some k') : k'.Sighted (m₁.tokens.known t) (rs ++ readsOf t k.guard es) := by
  cases ha with
  | refused hn => cases (Task.after_refused hn _).symm.trans hk
  | lock hn | unlock hn | broadcast hn =>
    rw [readsOf_eq_nil (by simp), List.append_nil]
    exact Task.sighted_called hs hn hk
  | took hn =>
    rw [readsOf_eq_nil (by simp), List.append_nil]
    exact Task.sighted_took hs hn hk
  | read hn =>
    have he : readsOf t k.guard [.read t k.guard (m.cells k.guard)] = [m.cells k.guard] := by simp [readsOf]
    rw [he]
    exact Task.sighted_read hs hn hk
  | asked hn =>
    rw [readsOf_eq_nil (by simp), List.append_nil, register, Registry.known_ask]
    exact Task.sighted_asked hs hn (fun x hx => (token_of_known (s := s) hx).symm) hk
  | wrote hn =>
    rw [readsOf_eq_nil (by simp), List.append_nil]
    exact Task.sighted_wrote hs hn hk

theorem Played.foreign {e : Event} (hp : Played s m u k r) (ht : t ≠ u) (he : e.actor = some t) : e ∉ r.2 :=
  fun hm => ht (Option.some.inj (he.symm.trans (hp.actor e hm)))

theorem read_not_mem_news (n : Next) (u : ThreadId) (g : GuardId) (c : Cell) :
    .read u g c ∉ n.report t k ++ n.notes s t k := fun hc => by
  obtain ⟨_, _, hx⟩ | ⟨_, hx⟩ | ⟨_, hx⟩ | ⟨_, hx⟩ := news_cases hc <;> cases hx

theorem write_not_mem_news (n : Next) (u : ThreadId) (o : Op) (g : GuardId) (c : Cell) :
    .write u o g c ∉ n.report t k ++ n.notes s t k := fun hc => by
  obtain ⟨_, _, hx⟩ | ⟨_, hx⟩ | ⟨_, hx⟩ | ⟨_, hx⟩ := news_cases hc <;> cases hx

theorem ended_mem_report (t : ThreadId) (k : Task) (x : Outcome) :
    .ended t k.op k.guard x ∈ (Next.finish x).report t k := by
  cases x <;> simp [Next.report]

theorem Played.fails_of_refused {x : Call} {code : Int} (hp : Played s m t k r)
    (hm : .call u (.refused x code) ∈ r.2) : ∃ f, .ended t k.op k.guard (.fails f) ∈ r.2 := by
  obtain ⟨rfl, -, n, f, hn, rfl⟩ := hp.refused hm
  obtain ⟨f, hf⟩ := Task.refused_eq hn code
  rw [hf]
  exact ⟨f, List.mem_cons_of_mem _ (List.mem_append_left _ (ended_mem_report u k _))⟩

structure Course (m : Machine) (t : ThreadId) (k : Task) (h : List Event) : Prop where
  task : m.tasks t = some k
  unrefused : ∀ x code, .call t (.refused x code) ∉ h
  sighted : k.Sighted (m.tokens.known t) (readsOf t k.guard h)

theorem course_launch (m : Machine) (t : ThreadId) (op : Op) (g : GuardId) (c : Scheme) (p : Purpose) :
    (m.launch t (.start op g c p)).1.Course t (.start op g c p) [] where
  task := put_same ..
  unrefused := by simp
  sighted := Task.sighted_start op g c p _

theorem Played.known_of_ne (hp : Played s m u k r) (ht : t ≠ u) : r.1.tokens.known t = m.tokens.known t := by
  cases hp with
  | slept | parked => rfl
  | act ha =>
    cases ha with
    | refused | lock | unlock | broadcast | took | read | wrote => rfl
    | asked => exact Registry.known_ask_of_ne _ ht _

theorem Course.others {m' : Machine} (hc : m.Course t k h) (ht : m'.tasks t = m.tasks t)
    (hk : m'.tokens.known t = m.tokens.known t) (hx : ∀ x, .call t x ∉ es) (hr : ∀ c, .read t k.guard c ∉ es) :
    m'.Course t k (h ++ es) where
  task := ht.trans hc.task
  unrefused := by
    intro x code he
    exact (List.mem_append.mp he).elim (hc.unrefused x code) (hx _)
  sighted := by
    rw [readsOf_append_of_unread h hr, hk]
    exact hc.sighted

theorem Course.begin (hc : m.Course t k h) (st : OnceInit.Step) :
    (m.begin s st).1.Course t k (h ++ (m.begin s st).2) := by
  have busy : ∀ u, m.tasks u = none → t ≠ u := by
    rintro u hu rfl
    cases hc.task.symm.trans hu
  have ho := onset s m st
  generalize m.begin s st = r at ho ⊢
  cases ho with
  | armed | poked | freed | skipped | woken => exact hc.others rfl rfl (by simp) (by simp)
  | declined => exact hc.others rfl rfl (by simp) (by simp)
  | launched free => exact hc.others (put_of_ne _ _ (busy _ free)) rfl (by simp [launch]) (by simp [launch])
  | closed free => exact hc.others (put_of_ne _ _ (busy _ free)) rfl (by simp [launch, emit]) (by simp [launch, emit])

theorem Course.own (hc : m.Course t k h) (hp : Played s m t k r) (hn : ∀ e ∈ r.2, e.returns ≠ some t) :
    ∃ x, r.1.Course t { k with point := x } (h ++ r.2) := by
  have unrefused : ∀ x code, .call t (.refused x code) ∉ h ++ r.2 := by
    intro x code he
    refine (List.mem_append.mp he).elim (hc.unrefused x code) fun he => ?_
    obtain ⟨f, hf⟩ := hp.fails_of_refused he
    exact hn _ hf rfl
  cases hp with
  | slept hw =>
    refine ⟨.waking, put_same .., unrefused, ?_⟩
    rw [readsOf_append_of_unread h (by simp)]
    exact Task.sighted_called hc.sighted hw rfl
  | parked =>
    refine ⟨k.point, hc.task, unrefused, ?_⟩
    rw [readsOf_append_of_unread h (by simp [park])]
    exact hc.sighted
  | @act m₁ es n ha =>
    cases hk : n.after k with
    | some k' =>
      have hs := ha.sighted hc.sighted hk
      rw [Task.after_eq hk] at hs
      refine ⟨k'.point, (put_same ..).trans (hk.trans (congrArg some (Task.after_eq hk))), unrefused, ?_⟩
      rw [readsOf_append, readsOf_append_of_unread es (read_not_mem_news n t k.guard)]
      exact hs
    | none =>
      cases n with
      | go | tell => cases hk
      | finish x =>
        have he := List.mem_append_left ((Next.finish x).notes s t k) (ended_mem_report t k x)
        exact absurd rfl (hn _ (List.mem_append_right es he))

theorem Course.turn (hc : m.Course t k h) (hn : ∀ e ∈ (m.turn s).2, e.returns ≠ some t) :
    ∃ x, (m.turn s).1.Course t { k with point := x } (h ++ (m.turn s).2) := by
  obtain ⟨u, j, -, hj, hp⟩ | ⟨he, ht, hk⟩ := turn_played s m
  · by_cases htu : t = u
    · subst htu
      cases hj.symm.trans hc.task
      exact hc.own hp hn
    · exact ⟨k.point, hc.others (hp.task_of_ne htu) (hp.known_of_ne htu) (fun _ => hp.foreign htu rfl)
        fun _ => hp.foreign htu rfl⟩
  · exact ⟨k.point, hc.others (by rw [ht]) (by rw [hk]) (by simp [he]) (by simp [he])⟩

theorem Reaches.course {op : Op} {g : GuardId} {c : Scheme} {p : Purpose}
    (hr : Reaches s ok (m₀.launch t (.start op g c p)).1 m h) (hn : ∀ e ∈ h, e.returns ≠ some t) :
    ∃ x, m.Course t ⟨op, g, c, p, x⟩ h := by
  induction hr with
  | start => exact ⟨_, course_launch m₀ t op g c p⟩
  | begin st _ _ _ _ ih =>
    obtain ⟨x, hc⟩ := ih fun e he => hn e (List.mem_append_left _ he)
    exact ⟨x, hc.begin st⟩
  | turn _ _ ih =>
    obtain ⟨x, hc⟩ := ih fun e he => hn e (List.mem_append_left _ he)
    exact hc.turn fun e he => hn e (List.mem_append_right _ he)

end Machine
end OnceInit

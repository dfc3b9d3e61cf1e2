import OnceInit.Proofs.Course
import OnceInit.Proofs.Relay

/-! What callers are told who have a guard run an initializer, and what those are told who call the hooks in their place.
By what an operation gives it is decided whether the initializer starts, and by how it came to its end what its caller
learns once the guard has been let go. -/

namespace OnceInit

def Purpose.Learns : Purpose → Answer → Prop
  | opening _, a => a ∈ [.waiting, .blocked, .terminated, .inside, .ran false]
  | closing e, a => a ∈ [.waiting, .blocked, .terminated, e.answer]
  | _, a => a.hooked = a

theorem Purpose.learns_answer {p : Purpose} {op : Op} {v : Value} (hp : p.Suits op) (hv : v.Suits op) :
    p.Learns (p.answer v) := by
  cases p with
  | plain | hook => cases v <;> rfl
  | view w => cases v <;> cases w <;> rfl
  | opening =>
    cases hp
    cases v with
    | granted yes => cases yes <;> simp [Learns, answer]
    | done | phase => cases hv
  | closing e =>
    cases hp
    have hs := e.settles_op
    cases v with
    | granted => exact hv.not_granted.elim
    | done => simp [Learns, answer]
    | phase =>
      rw [hv] at hs
      cases hs

theorem Purpose.learns_of_common (p : Purpose) {a : Answer} (ha : a ∈ [.waiting, .blocked, .terminated]) : p.Learns a := by
  obtain rfl | rfl | rfl : a = .waiting ∨ a = .blocked ∨ a = .terminated := by simpa using ha
  all_goals
    cases p with
    | plain | hook | view => rfl
    | opening | closing => simp [Learns]

theorem Purpose.learns_failure {p : Purpose} (hh : p.hearsFailures = true) (f : Failure) : p.Learns (.failure f) := by
  cases p with
  | plain => rfl
  | hook | view | opening | closing => cases hh

theorem Ending.hooked_answer (e : Ending) : e.answer.hooked = .done := by
  cases e <;> rfl

theorem Purpose.Learns.inj {p : Purpose} {a a' : Answer} (ha : p.Learns a) (ha' : p.Learns a') (hh : a.hooked = a'.hooked) :
    a = a' := by
  cases p with
  | plain | hook | view => exact ha.symm.trans (hh.trans ha')
  | opening =>
    simp only [Learns, List.mem_cons, List.not_mem_nil, or_false] at ha ha'
    rcases ha with rfl | rfl | rfl | rfl | rfl <;> rcases ha' with rfl | rfl | rfl | rfl | rfl <;>
      first | rfl | cases hh
  | closing e =>
    have he := e.hooked_answer
    simp only [Learns, List.mem_cons, List.not_mem_nil, or_false] at ha ha'
    rcases ha with rfl | rfl | rfl | rfl <;> rcases ha' with rfl | rfl | rfl | rfl <;>
      first | rfl | cases hh | cases hh.symm.trans he | cases hh.trans he

theorem Purpose.learns_opening_iff {p : Purpose} {a : Answer} (ha : a = .inside ∨ a = .ran false) :
    p.Learns a ↔ ∃ b, p = .opening b := by
  obtain rfl | rfl := ha
  all_goals
    cases p with
    | plain | hook | view => simp [Learns, Answer.hooked]
    | opening => simp [Learns]
    | closing e => cases e <;> simp [Learns, Ending.answer]

theorem Purpose.learns_ending_iff {p : Purpose} {e : Ending} : p.Learns e.answer ↔ p = .closing e := by
  cases p with
  | plain | hook | view => cases e <;> simp [Learns, Answer.hooked, Ending.answer]
  | opening => cases e <;> simp [Learns, Ending.answer]
  | closing x => cases e <;> cases x <;> simp [Learns, Ending.answer, eq_comm]

theorem GuardKind.plain_of_task? {c : Scheme} {b : Build} {g : GuardId} {other : Option Scheme} {a : Action} {k : Task}
    (hk : (plain c).task? b g other a = some k) : k.purpose = .plain := by
  cases a <;> cases hk <;> rfl

namespace Machine

variable {s : Setup} {ok : OnceInit.Step → Prop} {cells : GuardId → Cell} {m : Machine} {h : List Event}
  {t : ThreadId} {k : Task} {n : Next}

structure Voices (p : ThreadId → Purpose) (es : List Event) : Prop where
  told : ∀ t a, .answer t a ∈ es → (p t).Learns a
  given : ∀ t op g v, .ended t op g (.gives v) ∈ es → .answer t ((p t).answer v) ∈ es ∧ (p t).Suits op ∧ v.Suits op
  opened : ∀ t g, .opened t g ∈ es ↔ (∃ b, p t = .opening b) ∧ .ended t .acquire g (.gives (.granted true)) ∈ es

section Voices

variable {p : ThreadId → Purpose} {es fs : List Event} {m₁ : Machine}

theorem Voices.nil : Voices p [] := ⟨by simp, by simp, by simp⟩

theorem Voices.append (he : Voices p es) (hf : Voices p fs) : Voices p (es ++ fs) where
  told := fun t a hm => (List.mem_append.mp hm).elim (he.told t a) (hf.told t a)
  given := fun t op g v hm => (List.mem_append.mp hm).elim
    (fun hm => (he.given t op g v hm).imp_left (List.mem_append_left _))
    fun hm => (hf.given t op g v hm).imp_left (List.mem_append_right _)
  opened := by
    intro t g
    rw [List.mem_append, List.mem_append, he.opened, hf.opened, and_or_left]

theorem voices_of_learns (hs : ∀ t a, .answer t a ∈ es → (p t).Learns a) (ho : ∀ t g, .opened t g ∉ es)
    (he : ∀ t op g v, .ended t op g (.gives v) ∉ es) : Voices p es where
  told := hs
  given := fun t op g v hm => absurd hm (he t op g v)
  opened := fun t g => ⟨fun hm => absurd hm (ho t g), fun hm => absurd hm.2 (he t _ g _)⟩

theorem Act.voices (ha : Act s m t k m₁ es n) : Voices p es := by
  cases ha with
  | refused | lock | unlock | broadcast | took | read | asked | wrote =>
    exact voices_of_learns (by simp) (by simp) (by simp)

theorem Act.suits {v : Value} (ha : Act s m t k m₁ es (.finish (.gives v)))
    (hf : k.Fits (m.cells k.guard) (m.tokens.known t)) : v.Suits k.op := by
  obtain ⟨c, n, r, hn, rfl | ⟨f, hx⟩⟩ := ha.called_of_finish
  · exact Task.suits_of_called hf hn
  · cases hx

theorem opened_report_iff (hp : k.purpose.Suits k.op) (v : Value) (u : ThreadId) (g : GuardId) :
    .opened u g ∈ Next.report t k (.finish (.gives v)) ↔ (∃ b, k.purpose = .opening b) ∧
      .ended u .acquire g (.gives (.granted true)) ∈ Next.report t k (.finish (.gives v)) := by
  constructor
  · intro hm
    obtain ⟨f, hf, he⟩ := List.mem_map.mp ((List.mem_cons.mp hm).resolve_left (by simp))
    obtain ⟨hg, hb, rfl⟩ := Task.mem_opens hf
    cases he
    have ho : k.op = .acquire := by
      rw [hb] at hp
      exact hp
    exact ⟨⟨_, hb⟩, by simp [Next.report, ho, hg]⟩
  · rintro ⟨⟨b, hb⟩, hm⟩
    obtain ⟨rfl, ho, rfl, rfl⟩ : u = t ∧ .acquire = k.op ∧ g = k.guard ∧ .granted true = v := by
      simpa [Next.report] using hm
    simp [Next.report, Task.opens, hb]

theorem voices_news (hk : k.purpose = p t) (hp : k.purpose.Suits k.op)
    (hn : ∀ v, n = .finish (.gives v) → v.Suits k.op) : Voices p (n.report t k ++ n.notes s t k) := by
  have hlog : ∀ x, Voices p (s.log t x) := fun x =>
    voices_of_learns (fun u a he => nomatch eq_of_mem_log he) (fun u g he => nomatch eq_of_mem_log he)
      fun u op g v he => nomatch eq_of_mem_log he
  have hanswer : ∀ a, (p t).Learns a → Voices p [.answer t a] := by
    intro a ha
    refine voices_of_learns (fun u a' he => ?_) (by simp) (by simp)
    cases List.mem_singleton.mp he
    exact ha
  cases n with
  | go => exact Voices.nil
  | tell x => exact hlog x
  | finish r =>
    cases r with
    | gives v =>
      have hv : (p t).Learns (k.purpose.answer v) := hk ▸ Purpose.learns_answer hp (hn v rfl)
      refine ⟨fun u a he => ?_, fun u op g w he => ?_, fun u g => ?_⟩
      · obtain ⟨rfl, rfl⟩ : u = t ∧ a = k.purpose.answer v := by simpa [Next.report, Next.notes] using he
        exact hv
      · obtain ⟨rfl, rfl, -, rfl⟩ : u = t ∧ op = k.op ∧ g = k.guard ∧ w = v := by
          simpa [Next.report, Next.notes] using he
        exact ⟨by simp [Next.notes, hk], hk ▸ hp, hn w rfl⟩
      · simp only [List.mem_append, Next.notes, List.mem_singleton, reduceCtorEq, or_false]
        by_cases hu : u = t
        · rw [hu, ← hk]
          exact opened_report_iff hp v t g
        · simp [Next.report, hu, Ne.symm hu]
    | fails f =>
      refine Voices.append (voices_of_learns (by simp [Next.report]) (by simp [Next.report]) (by simp [Next.report])) ?_
      simp only [Next.notes]
      split
      · next hh => exact hanswer _ (hk ▸ Purpose.learns_failure hh f)
      · exact (hlog _).append (hanswer _ (Purpose.learns_of_common _ (by simp)))

theorem Played.voices {r : Machine × List Event} (hpl : Played s m t k r) (hk : k.purpose = p t)
    (hp : k.purpose.Suits k.op) (hf : k.Fits (m.cells k.guard) (m.tokens.known t)) : Voices p r.2 := by
  have hparks : ∀ x a, a ∈ [.waiting, .blocked, .terminated] → Voices p [.call t x, .answer t a] := by
    intro x a ha
    refine voices_of_learns (fun u a' he => ?_) (by simp) (by simp)
    obtain ⟨-, rfl⟩ : u = t ∧ a' = a := by simpa using he
    exact Purpose.learns_of_common _ ha
  cases hpl with
  | slept => exact hparks _ _ (by simp)
  | parked => exact hparks _ _ (by simp)
  | act ha =>
    refine ha.voices.append (voices_news hk hp ?_)
    rintro v rfl
    exact ha.suits hf

theorem Speaks.played {r : Machine × List Event} (hm : m.Speaks p) (hk : m.tasks t = some k)
    (hp : Played s m t k r) : r.1.Speaks p := by
  intro u j hj
  obtain ⟨i, pt, hi, rfl⟩ := hp.task hk hj
  exact hm u i hi

theorem Speaks.kept {m' : Machine} (hm : m.Speaks p) (hr : Reaches s (fun _ => False) m m' es) : m'.Speaks p := by
  induction hr with
  | start => exact hm
  | begin _ _ _ _ hno => exact hno.elim
  | @turn m₁ es _ _ ih =>
    obtain ⟨t, k, -, hk, hp⟩ | ⟨-, ht, -⟩ := turn_played s m₁
    · exact ih.played hk hp
    · intro u j hj
      rw [ht] at hj
      exact ih u j hj

theorem Reaches.voices {m' : Machine} (hr : Reaches s ok (.start cells) m h) (hm : m.Speaks p)
    (hr' : Reaches s (fun _ => False) m m' es) : Voices p es := by
  induction hr' with
  | start => exact Voices.nil
  | begin _ _ _ _ hno => exact hno.elim
  | @turn m₁ es hr' hu ih =>
    have hr₁ := hr.trans (hr'.mono fun _ => False.elim)
    obtain ⟨-, ⟨t, k, hrun, hk, hp⟩ | ⟨t, rest, -, -, ht⟩⟩ := hr₁.seated.turn_cases (s := s) hu
    · have hm₁ := hr₁.standing
      exact ih.append (hp.voices (hm.kept hr' t k hk) (hm₁.suits t k hk) (hm₁.fits t k hk))
    · rw [ht, List.append_nil]
      exact ih

theorem voices_begin (m : Machine) (st : OnceInit.Step) :
    Voices (m.begin s st).1.purposes (m.begin s st).2 := by
  have ho := onset s m st
  generalize m.begin s st = r at ho ⊢
  cases ho with
  | armed | poked | freed | woken => exact Voices.nil
  | skipped => exact voices_of_learns (by simp) (by simp) (by simp)
  | @declined _ t a free ha =>
    refine voices_of_learns (fun u a' he => ?_) (by simp) (by simp)
    cases List.mem_singleton.mp he
    rw [purposes, free]
    obtain rfl | rfl := ha <;> rfl
  | launched => exact voices_of_learns (by simp [launch]) (by simp [launch]) (by simp [launch])
  | closed => exact voices_of_learns (by simp [launch, emit]) (by simp [launch, emit]) (by simp [launch, emit])

end Voices

/-- What becomes of the initializers `fs` that `t` runs when `es` happens: it starts one more, or none. -/
inductive Stacks (p : ThreadId → Purpose) (es : List Event) (t : ThreadId) (fs : List Frame) : List Frame → Prop
  | same (none : ∀ d, .opened t d ∉ es) : Stacks p es t fs fs
  | more {g : GuardId} {b : Bool} (purpose : p t = .opening b) (one : ∀ d, .opened t d ∈ es ↔ d = g) :
      Stacks p es t fs (⟨g, b⟩ :: fs)

section Stacks

variable {p : ThreadId → Purpose} {es es' : List Event} {fs fs' : List Frame} {u : ThreadId} {r : Machine × List Event}

theorem Stacks.congr (hs : Stacks p es t fs fs') (he : ∀ d, .opened t d ∈ es' ↔ .opened t d ∈ es) :
    Stacks p es' t fs fs' := by
  cases hs with
  | same none => exact .same fun d hm => none d ((he d).mp hm)
  | more purpose one => exact .more purpose fun d => (he d).trans (one d)

theorem Stacks.eq_of_none (hs : Stacks p es t fs fs') (none : ∀ d, .opened t d ∉ es) : fs' = fs := by
  cases hs with
  | same => rfl
  | @more g b _ one => exact absurd ((one g).mpr rfl) (none g)

theorem Next.frames_cases (k : Task) (n : Next) :
    n.frames k = [] ∨ n.after k = none ∧ ∃ b, k.purpose = .opening b ∧ n.frames k = [⟨k.guard, b⟩] := by
  rcases n with _ | _ | ⟨v | _⟩
  · exact .inl rfl
  · exact .inl rfl
  · cases hp : k.purpose with
    | opening b =>
      by_cases hv : v = .granted true
      · exact .inr ⟨rfl, b, rfl, by simp [Next.frames, Task.opens, hp, hv]⟩
      · exact .inl (opens_eq_nil hv)
    | plain | hook | view | closing => exact .inl (by simp [Next.frames, Task.opens, hp])
  · exact .inl rfl

theorem opened_mem_news_iff (n : Next) (d : GuardId) :
    .opened t d ∈ n.report t k ++ n.notes s t k ↔ ∃ f ∈ n.frames k, f.guard = d := by
  have hnotes : .opened t d ∉ n.notes s t k := fun he => by cases isNote_notes s t k n _ he
  rw [List.mem_append, or_iff_left hnotes]
  rcases n with _ | _ | ⟨_ | _⟩ <;> simp [Next.report, Next.frames]

theorem Act.not_opened (ha : Act s m t k m₁ es n) (d : GuardId) : .opened u d ∉ es := by
  cases ha <;> simp

theorem Played.stacks (hp : Played s m t k r) (hk : k.purpose = p t) :
    Stacks p r.2 t (m.frames t) (r.1.frames t) ∧ ∀ d, .opened t d ∈ r.2 → r.1.tasks t = none := by
  cases hp with
  | slept | parked => exact ⟨.same (by simp [park]), by simp [park]⟩
  | @act m₁ es n ha =>
    have hopened : ∀ d, .opened t d ∈ es ++ (n.report t k ++ n.notes s t k) ↔ ∃ f ∈ n.frames k, f.guard = d := by
      intro d
      rw [List.mem_append, or_iff_right (ha.not_opened d), opened_mem_news_iff]
    have hframes : (m₁.advance t k n).frames t = n.frames k ++ m.frames t := by
      simp only [advance, put_same, ha.frame.2.2.1]
    rcases Next.frames_cases k n with hn | ⟨hdone, b, hb, hn⟩
    · rw [hn] at hopened hframes
      have none : ∀ d, .opened t d ∉ es ++ (n.report t k ++ n.notes s t k) := fun d => by simp [hopened]
      refine ⟨?_, fun d hd => absurd hd (none d)⟩
      rw [hframes]
      exact .same none
    · rw [hn] at hopened hframes
      refine ⟨?_, fun d _ => (put_same ..).trans hdone⟩
      rw [hframes]
      exact .more (hk ▸ hb) fun d => by rw [hopened]; simp [eq_comm]

theorem Played.frames_of_ne (hp : Played s m u k r) (ht : t ≠ u) : r.1.frames t = m.frames t := by
  cases hp with
  | slept | parked => rfl
  | act ha => exact (put_of_ne _ _ ht).trans (congrFun ha.frame.2.2.1 t)

theorem Reaches.stacks {m' : Machine} (hr : Reaches s ok (.start cells) m h) (hm : m.Speaks p)
    (hr' : Reaches s (fun _ => False) m m' es) (t : ThreadId) :
    Stacks p es t (m.frames t) (m'.frames t) ∧ ∀ d, .opened t d ∈ es → m'.tasks t = none := by
  induction hr' with
  | start => exact ⟨.same (by simp), by simp⟩
  | begin _ _ _ _ hno => exact hno.elim
  | @turn m₁ es hr' hu ih =>
    obtain ⟨hs, hdone⟩ := ih
    have hr₁ := hr.trans (hr'.mono fun _ => False.elim)
    obtain ⟨-, ⟨u, k, -, hk, hp⟩ | ⟨u, rest, -, -, ht⟩⟩ := hr₁.seated.turn_cases (s := s) hu
    · by_cases htu : t = u
      · subst htu
        have none : ∀ d, .opened t d ∉ es := fun d hd => by cases hk.symm.trans (hdone d hd)
        have he : ∀ d, .opened t d ∈ es ++ (m₁.turn s).2 ↔ .opened t d ∈ (m₁.turn s).2 := fun d => by simp [none]
        obtain ⟨hs', hdone'⟩ := hp.stacks (hm.kept hr' t k hk)
        rw [hs.eq_of_none none] at hs'
        exact ⟨hs'.congr he, fun d hd => hdone' d ((he d).mp hd)⟩
      · have he : ∀ d, .opened t d ∈ es ++ (m₁.turn s).2 ↔ .opened t d ∈ es := fun d => by
          rw [List.mem_append, or_iff_left (hp.foreign htu rfl)]
        rw [hp.frames_of_ne htu, hp.task_of_ne htu]
        exact ⟨hs.congr he, fun d hd => hdone d ((he d).mp hd)⟩
    · rw [ht, List.append_nil]
      exact ⟨hs, hdone⟩

end Stacks

def outlast (m : Machine) : OnceInit.Step → ThreadId → List Frame
  | .finish t _ => if m.fate = none ∧ m.tasks t = none then put m.frames t (m.frames t).tail else m.frames
  | _ => m.frames

theorem frames_begin (hf : m.fate = none) (st : OnceInit.Step) : (m.begin s st).1.frames = m.outlast st := by
  have ho := onset s m st
  cases st with
  | finish t e =>
    by_cases free : m.tasks t = none
    · cases htop : m.frames t with
      | nil =>
        have hp : put m.frames t [] = m.frames := by rw [← htop, put_eq_self]
        simp [begin, outlast, hf, free, htop, hp]
      | cons f rest => simp [begin, outlast, hf, free, htop, emit, launch]
    · have busy : (m.tasks t).isSome = true := Option.isSome_iff_ne_none.mpr free
      simp [begin, outlast, free, busy]
  | fault | poke | forceUnlock | spurious | act =>
    generalize m.begin s _ = r at ho ⊢
    cases ho <;> rfl

theorem opened_not_mem_begin (st : OnceInit.Step) (u : ThreadId) (d : GuardId) : .opened u d ∉ (m.begin s st).2 := by
  have ho := onset s m st
  generalize m.begin s st = r at ho ⊢
  cases ho <;> simp [launch, emit]

/-- What threads act for once the step has begun. -/
inductive Casts (s : Setup) (m : Machine) (st : OnceInit.Step) : (ThreadId → Purpose) → Prop
  | serves {t : ThreadId} {op : Op} {g : GuardId} {q : Purpose} (serves : m.Serves s t st op g q) :
      Casts s m st (put m.purposes t q)
  | nobody (serves : ∀ t op g q, ¬ m.Serves s t st op g q) : Casts s m st m.purposes

theorem purposes_launch (m : Machine) (t : ThreadId) (k : Task) :
    (m.launch t k).1.purposes = put m.purposes t k.purpose := by
  funext u
  by_cases hu : u = t
  · subst hu
    simp [purposes, launch]
  · simp [purposes, launch, put_of_ne _ _ hu]

theorem casts_begin (hm : m.Standing s) (st : OnceInit.Step) : m.Casts s st (m.begin s st).1.purposes := by
  by_cases hs : ∃ t op g q, m.Serves s t st op g q
  · obtain ⟨t, op, g, q, hs⟩ := hs
    obtain ⟨fs, es, hb, -⟩ := hs.begins
    rw [hb, prepend, purposes_launch]
    exact .serves hs
  · have nobody : ∀ t op g q, ¬ m.Serves s t st op g q := fun t op g q h => hs ⟨t, op, g, q, h⟩
    have same : (m.begin s st).1.purposes = m.purposes := by
      have ho := onset s m st
      generalize m.begin s st = r at ho ⊢
      cases ho with
      | armed | poked | freed | skipped | declined | woken => rfl
      | @launched t k kind other a free hkind hk =>
        cases kind with
        | managed => exact absurd (.acts other a hkind free) (nobody t _ _ _)
        | plain c =>
          have hp : k.purpose = m.purposes t := by
            rw [GuardKind.plain_of_task? hk, purposes, free]
            rfl
          rw [purposes_launch, hp, put_eq_self]
      | @closed t f rest e free top =>
        have guard := hm.frames t f (by simp [top])
        cases e with
        | completed => exact absurd (.succeeds guard free top trivial) (nobody t _ _ _)
        | panicked msg => exact absurd (.panics msg guard free top) (nobody t _ _ _)
        | failed msg =>
          cases hb : f.fallible with
          | true => exact absurd (.fails msg guard free top hb) (nobody t _ _ _)
          | false => exact absurd (.succeeds guard free top hb) (nobody t _ _ _)
    rw [same]
    exact .nobody nobody

theorem Reaches.voices_step (hr : Reaches s ok (.start cells) m h) (hs : m.settled = true) {st : OnceInit.Step}
    (hk : ok st) : Voices (m.begin s st).1.purposes (m.step s st).2 := by
  by_cases hf : m.fate = none
  · rw [step_of_alive hf]
    have hb := hr.begin st hs hf hk
    refine (voices_begin m st).append ?_
    have hd : Reaches s (fun _ => False) (m.begin s st).1 _ _ := Reaches.start.drain
    exact hb.voices (speaks_purposes _) hd
  · rw [step_of_ended (Option.isSome_iff_ne_none.mpr hf)]
    exact Voices.nil

theorem Reaches.stacks_step (hr : Reaches s ok (.start cells) m h) (hs : m.settled = true) {st : OnceInit.Step}
    (hk : ok st) (t : ThreadId) :
    Stacks (m.begin s st).1.purposes (m.step s st).2 t (m.outlast st t) ((m.step s st).1.frames t) := by
  by_cases hf : m.fate = none
  · have hd : Reaches s (fun _ => False) (m.begin s st).1 _ _ := Reaches.start.drain
    obtain ⟨hst, -⟩ := (hr.begin st hs hf hk).stacks (speaks_purposes _) hd t
    rw [step_of_alive hf, ← frames_begin hf]
    refine hst.congr fun d => ?_
    rw [prepend, List.mem_append, or_iff_right (opened_not_mem_begin st t d), List.nil_append]
  · rw [step_of_ended (Option.isSome_iff_ne_none.mpr hf)]
    have ho : m.outlast st = m.frames := by cases st <;> simp [outlast, hf]
    rw [ho]
    exact .same (by simp)

/-- What `low` is, in which the hooks are called, to `high`, in which guards run initializers, those of `fs` to begin
with. The states differ in what threads act for and in the initializers that they run, and in nothing else. -/
structure StandsIn (p : ThreadId → Purpose) (fs : ThreadId → List Frame) (low high : Machine × List Event) : Prop where
  state : low.1 = high.1.hooked
  events : low.2 = high.2.filterMap Event.hooked
  stderr : low.1.stderr = high.1.stderr
  frames : ∀ t, Stacks p high.2 t (fs t) (high.1.frames t)
  told : ∀ t op g, (p t).hooked = .hook →
    (∀ yes, .ended t op g (.gives (.granted yes)) ∈ low.2 → .answer t (.code yes) ∈ low.2) ∧
    (.ended t op g (.gives .done) ∈ low.2 → .answer t .done ∈ low.2)
  opened : ∀ t g, .opened t g ∈ high.2 ↔
    (∃ b, p t = .opening b) ∧ .ended t .acquire g (.gives (.granted true)) ∈ low.2
  inside : ∀ t, .answer t .inside ∈ high.2 ↔ (∃ b, p t = .opening b) ∧ .answer t (.code true) ∈ low.2
  ready : ∀ t, .answer t (.ran false) ∈ high.2 ↔ (∃ b, p t = .opening b) ∧ .answer t (.code false) ∈ low.2
  succeeded : ∀ t, .answer t (.ran true) ∈ high.2 ↔ p t = .closing .completed ∧ .answer t .done ∈ low.2
  failed : ∀ t msg, .answer t (.initFailed msg) ∈ high.2 ↔ p t = .closing (.failed msg) ∧ .answer t .done ∈ low.2
  panicked : ∀ t msg, .answer t (.panicked msg) ∈ high.2 ↔ p t = .closing (.panicked msg) ∧ .answer t .done ∈ low.2

theorem ended_hooked_iff {es : List Event} {op : Op} {g : GuardId} {x : Outcome} :
    .ended t op g x ∈ es.filterMap Event.hooked ↔ .ended t op g x ∈ es := by
  rw [List.mem_filterMap]
  constructor
  · rintro ⟨e, he, hh⟩
    cases e <;> cases hh
    exact he
  · exact fun he => ⟨_, he, rfl⟩

theorem answer_hooked_iff {es : List Event} {a : Answer} :
    .answer t a ∈ es.filterMap Event.hooked ↔ ∃ a', .answer t a' ∈ es ∧ a'.hooked = a := by
  rw [List.mem_filterMap]
  constructor
  · rintro ⟨e, he, hh⟩
    cases e <;> cases hh
    exact ⟨_, he, rfl⟩
  · rintro ⟨a', he, rfl⟩
    exact ⟨_, he, rfl⟩

theorem Voices.answer_iff {p : ThreadId → Purpose} {es : List Event} (hv : Voices p es) (a : Answer) :
    .answer t a ∈ es ↔ (p t).Learns a ∧ .answer t a.hooked ∈ es.filterMap Event.hooked := by
  rw [answer_hooked_iff]
  constructor
  · exact fun he => ⟨hv.told t a he, a, he, rfl⟩
  · rintro ⟨ha, a', he, hh⟩
    rwa [(hv.told t a' he).inj ha hh] at he

theorem Voices.ending_iff {p : ThreadId → Purpose} {es : List Event} (hv : Voices p es) (e : Ending) :
    .answer t e.answer ∈ es ↔ p t = .closing e ∧ .answer t .done ∈ es.filterMap Event.hooked := by
  rw [hv.answer_iff, e.hooked_answer]
  exact and_congr_left fun _ => Purpose.learns_ending_iff

theorem Voices.standsIn {p : ThreadId → Purpose} {fs : ThreadId → List Frame} {r : Machine × List Event}
    (hv : Voices p r.2) (hs : ∀ t, Stacks p r.2 t (fs t) (r.1.frames t)) : StandsIn p fs (relay r) r where
  state := rfl
  events := rfl
  stderr := rfl
  frames := hs
  told := by
    intro t op g hp
    have given : ∀ v, .ended t op g (.gives v) ∈ (relay r).2 → .answer t (Purpose.hook.answer v) ∈ (relay r).2 := by
      intro v he
      obtain ⟨ha, hop, hvop⟩ := hv.given t op g v (ended_hooked_iff.mp he)
      exact answer_hooked_iff.mpr ⟨_, ha, by rw [Purpose.hooked_answer hop hvop, hp]⟩
    exact ⟨fun yes => given (.granted yes), given .done⟩
  opened := fun t g => (hv.opened t g).trans (and_congr_right fun _ => ended_hooked_iff.symm)
  inside := fun t => (hv.answer_iff .inside).trans (and_congr_left fun _ => Purpose.learns_opening_iff (.inl rfl))
  ready := fun t => (hv.answer_iff (.ran false)).trans (and_congr_left fun _ => Purpose.learns_opening_iff (.inr rfl))
  succeeded := fun _ => hv.ending_iff .completed
  failed := fun _ msg => hv.ending_iff (.failed msg)
  panicked := fun _ msg => hv.ending_iff (.panicked msg)

/-- In the place of whoever has a guard run an initializer, whoever calls the hooks around it comes to the same, step
by step, in every process and whatever else is done to it. -/
theorem hooks_stand_in (s : Setup) (cells : GuardId → Cell) (steps : List OnceInit.Step) (st : OnceInit.Step) :
    let high := (start cells).run s steps
    let low := (start cells).run s ((start cells).inPlace s steps)
    low = high.hooked ∧ ∃ p, high.Casts s st p ∧
      StandsIn p (high.outlast st) (low.step s (st.hooked s high)) (high.step s st) := by
  intro high low
  have hr : Reaches s (fun _ => True) (.start cells) (start cells) [] := .start
  have hs := settled_start cells
  obtain ⟨es, hr'⟩ := hr.run hs steps fun _ _ => trivial
  have hs' : high.settled = true := settled_run hs steps
  have hlow : low = high.hooked := hr.hooked_run hs steps
  refine ⟨hlow, _, casts_begin hr'.standing st, ?_⟩
  rw [hlow, hr'.hooked_step hs' st trivial]
  exact (hr'.voices_step hs' trivial).standsIn (hr'.stacks_step hs' trivial)

end Machine
end OnceInit

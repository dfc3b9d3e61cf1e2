import OnceInit.Proofs.Standing
import OnceInit.Proofs.Stretches

/-! The log as an account of what has been done to the guards. A thread notes what it has written in the turn of the
write, so that the notes of all threads tell the phase of every cell, also where the thread fails right after it. -/

namespace OnceInit

/-- The phase of `g` by the log, which was `p` before the event. The token of each thread `t` is `tok t`, and `named`
says whether claims of `g` name their owner. -/
def Event.recounts (tok : ThreadId → Token) (named : Bool) (g : GuardId) (p : Phase) : Event → Phase
  | .log t (.granted d _) => if d = g then .underWay (if named then .takenBy (tok t) else .taken) else p
  | .log _ (.released d) => if d = g then .complete else p
  | .log _ (.aborted d) => if d = g then .untouched else p
  | _ => p

inductive Task.Tells (m : Machine) (k : Task) (m₁ : Machine) : Next → Prop
  | goes {p : Point} (cells : m₁.cells = m.cells) (hp : p ≠ .waiting) : Tells m k m₁ (.go p)
  | ends {x : Outcome} (cells : m₁.cells = m.cells) : Tells m k m₁ (.finish x)
  | waits (cells : m₁.cells = m.cells) : Tells m k m₁ (.tell (.waiting k.guard) .waiting)
  | claims {me : Token} (hp : k.point = .claiming me)
      (cells : m₁.cells = put m.cells k.guard (k.scheme.claimed (m.cells k.guard).width me)) :
      Tells m k m₁ (.tell (.granted k.guard k.scheme) (.leaving (.granted true)))
  | stores (hp : k.point = .storing)
      (cells : m₁.cells = put m.cells k.guard (k.stored (m.cells k.guard).width)) :
      Tells m k m₁ (.tell k.storedNote (.leaving .done))

/-- What the log tells after the history `h`, in a process that began with `cells`. -/
structure Machine.Logged (s : Setup) (sch : GuardId → Scheme) (cells : GuardId → Cell) (m : Machine)
    (h : List Event) : Prop where
  phases : ∀ g, h.foldl (Event.recounts (m.token s) ((sch g).noticesOwner (cells g).width) g)
    ((sch g).phaseOf (cells g)) = (sch g).phaseOf (m.cells g)
  even : ∀ x, .stretch x ∈ Event.stretches h → x.Even
  cut : m.running = none → ∀ es, Event.stretches (h ++ es) = Event.stretches h ++ Event.stretches es
  fatal : ∀ op kind, (∃ t, .log t (.fatal op kind) ∈ h) ↔ ∃ f, m.fate = some f ∧ f.op = op ∧ f.kind = kind
  error : (∃ t n, .log t n ∈ h ∧ n.level = "ERROR") ↔ m.fate ≠ none
  last : ∀ a t n b, n.level = "ERROR" → h = a ++ .log t n :: b → b = [.answer t .terminated]

theorem Next.notes_of_doom {s : Setup} {t : ThreadId} {k : Task} {n : Next} {f : Failure} (hd : n.doom k = some f) :
    n.notes s t k = s.log t (.fatal f.op f.kind) ++ [.answer t .terminated] := by
  cases n with
  | go | tell => cases hd
  | finish x =>
    cases x with
    | gives v => cases hd
    | fails f' =>
      by_cases hh : k.purpose.hearsFailures = true
      · simp [Next.doom, hh] at hd
      · obtain rfl : f' = f := by simpa [Next.doom, hh] using hd
        exact if_neg hh

theorem Next.not_fatal {s : Setup} {t u : ThreadId} {k : Task} {x : Outcome} {op : Op} {kind : Kind}
    (hd : (Next.finish x).doom k = none) : .log u (.fatal op kind) ∉ (Next.finish x).notes s t k := by
  cases x with
  | gives v => simp [Next.notes]
  | fails f =>
    have hh : k.purpose.hearsFailures = true := by simpa [Next.doom] using hd
    simp [Next.notes, hh]

theorem Task.next_of_take {k : Task} {w : Bool} {n : Next} (hn : k.node = .take w n) : n = k.entered := by
  unfold node at hn
  cases hp : k.point <;> simp only [hp, Node.take.injEq, reduceCtorEq] at hn <;> exact hn.2.symm

theorem Next.notes_finish (s : Setup) (t : ThreadId) (k : Task) (x : Outcome) :
    ∃ ns a, (Next.finish x).notes s t k = ns ++ [.answer t a] ∧
      ∀ e ∈ ns, ∃ f : Failure, e = .log t (.fatal f.op f.kind) := by
  cases x with
  | gives v => exact ⟨[], _, rfl, by simp⟩
  | fails f =>
    simp only [Next.notes]
    split
    · exact ⟨[], _, rfl, by simp⟩
    · exact ⟨_, _, rfl, fun e he => ⟨f, eq_of_mem_log he⟩⟩

namespace Machine

variable {s : Setup} {sch : GuardId → Scheme} {ok : OnceInit.Step → Prop} {cells : GuardId → Cell}
  {m m₁ : Machine} {h es : List Event} {t u : ThreadId} {k : Task} {n : Next} {r : Machine × List Event}

theorem Act.tells (ha : Act s m t k m₁ es n) : k.Tells m m₁ n := by
  cases ha with
  | @refused c n f code hn =>
    obtain ⟨x, hx⟩ := Task.refused_eq hn code
    rw [hx]
    exact .ends rfl
  | lock hn =>
    cases Task.calls hn
    exact .goes rfl (by simp)
  | unlock hn =>
    cases Task.calls hn with
    | unlock =>
      split
      · exact .goes rfl (by simp)
      · exact .ends rfl
    | yield => exact .ends rfl
  | broadcast hn =>
    cases Task.calls hn
    exact .ends rfl
  | took hn =>
    rw [Task.next_of_take hn, Task.entered]
    exact .goes rfl (by split <;> simp)
  | @read f hn =>
    have hs := Task.sees hn (m.cells k.guard)
    generalize f (m.cells k.guard) = n at hs
    cases hs with
    | inspected | complete | unsure => exact .goes rfl (by simp)
  | @asked f hn =>
    obtain ⟨c, hp⟩ := Task.point_of_ask hn
    have hj := Task.judges hn hp (m.token s t)
    generalize f (m.token s t) = n at hj
    cases hj with
    | free | own => exact .goes rfl (by simp)
    | others => exact .waits rfl
  | wrote hn =>
    cases Task.writes hn with
    | claim hp => exact .claims hp rfl
    | store hp => exact .stores hp rfl

theorem Act.unsaid (ha : Act s m t k m₁ es n) : (∀ u x, .log u x ∉ es) ∧ ∀ u a, .answer u a ∉ es := by
  cases ha with
  | lock | asked => simp
  | refused | unlock | broadcast | took | read | wrote => simp

theorem unsaid_report (t : ThreadId) (k : Task) (n : Next) :
    (∀ u x, .log u x ∉ n.report t k) ∧ ∀ u a, .answer u a ∉ n.report t k := by
  cases n with
  | go | tell => simp [Next.report]
  | finish r => cases r <;> simp [Next.report]

section Recounts

variable {tok : ThreadId → Token} {named : Bool} {g : GuardId} {p : Phase}

theorem recounts_unsaid (hn : ∀ u x, .log u x ∉ es) : es.foldl (Event.recounts tok named g) p = p := by
  refine List.foldlRecOn (motive := (· = p)) es _ rfl fun q hq e he => ?_
  unfold Event.recounts
  split
  · exact absurd he (hn _ _)
  · exact absurd he (hn _ _)
  · exact absurd he (hn _ _)
  · exact hq

theorem recounts_news (hl : s.build.tracing = true) (hs : ∀ u x, .log u x ∉ es) :
    (es ++ (n.report t k ++ n.notes s t k)).foldl (Event.recounts tok named g) p =
      match n with
      | .tell x _ => Event.recounts tok named g p (.log t x)
      | _ => p := by
  rw [List.foldl_append, List.foldl_append, recounts_unsaid hs, recounts_unsaid (unsaid_report t k n).1]
  cases n with
  | go => rfl
  | tell x q => simp [Next.notes, Setup.log, hl]
  | finish r =>
    cases r with
    | gives v => rfl
    | fails f =>
      simp only [Next.notes, Setup.log, hl]
      split <;> rfl

theorem Played.recounts (hp : Played s m t k r) (hl : s.build.tracing = true) (hs : k.scheme = sch k.guard)
    (hf : k.Fits (m.cells k.guard) (m.tokens.known t)) (ht : ∀ me, m.tokens.known t = some me → tok t = me) :
    r.2.foldl (Event.recounts tok ((sch g).noticesOwner (m.cells g).width) g) ((sch g).phaseOf (m.cells g)) =
      (sch g).phaseOf (r.1.cells g) := by
  cases hp with
  | slept | parked => rfl
  | @act m₁ es n ha =>
    rw [recounts_news hl ha.unsaid.1]
    cases ha.tells with
    | goes cells | ends cells | waits cells => exact (congrArg (fun c => (sch g).phaseOf (c g)) cells).symm
    | @claims me hp cells =>
      simp only [Task.Fits, hp] at hf
      change ite _ _ _ = (sch g).phaseOf (m₁.cells g)
      by_cases hg : k.guard = g
      · subst hg
        rw [if_pos rfl, cells, put_same, hs, Scheme.phaseOf_claimed, ht me hf.2.1]
      · rw [if_neg hg, cells, put_of_ne _ _ (Ne.symm hg)]
    | stores hp cells =>
      have hn : Event.recounts tok ((sch g).noticesOwner (m.cells g).width) g ((sch g).phaseOf (m.cells g))
          (.log t k.storedNote) =
            if k.guard = g then (if k.op = .release then .complete else .untouched)
              else (sch g).phaseOf (m.cells g) := by
        unfold Task.storedNote
        split <;> rfl
      change Event.recounts .. = (sch g).phaseOf (m₁.cells g)
      by_cases hg : k.guard = g
      · subst hg
        rw [hn, if_pos rfl, cells, put_same, Task.phaseOf_stored]
      · rw [hn, if_neg hg, cells, put_of_ne _ _ (Ne.symm hg)]

end Recounts

theorem Played.known_mono {me : Token} (hp : Played s m t k r) (hu : m.tokens.known u = some me) :
    r.1.tokens.known u = some me := by
  cases hp with
  | slept | parked => exact hu
  | act ha =>
    cases ha with
    | refused | lock | unlock | broadcast | took | read | wrote => exact hu
    | asked =>
      change (m.tokens.ask t (s.systemId t)).2.known u = some me
      by_cases hut : u = t
      · subst hut
        rw [Registry.ask_known hu, hu]
      · rw [Registry.known_ask_of_ne _ hut, hu]

theorem begin_unsaid (st : OnceInit.Step) (u : ThreadId) (x : Note) : .log u x ∉ (m.begin s st).2 := by
  have ho := onset s m st
  generalize m.begin s st = r at ho ⊢
  cases ho <;> simp [launch, emit]

theorem begin_kept {st : OnceInit.Step} (hd : st.Drives s sch fun _ _ => True) :
    (m.begin s st).1.cells = m.cells ∧ (m.begin s st).1.tokens = m.tokens := by
  have ho := onset s m st
  generalize m.begin s st = r at ho ⊢
  cases ho with
  | poked => exact hd.elim
  | armed | freed | skipped | declined | woken | launched | closed => exact ⟨rfl, rfl⟩

theorem Reaches.recounted (hr : Reaches s (Step.Drives s sch fun _ _ => True) (.start cells) m h)
    (hl : s.build.tracing = true) {tok : ThreadId → Token} (ht : ∀ t me, m.tokens.known t = some me → tok t = me)
    (g : GuardId) :
    h.foldl (Event.recounts tok ((sch g).noticesOwner (cells g).width) g) ((sch g).phaseOf (cells g)) =
      (sch g).phaseOf (m.cells g) := by
  -- by induction with one `tok` for the whole run: a thread whose token is known keeps it
  induction hr with
  | start => rfl
  | @begin m h st _ _ _ hd ih =>
    obtain ⟨hc, hk⟩ := begin_kept (m := m) hd
    rw [List.foldl_append, ih (hk ▸ ht), recounts_unsaid (begin_unsaid st), hc]
  | @turn m h hr hu ih =>
    obtain ⟨-, ⟨t, k, hrun, hk, hp⟩ | ⟨t, rest, -, -, he⟩⟩ := hr.seated.turn_cases (s := s) hu
    · rw [List.foldl_append, ih fun u me hm => ht u me (hp.known_mono hm), ← hr.keeps.path.width g]
      obtain ⟨hs, hf⟩ := hr.keeps.path.sound.fits t k hk
      exact hp.recounts hl hs hf fun me hm => ht t me (hp.known_mono hm)
    · rw [he] at ht ⊢
      rw [List.append_nil, ih ht]

def owes (m : Machine) : Bool := m.running.any fun t => (m.tasks t).any fun k => k.point = .waiting

structure Tallied (m : Machine) (h : List Event) : Prop where
  tally : h.countP Event.notesWaiting = h.countP Event.callsWait + m.owes.toNat
  even : Each Event.Even h
  answered : m.running = none → Event.Answered h

theorem owes_of_task (hr : m.running = some t) (hk : m.tasks t = some k) : m.owes = decide (k.point = .waiting) := by
  rw [owes, hr, Option.any_some, hk, Option.any_some]

theorem owes_of_idle (hr : m.running = none) : m.owes = false := by
  rw [owes, hr, Option.any_none]

theorem Act.countP_callsWait (ha : Act s m t k m₁ es n) :
    es.countP Event.callsWait = (decide (k.point = .waiting)).toNat := by
  cases ha with
  | refused hn =>
    cases Task.calls hn with
    | lock hp | wait hp | unlock hp | yield hp | broadcast hp => rw [hp]; rfl
  | lock hn => cases Task.calls hn with | lock hp => rw [hp]; rfl
  | unlock hn =>
    cases Task.calls hn with
    | unlock hp | yield hp => rw [hp]; rfl
  | broadcast hn => cases Task.calls hn with | broadcast hp => rw [hp]; rfl
  | @took w _ hn =>
    rcases (Task.after_take hn).1 with hp | hp <;> rw [hp] <;> cases w <;> rfl
  | read hn => rw [Task.point_of_read hn]; rfl
  | asked hn =>
    obtain ⟨c, hp⟩ := Task.point_of_ask hn
    rw [hp]; rfl
  | wrote hn =>
    cases Task.writes hn with
    | claim hp | store hp => rw [hp]; rfl

theorem countP_notesWaiting_unsaid (hn : ∀ u x, .log u x ∉ es) : es.countP Event.notesWaiting = 0 := by
  refine List.countP_eq_zero.mpr fun e he => ?_
  cases e with
  | log u x => exact absurd he (hn u x)
  | began | ended | call | read | write | opened | closed | answer | skip => exact Bool.false_ne_true

theorem countP_callsWait_news (t : ThreadId) (k : Task) (n : Next) :
    (n.report t k ++ n.notes s t k).countP Event.callsWait = 0 := by
  refine List.countP_eq_zero.mpr fun e he => ?_
  cases e with
  | call u x => exact absurd he (call_not_mem_news n u x)
  | began | ended | log | read | write | opened | closed | answer | skip => exact Bool.false_ne_true

theorem countP_notesWaiting (ht : k.Tells m m₁ n) (hl : s.build.tracing = true) :
    (n.notes s t k).countP Event.notesWaiting = (m₁.advance t k n).owes.toNat := by
  have howes : (m₁.advance t k n).owes = (n.after k).any fun k => k.point = .waiting := by
    cases hn : n.after k <;> simp [owes, advance, hn]
  rw [howes]
  cases ht with
  | goes _ hp => simp [Next.notes, Next.after, hp]
  | @ends x =>
    cases x with
    | gives v => rfl
    | fails f =>
      simp only [Next.notes, Setup.log, hl]
      split <;> rfl
  | waits | claims => simp [Next.notes, Next.after, Setup.log, hl, Event.notesWaiting, Note.isWaiting]
  | stores =>
    simp only [Next.notes, Next.after, Setup.log, hl, Task.storedNote, ↓reduceIte]
    split <;> rfl

theorem even_append (hq : Each Event.Even h) (hn : ∀ u a, .answer u a ∉ es) : Each Event.Even (h ++ es) := by
  refine hq.append fun e he a => ?_
  cases e with
  | answer u x => exact absurd he (hn u x)
  | began | ended | log | read | write | opened | closed | call | skip => trivial

theorem Tallied.act (hm : m.Tallied h) (hr : m.running = some t) (hk : m.tasks t = some k)
    (hl : s.build.tracing = true) (ha : Act s m t k m₁ es n) :
    (m₁.advance t k n).Tallied (h ++ (es ++ (n.report t k ++ n.notes s t k))) := by
  have hes := ha.unsaid
  have hrep := unsaid_report t k n
  have htally := hm.tally
  rw [owes_of_task hr hk, ← ha.countP_callsWait] at htally
  have hnews := countP_callsWait_news (s := s) t k n
  have hnotes := countP_notesWaiting (t := t) ha.tells hl
  have h₁ := countP_notesWaiting_unsaid hes.1
  have h₂ := countP_notesWaiting_unsaid hrep.1
  have before : Each Event.Even (h ++ (es ++ n.report t k)) :=
    even_append hm.even fun u a he => (List.mem_append.mp he).elim (hes.2 u a) (hrep.2 u a)
  have htotal : (h ++ (es ++ (n.report t k ++ n.notes s t k))).countP Event.notesWaiting =
      (h ++ (es ++ (n.report t k ++ n.notes s t k))).countP Event.callsWait + (m₁.advance t k n).owes.toNat := by
    simp only [List.countP_append] at hnews ⊢
    omega
  cases n with
  | go p => exact ⟨htotal, by simpa [Next.notes] using before, fun hi => absurd hi (Option.some_ne_none t)⟩
  | tell x p =>
    refine ⟨htotal, ?_, fun hi => absurd hi (Option.some_ne_none t)⟩
    have hlog : Each Event.Even (h ++ (es ++ (Next.tell x p).report t k) ++ s.log t x) :=
      even_append before fun u a he => by cases eq_of_mem_log he
    simpa [Next.notes] using hlog
  | finish x =>
    obtain ⟨ns, a, hns, hfatal⟩ := Next.notes_finish s t k x
    have hsplit : h ++ (es ++ ((Next.finish x).report t k ++ (Next.finish x).notes s t k)) =
        (h ++ (es ++ (Next.finish x).report t k) ++ ns) ++ [.answer t a] := by
      simp [hns]
    refine ⟨htotal, ?_, fun _ => by rw [hsplit]; exact Event.answered_concat ..⟩
    have hpre : Each Event.Even (h ++ (es ++ (Next.finish x).report t k) ++ ns) :=
      even_append before fun u a he => by
        obtain ⟨f, hf⟩ := hfatal _ he
        cases hf
    rw [hsplit] at htotal ⊢
    refine each_concat.mpr ⟨hpre, ?_⟩
    simpa [Event.Even, List.countP_append, List.countP_singleton, Event.notesWaiting, Event.callsWait,
      owes_of_idle (m := m₁.advance t k (.finish x)) rfl] using htotal

theorem Tallied.pause {m' : Machine} {x : Mark} {a : Answer} (hm : m.Tallied h) (ho : m.owes = x.isWait)
    (hr : m'.running = none) : m'.Tallied (h ++ [.call t x, .answer t a]) := by
  have htally := hm.tally
  rw [ho] at htally
  have hx : [Event.call t x, .answer t a].countP Event.callsWait = x.isWait.toNat := by
    cases hw : x.isWait <;> simp [Event.callsWait, hw]
  refine ⟨?_, ?_, fun _ => by rw [List.append_cons]; exact Event.answered_concat ..⟩
  · rw [List.countP_append, List.countP_append, owes_of_idle hr, htally, hx]
    rfl
  · refine each_append.mpr ⟨hm.even, each_cons.mpr ⟨trivial, each_cons.mpr ⟨?_, each_nil⟩⟩⟩
    change (h ++ [Event.call t x]).countP Event.notesWaiting = (h ++ [Event.call t x]).countP Event.callsWait
    rw [List.countP_append, List.countP_append, htally]
    cases hw : x.isWait <;> simp [Event.callsWait, Event.notesWaiting, hw]

theorem Tallied.played (hm : m.Tallied h) (hr : m.running = some t) (hk : m.tasks t = some k)
    (hl : s.build.tracing = true) (hp : Played s m t k r) : r.1.Tallied (h ++ r.2) := by
  have ho := owes_of_task hr hk
  cases hp with
  | act ha => exact hm.act hr hk hl ha
  | slept hn =>
    cases Task.calls hn with
    | wait hp => exact hm.pause (by rw [ho, hp]; rfl) rfl
  | parked hn =>
    refine hm.pause ?_ rfl
    rcases (Task.after_take hn).1 with hp | hp <;> rw [ho, hp] <;> rfl

theorem Tallied.still {m' : Machine} (hm : m.Tallied h) (ho : m'.owes = m.owes) (hn : ∀ e ∈ es, e.Silent)
    (hr : m'.running = none → m.running = none) : m'.Tallied (h ++ es) where
  tally := by
    have h₁ : es.countP Event.notesWaiting = 0 := List.countP_eq_zero.mpr fun e he => by simp [(hn e he).counts]
    have h₂ : es.countP Event.callsWait = 0 := List.countP_eq_zero.mpr fun e he => by simp [(hn e he).counts]
    rw [List.countP_append, List.countP_append, ho, hm.tally, h₁, h₂]
    rfl
  even := hm.even.append fun e he => (hn e he).even
  answered := fun hi => (hm.answered (hr hi)).append (List.foldlRecOn (motive := (· = _)) es _ rfl fun _ hp e he =>
    (hn e he _).trans hp)

theorem Tallied.resumed {m' : Machine} (hm : m.Tallied h) (hr : m.running = none) (ho : m'.owes = false)
    (hr' : m'.running = some t) (hn : ∀ e ∈ es, e.Silent) : m'.Tallied (h ++ es) :=
  hm.still (ho.trans (owes_of_idle hr).symm) hn fun hi => absurd (hr'.symm.trans hi) (Option.some_ne_none t)

theorem Seated.owes_of_resumed (m' : Machine) (hs : m.Seated) (hr : m.running = none) (ht : t ∈ m.seats)
    (hr' : m'.running = some t) (hk' : m'.tasks = m.tasks) : m'.owes = false := by
  obtain ⟨k, hk⟩ := Option.isSome_iff_exists.mp ((hs.busy t).mp ht)
  rw [owes_of_task hr' (hk' ▸ hk)]
  rcases hs.parked t k hk (by simp [hr]) with hp | hp <;> rw [hp] <;> rfl

theorem Tallied.begin (hm : m.Tallied h) (hs : m.Seated) (hr : m.running = none) (st : OnceInit.Step) :
    (m.begin s st).1.Tallied (h ++ (m.begin s st).2) := by
  have ho := onset s m st
  generalize m.begin s st = r at ho ⊢
  cases ho with
  | armed | poked | freed => exact hm.still rfl (by simp) id
  | skipped => exact hm.still rfl (by simp [Event.Silent, Event.pending]) id
  | @declined _ t a =>
    refine ⟨?_, each_concat.mpr ⟨hm.even, ?_⟩, fun _ => Event.answered_concat ..⟩
    · simpa [List.countP_append, Event.notesWaiting, Event.callsWait] using hm.tally
    · simpa [Event.Even, owes_of_idle hr] using hm.tally
  | @woken t ht =>
    have ho := hs.owes_of_resumed { m with running := some t, sleepers := m.sleepers.erase t } hr
      (by simp [seats, ht]) rfl rfl
    exact hm.resumed hr ho rfl (by simp)
  | launched _ _ hk =>
    refine hm.resumed hr ?_ rfl (by simp [launch, Event.Silent, Event.pending])
    rw [owes_of_task (m := (m.launch _ _).1) rfl (put_same ..), GuardKind.task?_eq hk]
    rfl
  | closed =>
    refine hm.resumed hr ?_ rfl (by simp [launch, emit, Event.Silent, Event.pending])
    rw [owes_of_task (m := (emit _ (launch _ _ _)).1) rfl (put_same ..)]
    rfl

theorem Reaches.tallied (hr : Reaches s ok (.start cells) m h) (hl : s.build.tracing = true) : m.Tallied h := by
  induction hr with
  | start => exact ⟨rfl, each_nil, fun _ => Event.answered_nil⟩
  | begin st hr hs ha _ ih => exact ih.begin hr.seated (idle_of_settled hs ha).1 st
  | @turn m h hr hu ih =>
    obtain ⟨-, ⟨t, k, hrun, hk, hp⟩ | ⟨t, rest, hrun, hq, he⟩⟩ := hr.seated.turn_cases (s := s) hu
    · exact ih.played hrun hk hl hp
    · rw [he]
      have ho := hr.seated.owes_of_resumed { m with running := some t, ready := rest } hrun
        (by simp [seats, hq]) rfl rfl
      exact ih.resumed hrun ho rfl (by simp)

inductive Sealed (m : Machine) : List Event → Prop
  | alive {h : List Event} (fate : m.fate = none) (quiet : ∀ t op kind, .log t (.fatal op kind) ∉ h) : Sealed m h
  | ended {h : List Event} {t : ThreadId} {f : Failure} (fate : m.fate = some f)
      (quiet : ∀ t op kind, .log t (.fatal op kind) ∉ h) :
      Sealed m (h ++ [.log t (.fatal f.op f.kind), .answer t .terminated])

theorem Act.sealed (ha : Act s m t k m₁ es n) (hl : s.build.tracing = true) (hf : m.fate = none)
    (hq : ∀ t op kind, .log t (.fatal op kind) ∉ h) :
    (m₁.advance t k n).Sealed (h ++ (es ++ (n.report t k ++ n.notes s t k))) := by
  have hfate : (m₁.advance t k n).fate = n.doom k := by
    rw [advance, ha.frame.2.2.2.1, hf, Option.or_none]
  have quiet : ∀ u op kind, .log u (.fatal op kind) ∉ h ++ (es ++ n.report t k) := by
    intro u op kind he
    rcases List.mem_append.mp he with he | he
    · exact hq u op kind he
    · exact (List.mem_append.mp he).elim (ha.unsaid.1 u _) ((unsaid_report t k n).1 u _)
  rw [← List.append_assoc es, ← List.append_assoc h]
  by_cases hd : n.doom k = none
  · refine .alive (hfate.trans hd) fun u op kind he => ?_
    refine (List.mem_append.mp he).elim (quiet u op kind) fun he => ?_
    cases ha.tells with
    | goes => cases he
    | waits | claims => cases eq_of_mem_log he
    | stores =>
      have hx := eq_of_mem_log he
      simp only [Task.storedNote] at hx
      split at hx <;> cases hx
    | ends => exact Next.not_fatal hd he
  · obtain ⟨f, hd⟩ := Option.ne_none_iff_exists'.mp hd
    rw [Next.notes_of_doom hd, Setup.log, if_pos hl]
    exact .ended (hfate.trans hd) quiet

theorem Reaches.sealed (hr : Reaches s ok (.start cells) m h) (hl : s.build.tracing = true) : m.Sealed h := by
  induction hr with
  | start => exact .alive rfl (by simp)
  | @begin m h st _ _ hf _ ih =>
    cases ih with
    | ended fate => cases hf.symm.trans fate
    | alive _ quiet =>
      refine .alive ((fate_begin st).trans hf) fun u op kind he => ?_
      exact (List.mem_append.mp he).elim (quiet u op kind) (begin_unsaid st u _)
  | @turn m h hr hu ih =>
    obtain ⟨hf, ⟨t, k, hrun, hk, hp⟩ | ⟨t, rest, hrun, hq, he⟩⟩ := hr.seated.turn_cases (s := s) hu
    · cases ih with
      | ended fate => cases hf.symm.trans fate
      | alive _ quiet =>
        generalize m.turn s = r at hp ⊢
        cases hp with
        | act ha => exact ha.sealed hl hf quiet
        | slept | parked => exact .alive hf (by simpa [park] using quiet)
    · rw [he, List.append_nil]
      cases ih with
      | ended fate => cases hf.symm.trans fate
      | alive _ quiet => exact .alive hf quiet

theorem Sealed.fatal_iff (hs : m.Sealed h) (op : Op) (kind : Kind) :
    (∃ t, .log t (.fatal op kind) ∈ h) ↔ ∃ f, m.fate = some f ∧ f.op = op ∧ f.kind = kind := by
  cases hs with
  | alive fate quiet =>
    rw [fate]
    exact iff_of_false (fun ⟨t, ht⟩ => quiet t op kind ht) nofun
  | @ended h t f fate quiet =>
    rw [fate]
    constructor
    · rintro ⟨u, hu⟩
      cases List.mem_cons.mp ((List.mem_append.mp hu).resolve_left (quiet u op kind)) with
      | inl he =>
        cases he
        exact ⟨f, rfl, rfl, rfl⟩
      | inr he => cases List.mem_singleton.mp he
    · rintro ⟨f, ⟨⟩, rfl, rfl⟩
      exact ⟨t, by simp⟩

theorem Sealed.error_iff (hs : m.Sealed h) : (∃ t n, .log t n ∈ h ∧ n.level = "ERROR") ↔ m.fate ≠ none := by
  constructor
  · rintro ⟨t, n, hn, hl⟩
    obtain ⟨op, kind, rfl⟩ := Note.level_eq_error_iff.mp hl
    obtain ⟨f, hf, -⟩ := (hs.fatal_iff op kind).mp ⟨t, hn⟩
    simp [hf]
  · intro hf
    obtain ⟨f, hf⟩ := Option.ne_none_iff_exists'.mp hf
    obtain ⟨t, ht⟩ := (hs.fatal_iff f.op f.kind).mpr ⟨f, hf, rfl, rfl⟩
    exact ⟨t, _, ht, rfl⟩

theorem Sealed.last (hs : m.Sealed h) {a b : List Event} {x : Note} (hx : x.level = "ERROR")
    (he : h = a ++ .log t x :: b) : b = [.answer t .terminated] := by
  obtain ⟨op, kind, rfl⟩ := Note.level_eq_error_iff.mp hx
  cases hs with
  | alive _ quiet => exact absurd (he ▸ by simp) (quiet t op kind)
  | @ended h u f _ quiet =>
    obtain ⟨b, rfl, -⟩ | ⟨c, -, hc⟩ := split_append he
    · exact absurd (by simp) (quiet t op kind)
    · match c, hc with
      | [], hc => cases hc; rfl
      | [_], hc => cases hc
      | _ :: _ :: _ :: _, hc => cases hc

end Machine
end OnceInit

import OnceInit.Proofs.Holding
import Mathlib.Data.List.DropRight

/-! Waiting for a guard. A thread goes to sleep only over a cell that is under way, and such a cell is let go only by
a write of a release or an abort. From that write on a broadcast is owed, and it stays owed until it is made or
the operation fails. -/

namespace OnceInit

def sinceSlept (t : ThreadId) (h : List Event) : List Event :=
  h.rtakeWhile fun e => e ≠ .call t .slept

/-- A release or an abort has written `g`, and its thread has made no broadcast after that. -/
def Unannounced (g : GuardId) (h : List Event) : Prop :=
  ∃ a u op c b, h = a ++ .write u op g c :: b ∧ op.settles = true ∧ .call u .announced ∉ b

/-- A release or an abort has written `g` and then failed, because its unlock or its broadcast was refused. -/
def Botched (g : GuardId) (h : List Event) : Prop :=
  ∃ a u op c x call code f y,
    h = a ++ .write u op g c :: (x ++ .ended u op g (.fails f) :: y) ∧
      op.settles = true ∧ f = .ofCall op call code ∧
      (call = .unlock ∧ f.kind = .unlockFailed ∨ call = .broadcast ∧ f.kind = .broadcastFailed) ∧
      .call u (.refused call code) ∈ x ∧ ∀ o d, .began u o d ∉ x

def Deed.Tells (t : ThreadId) (d : Deed) : Event → Prop
  | .call u .slept => u = t ∧ d = .called .wait
  | .call u .announced => u = t ∧ d = .called .broadcast
  | .call u (.refused c _) => u = t ∧ d = .refused c
  | .began u _ _ => u = t
  | .ended u .. => u = t
  | .write u .. => u = t ∧ d = .wrote
  | _ => True

def Point.late : Point → Bool
  | .leaving .done | .announcing => true
  | _ => false

section History

variable {h es : List Event} {t : ThreadId} {g : GuardId}

theorem sinceSlept_append (hs : .call t .slept ∉ es) :
    sinceSlept t (h ++ es) = sinceSlept t h ++ es := by
  induction es generalizing h with
  | nil => simp
  | cons e es ih =>
    rw [List.mem_cons, not_or] at hs
    have he : sinceSlept t (h ++ [e]) = sinceSlept t h ++ [e] :=
      List.rtakeWhile_concat_pos _ _ _ (decide_eq_true (Ne.symm hs.1))
    rw [List.append_cons, ih hs.2, he, List.append_assoc, List.singleton_append]

theorem Unannounced.append (hu : Unannounced g h) (hs : ∀ u, .call u .announced ∉ es) :
    Unannounced g (h ++ es) := by
  obtain ⟨a, u, op, c, b, rfl, ho, hb⟩ := hu
  refine ⟨a, u, op, c, b ++ es, by simp, ho, ?_⟩
  rw [List.mem_append, not_or]
  exact ⟨hb, hs u⟩

theorem split_append {α : Type} {a b xs ys : List α} {e : α} (hs : xs ++ ys = a ++ e :: b) :
    (∃ b₀, xs = a ++ e :: b₀ ∧ b = b₀ ++ ys) ∨ ∃ a₁, a = xs ++ a₁ ∧ ys = a₁ ++ e :: b := by
  rcases List.append_eq_append_iff.mp hs with ⟨a₁, rfl, rfl⟩ | ⟨c, rfl, hc⟩
  · exact .inr ⟨a₁, rfl, rfl⟩
  · cases c with
    | nil => exact .inr ⟨[], by simp, by simpa using hc.symm⟩
    | cons x c =>
      obtain ⟨rfl, rfl⟩ := List.cons.inj hc
      exact .inl ⟨c, rfl, rfl⟩

end History

namespace Ledger

variable {cells : GuardId → Cell} {sch : GuardId → Scheme} {ok : Deed → Prop}
  {l l' : Ledger} {t u : ThreadId} {d : Deed}

structure Asleep (sch : GuardId → Scheme) (l : Ledger) (t : ThreadId) (k : Task) (me : Token) :
    Prop where
  task : l.tasks t = some k
  acquires : k.op = .acquire
  waking : k.point = .waking
  known : l.known t = some me
  watched : (∃ c, (sch k.guard).phaseOf (l.cells k.guard) = .underWay c ∧ c ≠ .takenBy me) ∨
    Unannounced k.guard (sinceSlept t l.past)

theorem Step.tasks_of_asleep (hs : l.Step sch t d l') (hu : u ∈ l.sleepers)
    (hk : (l.tasks u).isSome) : l'.tasks u = l.tasks u := by
  by_cases he : u = t
  · subst he
    cases hs with
    | note | wake => rfl
    | begin _ _ _ free => simp [free] at hk
    | close _ free => simp [free] at hk
    | called _ awake => exact absurd hu awake
    | refused _ _ awake => exact absurd hu awake
    | took _ awake => exact absurd hu awake
    | read _ awake => exact absurd hu awake
    | asked _ _ awake => exact absurd hu awake
    | wrote _ awake => exact absurd hu awake
  · exact hs.tasks_of_ne he

theorem tells_report (k : Task) (n : Next) : ∀ e ∈ n.report t k, d.Tells t e := by
  intro e he
  cases n with
  | go | tell => cases he
  | finish r =>
    cases r with
    | gives v =>
      rcases List.mem_cons.mp he with rfl | he
      · trivial
      · obtain ⟨f, -, rfl⟩ := List.mem_map.mp he
        trivial
    | fails f =>
      rw [List.mem_singleton.mp he]
      trivial

theorem tells_advance {es : List Event} (k : Task) (n : Next) (hes : ∀ e ∈ es, d.Tells t e) :
    ∀ e ∈ es ++ n.report t k, d.Tells t e := by
  intro e he
  rcases List.mem_append.mp he with he | he
  · exact hes e he
  · exact tells_report k n e he

theorem tells_note {e : Event} (hn : e.isNote = true) : d.Tells t e := by
  unfold Event.isNote at hn
  split at hn <;> trivial

theorem tells_marks (c : Call) : ∀ e ∈ c.marks t, (Deed.called c).Tells t e := by
  cases c <;> simp [Call.marks, Deed.Tells]

theorem Step.news (hs : l.Step sch t d l') :
    ∃ es, l'.past = l.past ++ es ∧ ∀ e ∈ es, d.Tells t e := by
  cases hs with
  | note hn => exact ⟨_, rfl, by simpa using tells_note hn⟩
  | begin => exact ⟨_, rfl, by simp [Deed.Tells]⟩
  | close => exact ⟨_, List.append_assoc .., by simp [Deed.Tells]⟩
  | wake => exact ⟨[], (List.append_nil _).symm, by simp⟩
  | called => exact ⟨_, rfl, tells_advance _ _ (tells_marks _)⟩
  | refused => exact ⟨_, rfl, tells_advance _ _ (by simp [Deed.Tells])⟩
  | @took k w n => exact ⟨_, rfl, tells_advance _ _ (by cases w <;> simp [Deed.Tells])⟩
  | read => exact ⟨_, rfl, tells_advance _ _ (by simp [Deed.Tells])⟩
  | asked => exact ⟨_, rfl, tells_advance _ _ (by simp)⟩
  | wrote => exact ⟨_, rfl, tells_advance _ _ (by simp [Deed.Tells])⟩

theorem Step.cells_of_underWay (hs : l.Step sch t d l') (hl : l.Sound sch) {g : GuardId} {c : Claim}
    (hc : (sch g).phaseOf (l.cells g) = .underWay c) :
    l'.cells g = l.cells g ∨
      ∃ op x, op.settles = true ∧ l'.past = l.past ++ [.write t op g x] := by
  cases hs with
  | note | begin | close | wake | called | refused | took | read | asked => exact .inl rfl
  | @wrote k new n hk _ hn =>
    by_cases hg : g = k.guard
    · subst hg
      obtain ⟨hq, hf⟩ := hl.fits t k hk
      cases Task.writes hn with
      | claim hp =>
        simp only [Task.Fits, hp] at hf
        rw [← hq, hf.2.2] at hc
        cases hc
      | store hp =>
        simp only [Task.Fits, hp] at hf
        exact .inr ⟨k.op, _, hf, past_write _ hn⟩
    · exact .inl (put_of_ne _ _ hg)

theorem Asleep.step {k : Task} {me : Token} (ha : l.Asleep sch u k me) (hu : u ∈ l.sleepers)
    (hl : l.Sound sch) (hs : l.Step sch t d l') (hd : d ≠ .called .broadcast)
    (hn : d = .called .wait → u ≠ t) : l'.Asleep sch u k me := by
  obtain ⟨es, hp, ht⟩ := hs.news
  have hq : .call u .slept ∉ es := fun he => hn (ht _ he).2 (ht _ he).1
  have hb : ∀ v, .call v .announced ∉ es := fun v he => hd (ht _ he).2
  refine ⟨?_, ha.acquires, ha.waking, hs.known_mono ha.known, ?_⟩
  · rw [hs.tasks_of_asleep hu (by simp [ha.task]), ha.task]
  · rw [hp, sinceSlept_append hq]
    rcases ha.watched with ⟨c, hc, hm⟩ | hw
    · rcases hs.cells_of_underWay hl hc with he | ⟨op, x, ho, hx⟩
      · exact .inl ⟨c, by rw [he, hc], hm⟩
      · rw [hp] at hx
        rw [List.append_cancel_left hx]
        exact .inr ⟨_, t, op, x, [], rfl, ho, by simp⟩
    · exact .inr (hw.append hb)

def Watched (sch : GuardId → Scheme) (l : Ledger) : Prop :=
  ∀ t ∈ l.sleepers, ∃ k me, l.Asleep sch t k me

theorem asleep_of_wait {k : Task} {n : Next} {r : Int → Next} (hl : l.Sound sch)
    (hk : l.tasks t = some k) (hn : k.node = .call .wait n r) :
    ∃ k' me, Asleep sch { l.advance t k (Call.marks t .wait) n with
      sleepers := Call.sleepers t l.sleepers .wait } t k' me := by
  cases Task.calls hn with
  | wait hp =>
    obtain ⟨hq, hf⟩ := hl.fits t k hk
    simp only [Task.Fits, hp] at hf
    obtain ⟨ho, me, c, hme, hc, hne⟩ := hf
    exact ⟨{ k with point := .waking }, me, put_same .., ho, rfl, hme, .inl ⟨c, hq ▸ hc, hne⟩⟩

theorem Watched.step (hw : l.Watched sch) (hl : l.Sound sch) (hs : l.Step sch t d l') :
    l'.Watched sch := by
  have keep : ∀ u ∈ l.sleepers, d ≠ .called .broadcast → (d = .called .wait → u ≠ t) →
      ∃ k me, l'.Asleep sch u k me := by
    intro u hu hb hn
    obtain ⟨k, me, ha⟩ := hw u hu
    exact ⟨k, me, ha.step hu hl hs hb hn⟩
  intro u hu
  have hs' := hs
  cases hs with
  | note | begin | close | refused | took | read | asked | wrote => exact keep u hu nofun nofun
  | wake => exact keep u (List.mem_of_mem_erase hu) nofun nofun
  | @called k c n r hk awake hn =>
    cases c with
    | lock | unlock => exact keep u hu nofun nofun
    | broadcast => cases hu
    | wait =>
      rcases List.mem_append.mp hu with hu | hu
      · exact keep u hu nofun fun _ e => awake (e ▸ hu)
      · rw [List.mem_singleton.mp hu]
        exact asleep_of_wait hl hk hn

theorem Path.watched (hp : Path sch ok (start cells) l) : l.Watched sch := by
  induction hp with
  | refl => exact fun t ht => nomatch ht
  | step hp _ _ hs ih => exact ih.step hp.sound hs

def Owed (l : Ledger) (u : ThreadId) (op : Op) (g : GuardId) (b : List Event) : Prop :=
  (∃ k, l.tasks u = some k ∧ k.op = op ∧ k.guard = g ∧ k.point.late = true ∧ ∀ o d, .began u o d ∉ b) ∨
  ∃ x call code y, b = x ++ .ended u op g (.fails (.ofCall op call code)) :: y ∧
    (call = .unlock ∨ call = .broadcast) ∧ .call u (.refused call code) ∈ x ∧ ∀ o d, .began u o d ∉ x

def Accounted (l : Ledger) : Prop :=
  ∀ a u op g c b, l.past = a ++ .write u op g c :: b → op.settles = true →
    .call u .announced ∉ b → l.Owed u op g b

theorem node_of_late {k : Task} (hp : k.point.late = true) :
    ∃ c n, k.node = .call c n (k.fail c) ∧
      (c = .unlock ∧ (k.op.settles = true → n = .go .announcing) ∨ c = .broadcast) := by
  unfold Point.late at hp
  split at hp
  · next h => exact ⟨_, _, by rw [Task.node, h], .inl ⟨rfl, fun ho => if_pos ho⟩⟩
  · next h => exact ⟨_, _, by rw [Task.node, h], .inr rfl⟩
  · cases hp

theorem settles_of_late {k : Task} {c : Cell} {own : Option Token} (hf : k.Fits c own)
    (hp : k.point.late = true) : k.op.settles = true := by
  unfold Point.late at hp
  split at hp
  · next h => simp only [Task.Fits, h] at hf; exact hf.1
  · next h => simp only [Task.Fits, h] at hf; exact hf
  · cases hp

theorem late_of_write {k : Task} {c : Cell} {own : Option Token} {new : Width → Cell} {n : Next}
    (hf : k.Fits c own) (hn : k.node = .write new n) (ho : k.op.settles = true) :
    ∃ k', n.after k = some k' ∧ k'.point.late = true := by
  cases Task.writes hn with
  | claim hp =>
    simp only [Task.Fits, hp] at hf
    rw [hf.1] at ho
    cases ho
  | store => exact ⟨_, rfl, rfl⟩

theorem Step.owed {k : Task} {b es : List Event} (hs : l.Step sch t d l') (hl : l.Sound sch)
    (hk : l.tasks t = some k) (hp : k.point.late = true) (hes : l'.past = l.past ++ es)
    (hb : ∀ o d, .began t o d ∉ b) (hq : .call t .announced ∉ es) :
    l'.Owed t k.op k.guard (b ++ es) := by
  obtain ⟨c, n, hnode, hc⟩ := node_of_late hp
  have hso := settles_of_late (hl.fits t k hk).2 hp
  cases hs with
  | note hn =>
    obtain rfl := List.append_cancel_left hes
    refine .inl ⟨k, hk, rfl, rfl, hp, fun o d hm => ?_⟩
    rcases List.mem_append.mp hm with hm | hm
    · exact hb o d hm
    · rw [← List.mem_singleton.mp hm] at hn
      cases hn
  | wake =>
    obtain rfl : es = [] := by simpa using hes
    exact .inl ⟨k, hk, rfl, rfl, hp, by simpa using hb⟩
  | begin _ _ _ free => rw [hk] at free; cases free
  | close _ free => rw [hk] at free; cases free
  | called hk' _ hn =>
    cases hk.symm.trans hk'
    cases hnode.symm.trans hn
    obtain rfl := List.append_cancel_left hes
    rcases hc with ⟨rfl, hgo⟩ | rfl
    · obtain rfl := hgo hso
      refine .inl ⟨{ k with point := .announcing }, put_same .., rfl, rfl, rfl, ?_⟩
      simpa [Call.marks, Next.report] using hb
    · simp [Call.marks] at hq
  | refused code hk' _ hn =>
    cases hk.symm.trans hk'
    cases hnode.symm.trans hn
    obtain rfl := List.append_cancel_left hes
    refine .inr ⟨b ++ [.call t (.refused c code)], c, code, [], ?_, hc.imp_left And.left, by simp, ?_⟩
    · simp [Task.fail, Next.report]
    · simpa using hb
  | took hk' _ hn | read hk' _ hn | asked _ hk' _ hn | wrote hk' _ hn =>
    cases hk.symm.trans hk'
    cases hnode.symm.trans hn

theorem Accounted.step (ha : l.Accounted) (hl : l.Sound sch) (hs : l.Step sch t d l') :
    l'.Accounted := by
  obtain ⟨es, hp, ht⟩ := hs.news
  intro a u op g c b hsplit ho hb
  rw [hp] at hsplit
  rcases split_append hsplit with ⟨b₀, h₀, rfl⟩ | ⟨a₁, -, h₁⟩
  · rw [List.mem_append, not_or] at hb
    rcases ha a u op g c b₀ h₀ ho hb.1 with ⟨k, hk, rfl, rfl, hpt, hn⟩ | ⟨x, call, code, y, rfl, hr⟩
    · by_cases hu : u = t
      · subst hu
        exact hs.owed hl hk hpt hp hn hb.2
      · refine .inl ⟨k, (hs.tasks_of_ne hu).trans hk, rfl, rfl, hpt, fun o d hm => ?_⟩
        rcases List.mem_append.mp hm with hm | hm
        · exact hn o d hm
        · exact hu (ht _ hm)
    · exact .inr ⟨x, call, code, y ++ es, by simp, hr⟩
  · have hw : .write u op g c ∈ es := by simp [h₁]
    obtain ⟨rfl, rfl⟩ := ht _ hw
    cases hs with
    | wrote hk _ hn =>
      rw [past_write _ hn] at hp
      obtain rfl := List.append_cancel_left hp
      cases a₁ with
      | cons => simp at h₁
      | nil =>
        cases h₁
        have hso := hl.fits u _ hk
        obtain ⟨k', ha, hpt⟩ := late_of_write hso.2 hn ho
        exact .inl ⟨k', (put_same ..).trans ha, by rw [Task.after_eq ha], by rw [Task.after_eq ha], hpt,
          by simp⟩

theorem Path.accounted (hp : Path sch ok (start cells) l) : l.Accounted := by
  induction hp with
  | refl => exact fun a u op g c b h => by simp [start] at h
  | step hp _ _ hs ih => exact ih.step hp.sound hs

theorem Path.unrefused (hp : Path sch ok (start cells) l) (hk : ∀ c, ¬ ok (.refused c)) (u : ThreadId)
    (c : Call) (code : Int) : .call u (.refused c code) ∉ l.past := by
  induction hp with
  | refl => simp [start]
  | step _ ha _ hs ih =>
    obtain ⟨es, hp, ht⟩ := hs.news
    rw [hp, List.mem_append]
    rintro (hm | hm)
    · exact ih hm
    · obtain ⟨-, rfl⟩ := ht _ hm
      exact hk c ha

theorem Accounted.owed {g : GuardId} (ha : l.Accounted) (hu : Unannounced g (sinceSlept t l.past)) :
    ∃ p a u op c b, l.past = p ++ (a ++ .write u op g c :: b) ∧
      sinceSlept t l.past = a ++ .write u op g c :: b ∧ op.settles = true ∧
      .call u .announced ∉ b ∧ l.Owed u op g b := by
  obtain ⟨a, u, op, c, b, hs, ho, hb⟩ := hu
  have hp : l.past.rdropWhile (fun e => e ≠ .call t .slept) ++ sinceSlept t l.past = l.past :=
    List.rdropWhile_append_rtakeWhile
  rw [hs] at hp
  have hw := hp
  rw [← List.append_assoc] at hw
  exact ⟨_, a, u, op, c, b, hp.symm, hs, ho, hb, ha _ u op g c b hw.symm ho hb⟩

theorem Accounted.botched (ha : l.Accounted) {g : GuardId}
    (hn : ∀ u k, l.tasks u = some k → k.point.late = false)
    (hu : Unannounced g (sinceSlept t l.past)) : Botched g (sinceSlept t l.past) := by
  obtain ⟨-, a, u, op, c, b, -, hs, ho, -, hw⟩ := ha.owed hu
  rcases hw with ⟨k, hk, -, -, hl, -⟩ | ⟨x, call, code, y, rfl, hc, hx, hq⟩
  · rw [hn u k hk] at hl
    cases hl
  · refine ⟨a, u, op, c, x, call, code, _, y, hs, ho, rfl, ?_, hx, hq⟩
    rcases hc with rfl | rfl
    · exact .inl ⟨rfl, rfl⟩
    · exact .inr ⟨rfl, rfl⟩

end Ledger
end OnceInit

import OnceInit.Proofs.Canonical
import OnceInit.Proofs.Verdict

/-! What an operation has written when it fails. It writes once at the most, and into the cell of its own guard. Whether
it has done so is a matter of the point at which it fails: it has not as long as it asks for the mutex, waits or gives up
over its own claim, and it has when it is refused to leave with a claim, or to leave or to wake others once it has ended
one. -/

namespace OnceInit

def writesOf (t : ThreadId) (es : List Event) : List (GuardId × Cell) :=
  es.filterMap fun
    | .write u _ d c => if u = t then some (d, c) else none
    | _ => none

structure Found (t : ThreadId) (g : GuardId) (d : Cell) (h es : List Event) : Prop where
  split : ∃ a, h = a ++ .read t g d :: es
  own : ∀ e ∈ es, e.actor = some t
  last : ∀ x, .read t g x ∉ es

section History

variable {t : ThreadId} {g d : GuardId} {c : Cell} {h es fs : List Event}

theorem writesOf_append (t : ThreadId) (es fs : List Event) : writesOf t (es ++ fs) = writesOf t es ++ writesOf t fs :=
  List.filterMap_append

theorem mem_writesOf : (d, c) ∈ writesOf t es ↔ ∃ op, .write t op d c ∈ es := by
  constructor
  · intro hm
    obtain ⟨e, he, hw⟩ := List.mem_filterMap.mp hm
    split at hw
    · split at hw
      · next op _ _ ht =>
        cases hw
        exact ⟨op, ht ▸ he⟩
      · cases hw
    · cases hw
  · rintro ⟨op, he⟩
    exact List.mem_filterMap.mpr ⟨_, he, by simp⟩

theorem writesOf_eq_nil (hw : ∀ op d c, .write t op d c ∉ es) : writesOf t es = [] := by
  refine List.eq_nil_iff_forall_not_mem.mpr fun ⟨d, c⟩ hm => ?_
  obtain ⟨op, he⟩ := mem_writesOf.mp hm
  exact hw op d c he

theorem writesOf_append_of_unwritten (h : List Event) (hw : ∀ op d c, .write t op d c ∉ es) :
    writesOf t (h ++ es) = writesOf t h := by
  rw [writesOf_append, writesOf_eq_nil hw, List.append_nil]

theorem found_read (h : List Event) (t : ThreadId) (g : GuardId) (c : Cell) : Found t g c (h ++ [.read t g c]) [] :=
  ⟨⟨h, rfl⟩, by simp, by simp⟩

theorem Found.append (hf : Found t g c h es) (ho : ∀ e ∈ fs, e.actor = some t) (hr : ∀ x, .read t g x ∉ fs) :
    Found t g c (h ++ fs) (es ++ fs) where
  split := by
    obtain ⟨a, rfl⟩ := hf.split
    exact ⟨a, by simp⟩
  own := fun e he => (List.mem_append.mp he).elim (hf.own e) (ho e)
  last := fun x he => (List.mem_append.mp he).elim (hf.last x) (hr x)

end History

namespace Task

def written (k : Task) (c : Cell) : List (GuardId × Cell) :=
  match k.point with
  | .leaving (.granted true) | .leaving .done | .announcing => [(k.guard, c)]
  | _ => []

def Recalls (k : Task) (t : ThreadId) (c : Cell) (h : List Event) : Prop :=
  match k.point with
  | .judging d => ∃ es, Found t k.guard d h es
  | .claiming _ | .leaving (.granted false) => ∃ es, Found t k.guard c h es
  | .leaving (.granted true) =>
    ∃ d es, Found t k.guard d h es ∧ k.scheme.phaseOf d = .untouched ∧ c.width = d.width
  | .announcing => c = k.stored c.width
  | _ => True

def Outside (k : Task) : Prop := k.point = .contending ∨ k.point = .waking

variable {k k' : Task} {t : ThreadId} {c : Cell} {own : Option Token} {h es : List Event} {n : Next}

theorem Outside.inside (ho : k.Outside) : k.point.inside = false := by
  rcases ho with hp | hp <;> rw [hp] <;> rfl

theorem Outside.written (ho : k.Outside) (c : Cell) : k.written c = [] := by
  rcases ho with hp | hp <;> simp only [Task.written, hp]

theorem Outside.recalls (ho : k.Outside) (t : ThreadId) (c : Cell) (h : List Event) : k.Recalls t c h := by
  rcases ho with hp | hp <;> simp only [Recalls, hp]

theorem written_cases (k : Task) (c : Cell) : k.written c = [] ∨ k.written c = [(k.guard, c)] := by
  unfold written
  split
  · exact .inr rfl
  · exact .inr rfl
  · exact .inr rfl
  · exact .inl rfl

theorem written_of_write {new : Width → Cell} (hn : k.node = .write new n) (c : Cell) : k.written c = [] := by
  cases writes hn with
  | claim hp | store hp => simp only [written, hp]

theorem Recalls.append (hr : k.Recalls t c h) (ho : ∀ e ∈ es, e.actor = some t)
    (hs : ∀ x, .read t k.guard x ∉ es) : k.Recalls t c (h ++ es) := by
  unfold Recalls at hr ⊢
  split
  · next hp =>
    simp only [hp] at hr
    exact hr.elim fun _ hf => ⟨_, hf.append ho hs⟩
  · next hp =>
    simp only [hp] at hr
    exact hr.elim fun _ hf => ⟨_, hf.append ho hs⟩
  · next hp =>
    simp only [hp] at hr
    exact hr.elim fun _ hf => ⟨_, hf.append ho hs⟩
  · next hp =>
    simp only [hp] at hr
    obtain ⟨d, _, hf, hd⟩ := hr
    exact ⟨d, _, hf.append ho hs, hd⟩
  · next hp => simpa only [hp] using hr
  · trivial

theorem eq_done_of_leaving {v : Value} (hf : k.Fits c own) (hp : k.point = .leaving v) (hs : k.op.settles = true) :
    v = .done ∧ c = k.stored c.width := by
  cases v with
  | done =>
    simp only [Fits, hp] at hf
    exact ⟨rfl, hf.2⟩
  | granted yes =>
    cases yes <;> simp only [Fits, hp] at hf <;> rw [hf.1] at hs <;> cases hs
  | phase p =>
    simp only [Fits, hp] at hf
    rw [hf.1] at hs
    cases hs

inductive Fails (k : Task) : Failure → Prop
  | lock {code : Int} (hp : k.point = .locking) : Fails k (.ofCall k.op .lock code)
  | wait {code : Int} (hp : k.point = .waiting) : Fails k (.ofCall k.op .wait code)
  | unlock {v : Value} {code : Int} (hp : k.point = .leaving v) : Fails k (.ofCall k.op .unlock code)
  | broadcast {code : Int} (hp : k.point = .announcing) : Fails k (.ofCall k.op .broadcast code)
  | deadlock (hp : k.point = .yielding) : Fails k (.deadlock k.op)

end Task

/-- What the operation `op` of `t` on `g` has written, and left in the cell, which is `x` now, if it fails with `f` when
`h` has happened since it began. An acquire that is refused to let go of the mutex has found the variable complete, or
it has found it unclaimed and leaves it with a claim that nobody has been granted. -/
structure Leaves (t : ThreadId) (op : Op) (g : GuardId) (c : Scheme) (me : Token) (h : List Event) (x : Cell)
    (f : Failure) : Prop where
  unwritten : f.kind = .lockFailed ∨ f.kind = .waitFailed ∨ f.kind = .deadlock ∨ op = .inspect → writesOf t h = []
  acquire : op = .acquire → f.kind = .unlockFailed →
    ∃ d es, Found t g d h es ∧ (∀ u v, .ended u .acquire g (.gives v) ∉ es) ∧
      (d.isComplete = true ∧ x = d ∧ writesOf t h = [] ∨
        c.phaseOf d = .untouched ∧ x = c.claimed d.width me ∧ writesOf t h = [(g, x)] ∧ ∃ y, c.phaseOf x = .underWay y)
  release : op = .release → f.kind = .unlockFailed ∨ f.kind = .broadcastFailed →
    x = .ready x.width ∧ writesOf t h = [(g, x)]
  abort : op = .abort → f.kind = .unlockFailed ∨ f.kind = .broadcastFailed →
    x = .zero x.width ∧ writesOf t h = [(g, x)]

section Leaves

variable {t : ThreadId} {op : Op} {g : GuardId} {c : Scheme} {me : Token} {h es : List Event} {x d : Cell}
  {f : Failure} {k : Task}

theorem leaves_of_unwritten (hw : writesOf t h = [])
    (hf : f.kind ≠ .unlockFailed ∧ f.kind ≠ .broadcastFailed ∨ op = .inspect) : Leaves t op g c me h x f where
  unwritten := fun _ => hw
  acquire := fun ho hk => (hf.elim (fun hf => hf.1 hk) fun hi => by cases ho.symm.trans hi).elim
  release := fun ho hk => (hf.elim (fun hf => hk.elim hf.1 hf.2) fun hi => by cases ho.symm.trans hi).elim
  abort := fun ho hk => (hf.elim (fun hf => hk.elim hf.1 hf.2) fun hi => by cases ho.symm.trans hi).elim

theorem leaves_of_found (ho : op = .acquire) (hf : f.kind = .unlockFailed) (hd : Found t g d h es)
    (hn : ∀ u v, .ended u .acquire g (.gives v) ∉ es)
    (hx : d.isComplete = true ∧ x = d ∧ writesOf t h = [] ∨
      c.phaseOf d = .untouched ∧ x = c.claimed d.width me ∧ writesOf t h = [(g, x)]) : Leaves t op g c me h x f where
  unwritten := by simp [ho, hf]
  acquire := by
    refine fun _ _ => ⟨d, es, hd, hn, hx.imp_right ?_⟩
    rintro ⟨hp, rfl, hw⟩
    exact ⟨hp, rfl, hw, _, Scheme.phaseOf_claimed ..⟩
  release := fun hr => by cases ho.symm.trans hr
  abort := fun hr => by cases ho.symm.trans hr

theorem leaves_of_stored (hs : k.op.settles = true) (hf : f.kind = .unlockFailed ∨ f.kind = .broadcastFailed)
    (hx : x = k.stored x.width) (hw : writesOf t h = [(g, x)]) : Leaves t k.op g c me h x f where
  unwritten := by
    rintro (hk | hk | hk | ho)
    · simp [hk] at hf
    · simp [hk] at hf
    · simp [hk] at hf
    · rw [ho] at hs
      cases hs
  acquire := fun ho => by
    rw [ho] at hs
    cases hs
  release := fun ho _ => ⟨(hx.trans (if_pos ho)).trans (Cell.complete_zero _), hw⟩
  abort := fun ho _ => ⟨hx.trans (if_neg (by simp [ho])), hw⟩

end Leaves

namespace Machine

variable {s : Setup} {ok : OnceInit.Step → Prop} {m m₀ m₁ : Machine} {h es : List Event} {t u : ThreadId}
  {k k' : Task} {n : Next} {r : Machine × List Event} {op : Op} {g : GuardId} {c : Scheme} {p : Purpose}

section Act

variable (ha : Act s m t k m₁ es n) (hf : k.Fits (m.cells k.guard) (m.tokens.known t)) (hk : n.after k = some k')

include ha hf hk

theorem Act.written : k'.written (m₁.cells k.guard) = k.written (m.cells k.guard) ++ writesOf t es := by
  cases ha with
  | refused hn => cases (Task.after_refused hn _).symm.trans hk
  | lock hn =>
    cases Task.calls hn with
    | lock hp =>
      cases hk
      simp only [Task.written, hp]
      rfl
  | unlock hn =>
    cases Task.calls hn with
    | unlock hp =>
      split at hk
      · next hs =>
        obtain ⟨rfl, -⟩ := Task.eq_done_of_leaving hf hp hs
        cases hk
        simp only [Task.written, hp]
        rfl
      · cases hk
    | yield => cases hk
  | broadcast hn =>
    cases Task.calls hn with
    | broadcast => cases hk
  | took hn =>
    obtain ⟨hp, ha⟩ := Task.after_take hn
    cases ha.symm.trans hk
    rw [Task.Outside.written hp]
    by_cases hs : k.op.settles = true <;> simp only [Task.written, hs] <;> rfl
  | @read f hn =>
    have hp := Task.point_of_read hn
    have hs := Task.sees hn (m.cells k.guard)
    generalize f (m.cells k.guard) = n at hs hk
    cases hs with
    | inspected | complete | unsure =>
      cases hk
      simp only [Task.written, hp]
      rfl
  | @asked f hn =>
    obtain ⟨d, hp⟩ := Task.point_of_ask hn
    have hj := Task.judges hn hp (m.token s t)
    generalize f (m.token s t) = n at hj hk
    cases hj with
    | free | own | others =>
      cases hk
      simp only [Task.written, hp]
      rfl
  | wrote hn =>
    cases Task.writes hn with
    | claim hp | store hp =>
      cases hk
      simp [Task.written, hp, writesOf, poke]

theorem Act.recalls (hr : k.Recalls t (m.cells k.guard) h) : k'.Recalls t (m₁.cells k.guard) (h ++ es) := by
  cases ha with
  | refused hn => cases (Task.after_refused hn _).symm.trans hk
  | lock hn =>
    cases Task.calls hn with
    | lock =>
      cases hk
      trivial
  | unlock hn =>
    cases Task.calls hn with
    | unlock hp =>
      split at hk
      · next hs =>
        cases hk
        exact (Task.eq_done_of_leaving hf hp hs).2
      · cases hk
    | yield => cases hk
  | broadcast hn =>
    cases Task.calls hn with
    | broadcast => cases hk
  | took hn =>
    cases (Task.after_take hn).2.symm.trans hk
    by_cases hs : k.op.settles = true <;> simp only [Task.Recalls, hs] <;> trivial
  | @read f hn =>
    have hs := Task.sees hn (m.cells k.guard)
    generalize f (m.cells k.guard) = n at hs hk
    cases hs with
    | inspected =>
      cases hk
      trivial
    | complete | unsure =>
      cases hk
      exact ⟨_, found_read ..⟩
  | @asked f hn =>
    obtain ⟨d, hp⟩ := Task.point_of_ask hn
    have hj := Task.judges hn hp (m.token s t)
    simp only [Task.Fits, Task.Recalls, hp] at hf hr
    obtain ⟨-, rfl, -⟩ := hf
    rw [List.append_nil]
    generalize f (m.token s t) = n at hj hk
    cases hj with
    | free =>
      cases hk
      exact hr
    | own | others =>
      cases hk
      trivial
  | wrote hn =>
    cases Task.writes hn with
    | claim hp =>
      cases hk
      simp only [Task.Fits, Task.Recalls, hp] at hf hr
      obtain ⟨_, hr⟩ := hr
      exact ⟨_, _, hr.append (by simp [Event.actor]) (by simp), hf.2.2, by simp [poke]⟩
    | store =>
      cases hk
      trivial

end Act

structure Imprint (m : Machine) (t : ThreadId) (k : Task) (h : List Event) : Prop where
  task : m.tasks t = some k
  runs : m.running = some t ∨ k.Outside
  fits : k.Fits (m.cells k.guard) (m.tokens.known t)
  written : writesOf t h = k.written (m.cells k.guard)
  recalls : k.Recalls t (m.cells k.guard) h

theorem imprint_launch (m : Machine) (t : ThreadId) (op : Op) (g : GuardId) (c : Scheme) (p : Purpose) :
    (m.launch t (.start op g c p)).1.Imprint t (.start op g c p) [] where
  task := put_same ..
  runs := .inl rfl
  fits := Task.fits_start ..
  written := rfl
  recalls := trivial

theorem Imprint.others {m' : Machine} (hi : m.Imprint t k h) (ho : k.Outside) (ht : m'.tasks t = m.tasks t)
    (hw : ∀ o d c, .write t o d c ∉ es) : m'.Imprint t k (h ++ es) where
  task := ht.trans hi.task
  runs := .inr ho
  fits := hi.fits.outside ho.inside _ _
  written := by rw [writesOf_append_of_unwritten h hw, hi.written, ho.written, ho.written]
  recalls := ho.recalls ..

theorem Imprint.begin (hi : m.Imprint t k h) (hr : m.running = none) (st : OnceInit.Step) :
    (m.begin s st).1.Imprint t k (h ++ (m.begin s st).2) := by
  have ho : k.Outside := hi.runs.resolve_left (by simp [hr])
  have busy : ∀ u, m.tasks u = none → t ≠ u := by
    rintro u hu rfl
    cases hi.task.symm.trans hu
  have onset := onset s m st
  generalize m.begin s st = r at onset ⊢
  cases onset with
  | armed | poked | freed | skipped | declined | woken => exact hi.others ho rfl (by simp)
  | launched free => exact hi.others ho (put_of_ne _ _ (busy _ free)) (by simp [launch])
  | closed free => exact hi.others ho (put_of_ne _ _ (busy _ free)) (by simp [launch, emit])

theorem Imprint.own (hi : m.Imprint t k h) (hp : Played s m t k r)
    (hn : ∀ e ∈ r.2, e.returns ≠ some t) : ∃ x, r.1.Imprint t { k with point := x } (h ++ r.2) := by
  cases hp with
  | slept hw =>
    have hp : k.point = .waiting := by
      cases Task.calls hw with
      | wait hp => exact hp
    refine ⟨.waking, put_same .., .inr (.inr rfl), (Task.fits_called hi.fits hw rfl).1, ?_, trivial⟩
    rw [writesOf_append_of_unwritten h (by simp), hi.written]
    simp only [Task.written, hp]
  | parked hw =>
    exact ⟨k.point, hi.others (Task.after_take hw).1 rfl (by simp [park])⟩
  | @act m₁ es n ha =>
    cases hk : n.after k with
    | some k' =>
      have he := Task.after_eq hk
      have hg : k'.guard = k.guard := by rw [he]
      have hw : writesOf t (h ++ (es ++ (n.report t k ++ n.notes s t k))) = k'.written (m₁.cells k.guard) := by
        rw [← List.append_assoc, writesOf_append_of_unwritten _ (write_not_mem_news n t), writesOf_append, hi.written,
          ha.written hi.fits hk]
      have hrec : k'.Recalls t (m₁.cells k.guard) (h ++ (es ++ (n.report t k ++ n.notes s t k))) := by
        rw [← List.append_assoc]
        exact (ha.recalls hi.fits hk hi.recalls).append
          (fun e he => (List.mem_append.mp he).elim (actor_of_report t k n e) (actor_of_notes s t k n e))
          (read_not_mem_news n t _)
      have hfits := ha.fits hi.fits hk
      rw [← hg] at hw hrec hfits
      refine ⟨k'.point, ?_⟩
      rw [← he]
      exact ⟨(put_same ..).trans hk, .inl (by simp [advance, hk]), hfits, hw, hrec⟩
    | none =>
      cases n with
      | go | tell => cases hk
      | finish x =>
        have he := List.mem_append_left ((Next.finish x).notes s t k) (ended_mem_report t k x)
        exact absurd rfl (hn _ (List.mem_append_right es he))

theorem Imprint.turn (hi : m.Imprint t k h) (hn : ∀ e ∈ (m.turn s).2, e.returns ≠ some t) :
    ∃ x, (m.turn s).1.Imprint t { k with point := x } (h ++ (m.turn s).2) := by
  by_cases hr : m.running = some t
  · exact hi.own (played_turn hr hi.task) hn
  · have ho := hi.runs.resolve_left hr
    obtain ⟨u, j, hrun, -, hp⟩ | ⟨he, ht, -⟩ := turn_played s m
    · have htu : t ≠ u := fun htu => hr (htu ▸ hrun)
      exact ⟨k.point, hi.others ho (hp.task_of_ne htu) fun _ _ _ => hp.foreign htu rfl⟩
    · exact ⟨k.point, hi.others ho (by rw [ht]) (by simp [he])⟩

theorem Reaches.imprint (hr : Reaches s ok (m₀.launch t (.start op g c p)).1 m h) (hn : ∀ e ∈ h, e.returns ≠ some t) :
    ∃ x, m.Imprint t ⟨op, g, c, p, x⟩ h := by
  induction hr with
  | start => exact ⟨_, imprint_launch m₀ t op g c p⟩
  | begin st _ hs hf _ ih =>
    obtain ⟨x, hi⟩ := ih fun e he => hn e (List.mem_append_left _ he)
    exact ⟨x, hi.begin (idle_of_settled hs hf).1 st⟩
  | turn _ _ ih =>
    obtain ⟨x, hi⟩ := ih fun e he => hn e (List.mem_append_left _ he)
    exact hi.turn fun e he => hn e (List.mem_append_right _ he)

theorem Act.fails {f : Failure} (ha : Act s m t k m₁ es (.finish (.fails f))) :
    k.Fails f ∧ m₁.cells = m.cells ∧ ∃ y, es = [.call t y] := by
  obtain ⟨_, _, _, hnode, -⟩ := ha.called_of_finish
  generalize hx : Next.finish (.fails f) = n at ha
  cases ha with
  | refused hn _ =>
    refine ⟨?_, rfl, _, rfl⟩
    obtain ⟨hp, hr⟩ | ⟨hp, hr⟩ := Task.refusal_cases hn
    · cases hx.trans (hr _)
      exact .deadlock hp
    · cases hx.trans (hr _)
      cases Task.calls hn with
      | lock hp => exact .lock hp
      | wait hp => exact .wait hp
      | unlock hp => exact .unlock hp
      | yield hy => exact absurd hy hp
      | broadcast hp => exact .broadcast hp
  | lock hn =>
    subst hx
    cases Task.calls hn
  | unlock hn =>
    cases Task.calls hn with
    | unlock => split at hx <;> cases hx
    | yield hp =>
      cases hx
      exact ⟨.deadlock hp, rfl, _, rfl⟩
  | broadcast hn =>
    cases Task.calls hn with
    | broadcast => cases hx
  | took hn | read hn | asked hn | wrote hn => cases hnode.symm.trans hn

theorem Played.frame (hp : Played s m t k r) : r.1.cells = m.cells ∧ writesOf t r.2 = [] ∨
    k.written (m.cells k.guard) = [] ∧ ∃ x, r.1.cells = put m.cells k.guard x ∧ writesOf t r.2 = [(k.guard, x)] := by
  cases hp with
  | slept | parked => exact .inl ⟨rfl, rfl⟩
  | @act m₁ es n ha =>
    rw [writesOf_append_of_unwritten es (write_not_mem_news n t)]
    cases ha with
    | refused | lock | unlock | broadcast | read | asked | took => exact .inl ⟨rfl, rfl⟩
    | wrote hn => exact .inr ⟨Task.written_of_write hn _, _, rfl, by simp [writesOf]⟩

theorem Imprint.leaves {f : Failure} (hi : m.Imprint t k h) (hn : ∀ e ∈ h, e.returns ≠ some t)
    (ha : Act s m t k m₁ es (.finish (.fails f))) :
    Leaves t k.op k.guard k.scheme (m.token s t)
      (h ++ (es ++ (Next.report t k (.finish (.fails f)) ++ Next.notes s t k (.finish (.fails f)))))
      (m₁.cells k.guard) f := by
  have ho := (Played.act ha).actor
  obtain ⟨hf, hc, y, rfl⟩ := ha.fails
  rw [hc]
  have hr : ∀ x, .read t k.guard x ∉ .call t y :: (Next.report t k (.finish (.fails f)) ++
      Next.notes s t k (.finish (.fails f))) := by
    intro x he
    exact (List.mem_cons.mp he).elim nofun (read_not_mem_news _ t _ x)
  have written : writesOf t (h ++ .call t y :: (Next.report t k (.finish (.fails f)) ++
      Next.notes s t k (.finish (.fails f)))) = k.written (m.cells k.guard) := by
    rw [← hi.written]
    refine writesOf_append_of_unwritten h fun o d x he => ?_
    exact (List.mem_cons.mp he).elim nofun (write_not_mem_news _ t o d x)
  have ungranted : ∀ {d fs}, Found t k.guard d h fs → ∀ u v, .ended u .acquire k.guard (.gives v) ∉ fs ++
      .call t y :: (Next.report t k (.finish (.fails f)) ++ Next.notes s t k (.finish (.fails f))) := by
    intro d fs hd u v he
    obtain ⟨a, rfl⟩ := hd.split
    rcases List.mem_append.mp he with he | he
    · exact hn _ (List.mem_append_right _ (List.mem_cons_of_mem _ he)) (hd.own _ he)
    · cases (ended_of_news ((List.mem_cons.mp he).resolve_left nofun)).2.2.2
  have fits := hi.fits
  have recalls := hi.recalls
  cases hf with
  | lock hp | wait hp | deadlock hp =>
    simp only [Task.written, hp] at written
    exact leaves_of_unwritten written (.inl ⟨nofun, nofun⟩)
  | broadcast hp =>
    simp only [Task.written, Task.Fits, Task.Recalls, hp] at written fits recalls
    exact leaves_of_stored fits (.inr rfl) recalls written
  | @unlock v code hp =>
    cases v with
    | granted yes =>
      cases yes with
      | true =>
        simp only [Task.written, Task.Fits, Task.Recalls, hp] at written fits recalls
        obtain ⟨hop, me, hme, hx⟩ := fits
        obtain ⟨d, fs, hd, hfree, hwidth⟩ := recalls
        rw [hwidth, ← token_of_known hme] at hx
        exact leaves_of_found hop rfl (hd.append ho hr) (ungranted hd) (.inr ⟨hfree, hx, written⟩)
      | false =>
        simp only [Task.written, Task.Fits, Task.Recalls, hp] at written fits recalls
        obtain ⟨fs, hd⟩ := recalls
        exact leaves_of_found fits.1 rfl (hd.append ho hr) (ungranted hd) (.inl ⟨fits.2, rfl, written⟩)
    | done =>
      simp only [Task.written, Task.Fits, hp] at written fits
      exact leaves_of_stored fits.1 (.inl rfl) fits.2 written
    | phase p =>
      simp only [Task.written, Task.Fits, hp] at written fits
      exact leaves_of_unwritten written (.inr fits.1)

/-- What the operation that `t` is in the middle of, since the start of which `h` has happened, does to the cells up to
the end of the next turn, and what it leaves if it fails in that turn. -/
structure Effects (s : Setup) (m : Machine) (t : ThreadId) (op : Op) (g : GuardId) (c : Scheme) (h : List Event) :
    Prop where
  failed : ∀ o d f, .ended t o d (.fails f) ∈ (m.turn s).2 →
    Leaves t op g c (m.token s t) (h ++ (m.turn s).2) ((m.turn s).1.cells g) f
  once : writesOf t (h ++ (m.turn s).2) = [] ∨ ∃ x, writesOf t (h ++ (m.turn s).2) = [(g, x)]
  frame : m.running = some t → (m.turn s).1.cells = m.cells ∧ writesOf t (m.turn s).2 = [] ∨
    ∃ x, (m.turn s).1.cells = put m.cells g x ∧ writesOf t (m.turn s).2 = [(g, x)]

theorem Imprint.effects (hi : m.Imprint t k h) (hn : ∀ e ∈ h, e.returns ≠ some t) :
    m.Effects s t k.op k.guard k.scheme h := by
  have before : writesOf t h = [] ∨ ∃ x, writesOf t h = [(k.guard, x)] := by
    rw [hi.written]
    exact (k.written_cases _).imp_right fun hw => ⟨_, hw⟩
  suffices hs : (∀ o d f, .ended t o d (.fails f) ∈ (m.turn s).2 →
      Leaves t k.op k.guard k.scheme (m.token s t) (h ++ (m.turn s).2) ((m.turn s).1.cells k.guard) f) ∧
      (writesOf t (h ++ (m.turn s).2) = [] ∨ ∃ x, writesOf t (h ++ (m.turn s).2) = [(k.guard, x)]) from
    ⟨hs.1, hs.2, fun hr => (played_turn hr hi.task).frame.imp_right And.right⟩
  obtain ⟨u, j, -, hj, hp⟩ | ⟨he, -, -⟩ := turn_played s m
  · by_cases htu : t = u
    · subst htu
      cases hj.symm.trans hi.task
      constructor
      · intro o d f hx
        obtain ⟨-, -, -, m₁, es, ha, hr⟩ := hp.ended hx
        have hl := hi.leaves hn ha
        rwa [hr]
      · rw [writesOf_append]
        obtain ⟨-, hw⟩ | ⟨hnone, x, -, hw⟩ := hp.frame
        · rwa [hw, List.append_nil]
        · rw [hw, hi.written, hnone]
          exact .inr ⟨x, rfl⟩
    · refine ⟨fun o d f hx => absurd hx (hp.foreign htu rfl), ?_⟩
      rwa [writesOf_append_of_unwritten h fun _ _ _ => hp.foreign htu rfl]
  · refine ⟨fun o d f hx => by simp [he] at hx, ?_⟩
    rwa [he, List.append_nil]

/-- Whatever fails, whenever it does and whatever others do meanwhile, an operation writes no guard but its own, and what
it leaves there when it fails is decided by what has failed and what it has found. -/
theorem failure_effects (hr : Reaches s ok (m₀.launch t (.start op g c p)).1 m h) (hn : ∀ e ∈ h, e.returns ≠ some t) :
    m.Effects s t op g c h := by
  obtain ⟨x, hi⟩ := hr.imprint hn
  exact hi.effects hn

/-- A waiter wakes up for no reason, finds that the claim has been overwritten, claims the guard, and is refused to let
go of the mutex. -/
theorem failure_effects_woken : ∃ m₀ m h,
    Reaches (.plain .owner) (fun _ => True) (Machine.launch m₀ 1 (.start .acquire 0 .owner .plain)).1 m h ∧
    .call 1 .slept ∈ h ∧ .read 1 0 (.wide 0 7 3 0 0 0 0 0) ∈ h ∧
    writesOf 1 (h ++ (m.turn (.plain .owner)).2) = [(0, .wide 0 0 0 0 2 0 0 0)] ∧
    Leaves 1 .acquire 0 .owner ⟨2, by decide⟩ (h ++ (m.turn (.plain .owner)).2) (.wide 0 0 0 0 2 0 0 0)
      (.ofCall .acquire .unlock 22) := by
  have h₀ : Reaches (.plain .owner) (fun _ => True)
      (launch (((start fun _ => .zero .wide).launch 0 (.start .acquire 0 .owner .plain)).1.turns (.plain .owner) 9).1
        1 (.start .acquire 0 .owner .plain)).1 _ [] := .start
  have h₁ := (h₀.turns 9).begin (.poke 0 (.wide 0 7 3 0 0 0 0 0)) (by decide) (by decide) trivial
  have h₂ := h₁.begin (.fault .unlock ⟨22, 0⟩) (by decide) (by decide) trivial
  have h₃ := (h₂.begin (.spurious 1) (by decide) (by decide) trivial).turns 4
  exact ⟨_, _, _, h₃, by decide, by decide, by decide, (failure_effects h₃ (by decide)).failed .acquire 0 _ (by decide)⟩

end Machine
end OnceInit

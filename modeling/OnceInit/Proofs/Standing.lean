import OnceInit.Proofs.Smooth

/-! What holds of the tasks and frames of every process, whatever is done to it: each task fits what its thread knows,
its operation is one that its purpose is for, and initializers run on managed guards only. -/

namespace OnceInit

structure Task.Begun (s : Setup) (k : Task) : Prop where
  locking : k.point = .locking
  suits : k.purpose.Suits k.op
  managed : ∀ b, k.purpose = .opening b → s.kinds k.guard = some .managed

theorem GuardKind.eq_managed_of_opening {kind : GuardKind} {b : Build} {g : GuardId} {other : Option Scheme}
    {a : Action} {k : Task} {fallible : Bool} (hk : kind.task? b g other a = some k)
    (hp : k.purpose = .opening fallible) : kind = .managed := by
  unfold GuardKind.task? at hk
  split at hk <;> cases hk <;> first | rfl | cases hp

theorem GuardKind.begun_of_task? {s : Setup} {kind : GuardKind} {g : GuardId} {other : Option Scheme} {a : Action}
    {k : Task} (hg : s.kinds g = some kind) (hk : kind.task? s.build g other a = some k) : k.Begun s where
  locking := by rw [GuardKind.task?_eq hk, Task.start]
  suits := GuardKind.suits_of_task? hk
  managed := by
    intro b hb
    obtain rfl := GuardKind.eq_managed_of_opening hk hb
    rw [GuardKind.task?_eq hk]
    exact hg

theorem Frame.begun_task (s : Setup) (f : Frame) (e : Ending) : (f.task s.build e).Begun s := ⟨rfl, rfl, nofun⟩

namespace Machine

variable {s : Setup} {ok : OnceInit.Step → Prop} {cells : GuardId → Cell} {m : Machine} {h : List Event}
  {t u : ThreadId} {j k : Task} {f : Frame} {r : Machine × List Event}

theorem task_of_launch (hk : (m.launch u j).1.tasks t = some k) : m.tasks t = some k ∨ t = u ∧ k = j := by
  by_cases ht : t = u
  · subst ht
    exact .inr ⟨rfl, Option.some.inj (hk.symm.trans (put_same ..))⟩
  · exact .inl ((put_of_ne _ _ ht).symm.trans hk)

theorem task_of_begin (st : OnceInit.Step) (hk : (m.begin s st).1.tasks t = some k) :
    m.tasks t = some k ∨ k.Begun s := by
  have ho := onset s m st
  generalize m.begin s st = r at ho hk
  cases ho with
  | armed | poked | freed | skipped | declined | woken => exact .inl hk
  | launched _ hkind hj =>
    obtain hk | ⟨-, rfl⟩ := task_of_launch hk
    · exact .inl hk
    · exact .inr (GuardKind.begun_of_task? hkind hj)
  | @closed u f rest e =>
    obtain hk | ⟨-, rfl⟩ := task_of_launch hk
    · exact .inl hk
    · exact .inr (f.begun_task s e)

theorem frame_of_begin (st : OnceInit.Step) (hf : f ∈ (m.begin s st).1.frames t) : f ∈ m.frames t := by
  have ho := onset s m st
  generalize m.begin s st = r at ho hf
  cases ho with
  | armed | poked | freed | skipped | declined | woken | launched => exact hf
  | @closed u x rest e _ top =>
    by_cases ht : t = u
    · subst ht
      rw [top]
      exact List.mem_cons_of_mem _ ((put_same m.frames t rest) ▸ hf)
    · exact (put_of_ne m.frames rest ht) ▸ hf

theorem Act.fits {m₁ : Machine} {es : List Event} {n : Next} (ha : Act s m u j m₁ es n)
    (hf : j.Fits (m.cells j.guard) (m.tokens.known u)) (hk : n.after j = some k) :
    k.Fits (m₁.cells j.guard) (m₁.tokens.known u) := by
  cases ha with
  | refused hn => cases (Task.after_refused hn _).symm.trans hk
  | lock hn | unlock hn | broadcast hn => exact (Task.fits_called hf hn hk).1
  | took hn => exact Task.fits_took hn hk
  | read hn => exact Task.fits_read hf hn hk
  | asked hn =>
    rw [register, Registry.known_ask]
    exact Task.fits_asked hf hn hk
  | wrote hn =>
    simp only [poke, put_same]
    exact Task.fits_wrote hf hn hk

theorem Act.called_of_finish {m₁ : Machine} {es : List Event} {x : Outcome} (ha : Act s m u j m₁ es (.finish x)) :
    ∃ c n r, j.node = .call c n r ∧ (n = .finish x ∨ ∃ f, x = .fails f) := by
  generalize hx : Next.finish x = n at ha
  cases ha with
  | @refused c n r code hn _ =>
    obtain ⟨f, hf⟩ := Task.refused_eq hn code
    cases hx.trans hf
    exact ⟨c, n, r, hn, .inr ⟨f, rfl⟩⟩
  | lock hn | unlock hn | broadcast hn => exact ⟨_, _, _, hn, .inl rfl⟩
  | took hn _ => exact absurd hx.symm (Task.ne_finish_of_after (Task.after_take hn).2 _)
  | read hn =>
    obtain ⟨k', ha, -⟩ := Task.after_read hn (m.cells j.guard)
    exact absurd hx.symm (Task.ne_finish_of_after ha _)
  | asked hn =>
    obtain ⟨k', ha, -⟩ := Task.after_ask hn (m.token s u)
    exact absurd hx.symm (Task.ne_finish_of_after ha _)
  | wrote hn =>
    obtain ⟨v, ha⟩ := Task.after_write hn
    exact absurd hx.symm (Task.ne_finish_of_after ha _)

section Played

variable (hp : Played s m u j r)

include hp

theorem Played.task_of_ne (ht : t ≠ u) : r.1.tasks t = m.tasks t := by
  cases hp with
  | slept => exact put_of_ne _ _ ht
  | parked => rfl
  | act ha => exact (put_of_ne _ _ ht).trans (congrFun ha.frame.2.1 t)

theorem Played.task (hj : m.tasks u = some j) (hk : r.1.tasks t = some k) :
    ∃ i p, m.tasks t = some i ∧ k = { i with point := p } := by
  by_cases ht : t = u
  · subst ht
    cases hp with
    | slept =>
      cases (put_same ..).symm.trans hk
      exact ⟨j, .waking, hj, rfl⟩
    | parked => exact ⟨k, k.point, hk, rfl⟩
    | act => exact ⟨j, k.point, hj, Task.after_eq ((put_same ..).symm.trans hk)⟩
  · exact ⟨k, k.point, (hp.task_of_ne ht).symm.trans hk, rfl⟩

theorem Played.fits (hj : m.tasks u = some j) (hf : j.Fits (m.cells j.guard) (m.tokens.known u))
    (hk : r.1.tasks u = some k) : k.Fits (r.1.cells k.guard) (r.1.tokens.known u) := by
  obtain ⟨i, p, hi, he⟩ := hp.task hj hk
  cases hj.symm.trans hi
  have hg : k.guard = j.guard := by rw [he]
  rw [hg]
  cases hp with
  | slept hn =>
    cases (put_same ..).symm.trans hk
    exact (Task.fits_called hf hn rfl).1
  | parked =>
    cases hj.symm.trans hk
    exact hf
  | act ha => exact ha.fits hf ((put_same ..).symm.trans hk)

theorem Played.frames (hf : f ∈ r.1.frames t) : f ∈ m.frames t ∨ f.guard = j.guard ∧ ∃ b, j.purpose = .opening b := by
  cases hp with
  | slept | parked => exact .inl hf
  | @act m₁ es n ha =>
    by_cases ht : t = u
    · subst ht
      simp only [advance, put_same, ha.frame.2.2.1] at hf
      refine (List.mem_append.mp hf).symm.imp id fun hx => ?_
      obtain ⟨hg, hb, -⟩ := Next.mem_frames hx
      exact ⟨hg, _, hb⟩
    · simp only [advance, ha.frame.2.2.1] at hf
      exact .inl (put_of_ne m.frames _ ht ▸ hf)

end Played

structure Standing (s : Setup) (m : Machine) : Prop where
  fits : ∀ t k, m.tasks t = some k → k.Fits (m.cells k.guard) (m.tokens.known t)
  suits : ∀ t k, m.tasks t = some k → k.purpose.Suits k.op
  managed : ∀ t k b, m.tasks t = some k → k.purpose = .opening b → s.kinds k.guard = some .managed
  frames : ∀ t, ∀ f ∈ m.frames t, s.kinds f.guard = some .managed

theorem Standing.begin (hm : m.Standing s) (hs : m.Seated) (hr : m.running = none) (st : OnceInit.Step) :
    (m.begin s st).1.Standing s where
  fits := by
    intro t k hk
    obtain hk | hb := task_of_begin st hk
    · have ho : k.point.inside = false := by
        rcases hs.parked t k hk (by simp [hr]) with hp | hp <;> rw [hp] <;> rfl
      exact (hm.fits t k hk).outside ho _ _
    · simp [Task.Fits, hb.locking]
  suits := fun t k hk => (task_of_begin st hk).elim (hm.suits t k) Task.Begun.suits
  managed := fun t k b hk => (task_of_begin st hk).elim (hm.managed t k b) fun hb => hb.managed b
  frames := fun t f hf => hm.frames t f (frame_of_begin st hf)

theorem Standing.played (hm : m.Standing s) (hs : m.Seated) (hr : m.running = some u) (hj : m.tasks u = some j)
    (hp : Played s m u j r) : r.1.Standing s where
  fits := by
    intro t k hk
    by_cases ht : t = u
    · subst ht
      exact hp.fits hj (hm.fits t j hj) hk
    · have hk := (hp.task_of_ne ht).symm.trans hk
      have ho : k.point.inside = false := by
        rcases hs.parked t k hk (by simp [hr, Ne.symm ht]) with hp | hp <;> rw [hp] <;> rfl
      exact (hm.fits t k hk).outside ho _ _
  suits := by
    intro t k hk
    obtain ⟨i, p, hi, rfl⟩ := hp.task hj hk
    exact hm.suits t i hi
  managed := by
    intro t k b hk hb
    obtain ⟨i, p, hi, rfl⟩ := hp.task hj hk
    exact hm.managed t i b hi hb
  frames := by
    intro t f hf
    obtain hf | ⟨hg, b, hb⟩ := hp.frames hf
    · exact hm.frames t f hf
    · rw [hg]
      exact hm.managed u j b hj hb

theorem standing_start (s : Setup) (cells : GuardId → Cell) : (start cells).Standing s where
  fits := fun _ _ hk => nomatch hk
  suits := fun _ _ hk => nomatch hk
  managed := fun _ _ _ hk => nomatch hk
  frames := fun _ _ hf => nomatch hf

theorem Reaches.standing (hr : Reaches s ok (.start cells) m h) : m.Standing s := by
  induction hr with
  | start => exact standing_start s cells
  | begin st hr hs ha _ ih => exact ih.begin hr.seated (idle_of_settled hs ha).1 st
  | turn hr hu ih =>
    obtain ⟨-, ⟨t, k, hrun, hk, hp⟩ | ⟨t, rest, -, -, ht⟩⟩ := hr.seated.turn_cases (s := s) hu
    · exact ih.played hr.seated hrun hk hp
    · rw [ht]
      exact ⟨ih.fits, ih.suits, ih.managed, ih.frames⟩

end Machine
end OnceInit

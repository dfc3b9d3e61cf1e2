import OnceInit.Proofs.Waiting

/-! Where no call fails, a cell is under way only by the claim of a thread that holds the guard or is about to be told
that it does. -/

namespace OnceInit

theorem holds_mono {h es : List Event} {t : ThreadId} {g : GuardId}
    (hw : ∀ e ∈ es, ∀ u op d c, e ≠ .write u op d c) (hh : Holds h t g) : Holds (h ++ es) t g := by
  induction es using List.reverseRecOn with
  | nil => simpa using hh
  | append_singleton es e ih =>
    have hes := ih fun x hx => hw x (List.mem_append_left _ hx)
    rw [← List.append_assoc, holds_concat, decide_eq_true hes]
    unfold Event.holding
    split
    · rfl
    · exact absurd rfl (hw _ (List.mem_append_right _ (List.mem_singleton.mpr rfl)) _ _ _ _)
    · rfl

theorem Task.granted_of_point {k : Task} {c : Cell} {own : Option Token} {x : Call} {n : Next} {r : Int → Next}
    (hf : k.Fits c own) (hp : k.point = .leaving (.granted true)) (hn : k.node = .call x n r) :
    k.op = .acquire ∧ n = .finish (.gives (.granted true)) := by
  simp only [Task.Fits, hp] at hf
  simp only [Task.node, hp, hf.1, Node.call.injEq] at hn
  exact ⟨hf.1, hn.2.1.symm⟩

namespace Ledger

variable {cells : GuardId → Cell} {sch : GuardId → Scheme} {ok : Deed → Prop} {l l' : Ledger}
  {t u : ThreadId} {d : Deed} {k : Task} {g : GuardId}

def Granting (l : Ledger) (t : ThreadId) (g : GuardId) : Prop :=
  ∃ k, l.tasks t = some k ∧ k.guard = g ∧ k.point = .leaving (.granted true)

def Covered (sch : GuardId → Scheme) (l : Ledger) : Prop :=
  ∀ g c, (sch g).phaseOf (l.cells g) = .underWay c → ∃ t, Holds l.past t g ∨ l.Granting t g

theorem not_granting (hk : l.tasks t = some k) (hp : k.point ≠ .leaving (.granted true)) :
    ¬ l.Granting t g := by
  intro hg
  obtain ⟨k', hk', -, hp'⟩ := hg
  cases hk.symm.trans hk'
  exact hp hp'

theorem not_granting_of_none (hk : l.tasks t = none) : ¬ l.Granting t g := by
  intro hg
  obtain ⟨k', hk', -⟩ := hg
  cases hk.symm.trans hk'

theorem Step.holds_mono (hs : l.Step sch t d l') (hd : d ≠ .wrote) (hh : Holds l.past u g) : Holds l'.past u g := by
  obtain ⟨es, hp, ht⟩ := hs.news
  rw [hp]
  refine OnceInit.holds_mono ?_ hh
  rintro e he v op a c rfl
  exact hd (ht _ he).2

theorem Covered.step (hl : l.Covered sch) (hs : l.Sound sch) (hst : l.Step sch t d l') (hd : ∀ c, d ≠ .refused c) :
    l'.Covered sch := by
  -- a claim that is not touched stays covered, if its thread has not just been told of it
  have keep : ∀ {g c}, (sch g).phaseOf (l.cells g) = .underWay c → (∀ u, Holds l.past u g → Holds l'.past u g) →
      (l.Granting t g → Holds l'.past t g ∨ l'.Granting t g) → ∃ u, Holds l'.past u g ∨ l'.Granting u g := by
    intro g c hc hh ht
    obtain ⟨u, hu | hu⟩ := hl g c hc
    · exact ⟨u, .inl (hh u hu)⟩
    · by_cases hut : u = t
      · subst hut
        exact ⟨u, ht hu⟩
      · refine ⟨u, .inr ?_⟩
        rw [Granting, hst.tasks_of_ne hut]
        exact hu
  intro g c hc
  have hst' := hst
  cases hst with
  | note | wake => exact keep hc (fun u => hst'.holds_mono (by simp)) .inr
  | begin _ _ _ free | close _ free =>
    exact keep hc (fun u => hst'.holds_mono (by simp)) fun hg => absurd hg (not_granting_of_none free)
  | @called k x n r hk _ hn =>
    refine keep hc (fun u => hst'.holds_mono (by simp)) fun hg => .inl ?_
    obtain ⟨k', hk', rfl, hp⟩ := hg
    cases hk.symm.trans hk'
    obtain ⟨ho, rfl⟩ := Task.granted_of_point (hs.fits t k hk).2 hp hn
    exact (holds_past_grant ho (moot_marks t x)).mpr (.inr ⟨rfl, rfl⟩)
  | refused => exact absurd rfl (hd _)
  | took hk _ hn =>
    refine keep hc (fun u => hst'.holds_mono (by simp)) fun hg => absurd hg (not_granting hk ?_)
    rcases (Task.after_take hn).1 with hp | hp <;> simp [hp]
  | read hk _ hn =>
    refine keep hc (fun u => hst'.holds_mono (by simp)) fun hg => absurd hg (not_granting hk ?_)
    simp [Task.point_of_read hn]
  | asked _ hk _ hn =>
    refine keep hc (fun u => hst'.holds_mono (by simp)) fun hg => absurd hg (not_granting hk ?_)
    obtain ⟨x, hp⟩ := Task.point_of_ask hn
    simp [hp]
  | @wrote k new n hk _ hn =>
    by_cases hg : g = k.guard
    · subst hg
      cases Task.writes hn with
      | claim => exact ⟨t, .inr ⟨_, put_same .., rfl, rfl⟩⟩
      | store =>
        simp only [put_same, Task.phaseOf_stored] at hc
        split at hc <;> cases hc
    · simp only [put_of_ne _ _ hg] at hc
      refine keep hc (fun u hu => ?_) fun ht => absurd ht (not_granting hk ?_)
      · rw [past_write _ hn, holds_write]
        exact ⟨hu, fun e => hg e.2.2.symm⟩
      · cases Task.writes hn with
        | claim hp | store hp => simp [hp]

theorem Path.covered (hz : ∀ g c, (sch g).phaseOf (cells g) ≠ .underWay c) (hp : Path sch ok (start cells) l)
    (hr : ∀ u c code, .call u (.refused c code) ∉ l.past) : l.Covered sch := by
  induction hp with
  | refl => exact fun g c hc => absurd hc (hz g c)
  | @step l l' t d hp _ _ hs ih =>
    obtain ⟨es, he, -⟩ := hs.news
    have hl := ih fun u c code hm => hr u c code (he ▸ List.mem_append_left es hm)
    refine hl.step hp.sound hs ?_
    rintro c rfl
    cases hs with
    | refused code => exact hr t c code (by simp [advance])

end Ledger
end OnceInit

import OnceInit.Proofs.Refine
import OnceInit.Proofs.Waiting

/-! No wake-up is lost. Between the steps of a process nobody is on the way to a broadcast, so that a thread sleeps
either over a cell that is under way or because a release or an abort has failed to tell it. Callers need not
keep to any contract, and cells may begin with any bytes. -/

namespace OnceInit

theorem not_botched {h : List Event} {t : ThreadId} {g : GuardId}
    (hn : ∀ u c code, .call u (.refused c code) ∉ h) : ¬ Botched g (sinceSlept t h) := by
  rintro ⟨a, u, op, c, x, call, code, f, y, hs, -, -, -, hr, -⟩
  have hp : sinceSlept t h <:+ h := List.rtakeWhile_suffix _ _
  apply hn u call code
  apply hp.subset
  rw [hs]
  simp [hr]

namespace Machine

variable {s : Setup} {sch : GuardId → Scheme} {ok : Op → Purpose → Prop} {cells : GuardId → Cell}
  {m : Machine} {h : List Event} {t : ThreadId} {k : Task}

theorem Seated.idle (hm : m.Seated) (hs : m.settled = true) : m.running = none := by
  by_cases hf : m.fate = none
  · exact (idle_of_settled hs hf).1
  · exact hm.ended hf

theorem Seated.not_late (hm : m.Seated) (hs : m.settled = true) (hk : m.tasks t = some k) :
    k.point.late = false := by
  have hr : m.running ≠ some t := by
    rw [hm.idle hs]
    exact nofun
  rcases hm.parked t k hk hr with hp | hp <;> rw [hp] <;> rfl

theorem token_of_known {me : Token} (hk : m.tokens.known t = some me) : m.token s t = me := by
  rw [token, Registry.ask_known hk]

/-- Between steps, a thread asleep in an acquire of a guard either has a claim to wait for, or a release or an abort
that wrote the guard since has failed at its unlock or its broadcast. Where no call fails it is a claim, and not the
thread's own. -/
theorem no_lost_wakeup (hr : Reaches s (Step.Drives s sch ok) (.start cells) m h)
    (hs : m.settled = true) (ht : t ∈ m.sleepers) :
    ∃ k, m.tasks t = some k ∧ k.op = .acquire ∧
      ((∃ c, (sch k.guard).phaseOf (m.cells k.guard) = .underWay c) ∨
        Botched k.guard (sinceSlept t h)) ∧
      ((∀ u c code, .call u (.refused c code) ∉ h) →
        ∃ c, (sch k.guard).phaseOf (m.cells k.guard) = .underWay c ∧ c ≠ .takenBy (m.token s t)) := by
  have hm := hr.keeps
  obtain ⟨k, me, ha⟩ := hm.path.watched t ht
  have hb : Unannounced k.guard (sinceSlept t h) → Botched k.guard (sinceSlept t h) :=
    hm.path.accounted.botched fun u k' hk' => hm.seated.not_late hs hk'
  refine ⟨k, ha.task, ha.acquires, ?_, ?_⟩
  · rcases ha.watched with ⟨c, hc, -⟩ | hu
    · exact .inl ⟨c, hc⟩
    · exact .inr (hb hu)
  · intro hn
    rw [token_of_known ha.known]
    exact ha.watched.resolve_right fun hu => not_botched hn (hb hu)

/-- A release fails at its broadcast, and its sleeper is left to wait for a guard that is complete. -/
theorem no_lost_wakeup_unannounced : ∃ m h,
    Reaches (.plain .owner) (Step.Drives (.plain .owner) (fun _ => .owner) fun _ _ => True)
      (.start fun _ => .zero .wide) m h ∧
    m.settled = true ∧ 1 ∈ m.sleepers ∧ Scheme.owner.phaseOf (m.cells 0) = .complete ∧
    Botched 0 (sinceSlept 1 h) := by
  have hr : Reaches (.plain .owner) (Step.Drives (.plain .owner) (fun _ => .owner) fun _ _ => True)
      (.start fun _ => .zero .wide) _ [] := .start
  have hd := Setup.plain_drives .owner
  have h₁ := (hr.begin (.act 0 0 none (some .acquire)) (by decide) (by decide) (hd 0 0 .acquire)).turns 9
  have h₂ := (h₁.begin (.act 1 0 none (some .acquire)) (by decide) (by decide) (hd 1 0 .acquire)).turns 9
  have h₃ := h₂.begin (.fault .broadcast ⟨5, 0⟩) (by decide) (by decide) trivial
  have h₄ := (h₃.begin (.act 0 0 none (some .release)) (by decide) (by decide) (hd 0 0 .release)).turns 9
  obtain ⟨k, hk, -, hw, -⟩ := no_lost_wakeup (t := 1) h₄ (by decide) (by decide)
  have hg : k = ⟨.acquire, 0, .owner, .plain, .waking⟩ := Option.some.inj (hk.symm.trans (by decide))
  subst hg
  refine ⟨_, _, h₄, by decide, by decide, by decide, hw.resolve_left ?_⟩
  rintro ⟨c, hc⟩
  exact absurd (hc.symm.trans (by decide : _ = Phase.complete)) (by simp)

end Machine
end OnceInit

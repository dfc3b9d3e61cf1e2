import OnceInit.Proofs.Holding
import OnceInit.Proofs.Refine

/-! A variable is initialized once. Callers who release and abort only what they hold find that a guard has one
holder at a time, that nobody is granted a guard after a release, and that nobody is told that another has
done the work before that is so. Faults of the platform change nothing about it. -/

namespace OnceInit

/-- What callers may rely on, where the cells are `cells` after the history `h`. -/
structure Exclusive (sch : GuardId → Scheme) (cells : GuardId → Cell) (h : List Event) : Prop where
  one : ∀ t u g, Holds h t g → Holds h u g → t = u
  underWay : ∀ t g, Holds h t g → ∃ c, (sch g).phaseOf (cells g) = .underWay c
  final : ∀ a t g c b, h = a ++ .write t .release g c :: b →
    (sch g).phaseOf (cells g) = .complete ∧
    (∀ u, .ended u .acquire g (.gives (.granted true)) ∉ b) ∧
    ∀ u op d, .write u op g d ∈ b → op.settles = false
  refused : ∀ a t g b, h = a ++ .ended t .acquire g (.gives (.granted false)) :: b →
    ∃ x u c y, a = x ++ .write u .release g c :: y ∧ Holds x u g

namespace Ledger

variable {cells : GuardId → Cell} {sch : GuardId → Scheme} {l : Ledger}

theorem Held.exclusive (hl : l.Held cells sch) (hz : ∀ g, (cells g).isComplete = false) :
    Exclusive sch l.cells l.past where
  one := hl.only
  underWay := fun t g hh => hl.phaseOf hh
  final := by
    intro a t g c b hs
    have hp := hl.proper
    rw [hs] at hp
    have released : ∀ p, Event.write t .release g c ∈ p → Released p g := fun p hm => ⟨t, c, hm⟩
    refine ⟨?_, ?_, ?_⟩
    · rw [Scheme.phaseOf_eq_complete_iff, hl.complete]
      exact .inr (released _ (by simp [hs]))
    · intro u hu
      obtain ⟨p, hm, hq⟩ := hp.after hu
      exact hq (released p hm)
    · intro u op d hu
      obtain ⟨p, hm, hq⟩ := hp.after hu
      by_contra ho
      exact (hq (by simpa using ho)).2 (released p hm)
  refused := by
    intro a t g b hs
    have hq := hl.proper a _ b hs
    simp only [Event.Proper, hz, Bool.false_eq_true, false_or] at hq
    obtain ⟨u, c, hm⟩ := hq
    obtain ⟨x, y, rfl⟩ := List.append_of_mem hm
    refine ⟨x, u, c, y, rfl, ?_⟩
    exact (hl.proper x (.write u .release g c) _ (by rw [hs, List.append_assoc, List.cons_append]) rfl).1

end Ledger

namespace Machine

/-- Whatever fails and whoever wakes, at any point of any run. -/
theorem exactly_once {s : Setup} {sch : GuardId → Scheme} {w : GuardId → Width} {m : Machine}
    {h : List Event} (hr : Reaches s (Step.Drives s sch fun _ _ => True) (.start fun g => .zero (w g)) m h)
    (hc : Contract h) : Exclusive sch m.cells h :=
  (hr.keeps.path.held hc).exclusive fun g => Cell.isComplete_zero (w g)

/-- A release whose broadcast fails, and a sleeper that wakes for no reason. -/
theorem exactly_once_unannounced : ∃ m h,
    Reaches (.plain .owner) (Step.Drives (.plain .owner) (fun _ => .owner) fun _ _ => True)
      (.start fun _ => .zero .wide) m h ∧
    Contract h ∧ .ended 0 .release 0 (.fails (.ofCall .release .broadcast 5)) ∈ h ∧
    .ended 1 .acquire 0 (.gives (.granted false)) ∈ h ∧ Exclusive (fun _ => .owner) m.cells h := by
  have hr : Reaches (.plain .owner) (Step.Drives (.plain .owner) (fun _ => .owner) fun _ _ => True)
      (.start fun _ => .zero .wide) _ [] := .start
  have hd := Setup.plain_drives .owner
  have h₁ := (hr.begin (.act 0 0 none (some .acquire)) (by decide) (by decide) (hd 0 0 .acquire)).turns 9
  have h₂ := (h₁.begin (.act 1 0 none (some .acquire)) (by decide) (by decide) (hd 1 0 .acquire)).turns 9
  have h₃ := h₂.begin (.fault .broadcast ⟨5, 0⟩) (by decide) (by decide) trivial
  have h₄ := (h₃.begin (.act 0 0 none (some .release)) (by decide) (by decide) (hd 0 0 .release)).turns 9
  have h₅ := (h₄.begin (.spurious 1) (by decide) (by decide) trivial).turns 9
  exact ⟨_, _, h₅, by decide, by decide, by decide, exactly_once h₅ (by decide)⟩

end Machine
end OnceInit

import OnceInit.Machine.Event
import Mathlib.Data.List.Induction

/-! What a history of events says about guards: who holds one, whether one has been released, and whether
callers have kept to their part. A history grows at its end, and a law of histories speaks about each event
and what was before it. -/

namespace OnceInit

def Event.holding (t : ThreadId) (g : GuardId) (held : Bool) : Event → Bool
  | .ended u .acquire d (.gives (.granted true)) => held || (u == t && d == g)
  | .write u op d _ => held && !(op.settles && u == t && d == g)
  | _ => held

/-- `t` holds `g` from the end of the acquire that granted it until `t` writes it in a release or an abort. -/
def Holds (h : List Event) (t : ThreadId) (g : GuardId) : Prop :=
  h.foldl (Event.holding t g) false = true

instance (h : List Event) (t : ThreadId) (g : GuardId) : Decidable (Holds h t g) :=
  inferInstanceAs (Decidable (_ = true))

def Released (h : List Event) (g : GuardId) : Prop := ∃ t c, .write t .release g c ∈ h

def Each (Q : List Event → Event → Prop) (h : List Event) : Prop := ∀ a e b, h = a ++ e :: b → Q a e

/-- The part of the callers: who begins a release or an abort holds the guard. -/
def Event.Entitled (past : List Event) : Event → Prop
  | .began t op g => op.settles = true → Holds past t g
  | _ => True

def Contract (h : List Event) : Prop := Each Event.Entitled h

variable {Q : List Event → Event → Prop} {h : List Event} {t u : ThreadId} {g d : GuardId}

theorem each_nil : Each Q [] := by
  intro a e b hs
  simp at hs

theorem each_concat {e : Event} : Each Q (h ++ [e]) ↔ Each Q h ∧ Q h e := by
  constructor
  · intro hq
    refine ⟨fun a x b hs => hq a x (b ++ [e]) (by simp [hs]), hq h e [] rfl⟩
  · rintro ⟨hh, he⟩ a x b hs
    rcases List.eq_nil_or_concat b with rfl | ⟨b, y, rfl⟩
    · obtain ⟨rfl, hx⟩ := List.append_inj' hs rfl
      cases hx
      exact he
    · rw [List.concat_eq_append, ← List.cons_append, ← List.append_assoc] at hs
      exact hh a x b (List.append_inj' hs rfl).1

theorem each_append {es : List Event} :
    Each Q (h ++ es) ↔ Each Q h ∧ Each (fun a e => Q (h ++ a) e) es := by
  induction es using List.reverseRecOn with
  | nil => simp [each_nil]
  | append_singleton es e ih => rw [← List.append_assoc, each_concat, ih, each_concat, and_assoc]

theorem each_cons {e : Event} {es : List Event} :
    Each Q (e :: es) ↔ Q [] e ∧ Each (fun a x => Q (e :: a) x) es := by
  have hs : Each Q ([e] ++ es) ↔ Each Q [e] ∧ Each (fun a x => Q ([e] ++ a) x) es := each_append
  rw [← List.nil_append [e], each_concat] at hs
  simpa [each_nil] using hs

theorem Each.left {es : List Event} (hq : Each Q (h ++ es)) : Each Q h := (each_append.mp hq).1

theorem Each.append {es : List Event} (hq : Each Q h) (hs : ∀ e ∈ es, ∀ a, Q a e) : Each Q (h ++ es) := by
  refine each_append.mpr ⟨hq, ?_⟩
  intro a e b he
  exact hs e (by simp [he]) _

theorem Each.after {a b : List Event} {e x : Event} (hq : Each Q (a ++ e :: b)) (hx : x ∈ b) :
    ∃ p, e ∈ p ∧ Q p x := by
  obtain ⟨b₁, b₂, rfl⟩ := List.append_of_mem hx
  exact ⟨a ++ e :: b₁, by simp, hq (a ++ e :: b₁) x b₂ (by simp)⟩

instance decidableEach (Q : List Event → Event → Prop) [∀ a e, Decidable (Q a e)] :
    ∀ h, Decidable (Each Q h)
  | [] => isTrue each_nil
  | e :: es =>
    have : Decidable (Each (fun a x => Q (e :: a) x) es) := decidableEach _ es
    decidable_of_iff _ each_cons.symm

instance (a : List Event) (e : Event) : Decidable (e.Entitled a) := by
  unfold Event.Entitled
  split <;> infer_instance

instance (h : List Event) : Decidable (Contract h) := inferInstanceAs (Decidable (Each _ h))

theorem not_holds_nil : ¬ Holds [] t g := by
  simp [Holds]

theorem holds_concat {e : Event} :
    Holds (h ++ [e]) t g ↔ e.holding t g (decide (Holds h t g)) = true := by
  have hd : decide (Holds h t g) = h.foldl (Event.holding t g) false :=
    Bool.eq_iff_iff.mpr decide_eq_true_iff
  rw [hd, Holds, List.foldl_append]
  rfl

theorem holds_granted : Holds (h ++ [.ended u .acquire d (.gives (.granted true))]) t g ↔
    Holds h t g ∨ u = t ∧ d = g := by
  simp [holds_concat, Event.holding]

theorem holds_not_granted {op : Op} : Holds (h ++ [.ended u op d (.gives (.granted false))]) t g ↔
    Holds h t g := by
  cases op <;> simp [holds_concat, Event.holding]

theorem holds_write {op : Op} {c : Cell} : Holds (h ++ [.write u op d c]) t g ↔
    Holds h t g ∧ ¬ (op.settles = true ∧ u = t ∧ d = g) := by
  simp [holds_concat, Event.holding, or_assoc, imp_iff_not_or]

theorem holds_append {es : List Event} (hs : ∀ e ∈ es, ∀ b, e.holding t g b = b) :
    Holds (h ++ es) t g ↔ Holds h t g := by
  induction es using List.reverseRecOn with
  | nil => simp
  | append_singleton es e ih =>
    rw [← List.append_assoc, holds_concat, hs e (by simp), decide_eq_true_iff]
    exact ih fun x hx => hs x (by simp [hx])

theorem released_append {es : List Event} (hs : ∀ e ∈ es, ∀ t c, e ≠ .write t .release g c) :
    Released (h ++ es) g ↔ Released h g := by
  constructor
  · intro hr
    obtain ⟨t, c, hm⟩ := hr
    rcases List.mem_append.mp hm with hm | hm
    · exact ⟨t, c, hm⟩
    · exact absurd rfl (hs _ hm t c)
  · intro hr
    obtain ⟨t, c, hm⟩ := hr
    exact ⟨t, c, List.mem_append_left _ hm⟩

theorem released_concat {e : Event} :
    Released (h ++ [e]) g ↔ Released h g ∨ ∃ t c, e = .write t .release g c := by
  simp only [Released, List.mem_append, List.mem_singleton]
  constructor
  · rintro ⟨t, c, hm | rfl⟩
    · exact .inl ⟨t, c, hm⟩
    · exact .inr ⟨t, c, rfl⟩
  · rintro (⟨t, c, hm⟩ | ⟨t, c, rfl⟩)
    · exact ⟨t, c, .inl hm⟩
    · exact ⟨t, c, .inr rfl⟩

end OnceInit

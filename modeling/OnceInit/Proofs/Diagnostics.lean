import OnceInit.Machine.Basic
import Mathlib.Logic.Function.Basic

/-! What can be told from the message of a failure. It is put together from pieces that are not set off from one
another, and the name of a call among them may be any text, the words of a message included. Still no two failures have
the same message: read from the left it gives the operation and the kind, and after its last space comes the code. -/

namespace OnceInit

/-- No text of `f` begins another, so that whatever follows one of them can be split off. -/
def PrefixFree {α : Type} (f : α → String) : Prop := ∀ a b, (f a).toList <+: (f b).toList → a = b

theorem PrefixFree.append_inj {α : Type} {f : α → String} (hf : PrefixFree f) {a b : α} {x y : List Char}
    (h : (f a).toList ++ x = (f b).toList ++ y) : a = b ∧ x = y := by
  have hab : a = b := by
    have ha : (f a).toList <+: (f b).toList ++ y := h ▸ List.prefix_append ..
    rcases List.prefix_or_prefix_of_prefix ha (List.prefix_append ..) with hp | hp
    · exact hf a b hp
    · exact (hf b a hp).symm
  subst hab
  exact ⟨rfl, List.append_cancel_left h⟩

theorem prefixFree_symbol : PrefixFree Op.symbol := by
  intro a b
  cases a <;> cases b <;> decide

theorem prefixFree_describe : PrefixFree Kind.describe := by
  intro a b
  cases a <;> cases b <;> decide

theorem nil_of_lastWord {v w z : List Char} (hv : ' ' ∉ v) (h : ' ' :: v = z ++ ' ' :: w) : z = [] ∧ v = w := by
  cases z with
  | nil => exact ⟨rfl, (List.cons.inj h).2⟩
  | cons c z =>
    have hz : v = z ++ ' ' :: w := (List.cons.inj h).2
    exact absurd (hz ▸ List.mem_append_right z List.mem_cons_self) hv

theorem lastWord_inj {x y v w : List Char} (hv : ' ' ∉ v) (hw : ' ' ∉ w) (h : x ++ ' ' :: v = y ++ ' ' :: w) :
    x = y ∧ v = w := by
  rcases List.append_eq_append_iff.mp h with ⟨z, hy, hz⟩ | ⟨z, hx, hz⟩
  · obtain ⟨rfl, hvw⟩ := nil_of_lastWord hv hz
    exact ⟨by rw [hy, List.append_nil], hvw⟩
  · obtain ⟨rfl, hwv⟩ := nil_of_lastWord hw hz
    exact ⟨by rw [hx, List.append_nil], hwv.symm⟩

theorem isDigit_of_mem_digits {n : Nat} {c : Char} (h : c ∈ n.repr.toList) : c.isDigit = true :=
  Nat.isDigit_of_mem_toDigits (by decide) (by decide) (Nat.toList_repr ▸ h)

theorem digits_injective : Function.Injective Nat.repr := by
  intro m n h
  have hd : Nat.toDigits 10 m = Nat.toDigits 10 n := by rw [← Nat.toList_repr, ← Nat.toList_repr, h]
  rw [← Nat.ofDigitChars_ten_toDigits (n := m), hd, Nat.ofDigitChars_ten_toDigits]

theorem digits_ne_signed (m n : Nat) : m.repr ≠ "-" ++ n.repr := by
  intro h
  have hm : '-' ∈ m.repr.toList := h ▸ by simp
  exact absurd (isDigit_of_mem_digits hm) (by decide)

theorem numeral_mem {n : Int} {c : Char} (h : c ∈ n.repr.toList) : c.isDigit = true ∨ c = '-' := by
  rw [Int.repr_eq_if] at h
  split at h
  · exact .inl (isDigit_of_mem_digits h)
  · rw [String.toList_append, List.mem_append] at h
    rcases h with h | h
    · exact .inr (by simpa using h)
    · exact .inl (isDigit_of_mem_digits h)

theorem numeral_injective : Function.Injective Int.repr := by
  intro m n h
  rw [Int.repr_eq_if, Int.repr_eq_if] at h
  split at h <;> split at h
  · have hd := digits_injective h
    omega
  · exact absurd h (digits_ne_signed _ _)
  · exact absurd h.symm (digits_ne_signed _ _)
  · have hd := digits_injective ((String.append_right_inj _).mp h)
    omega

theorem numeral_ne_failed (n : Int) : n.repr.toList ≠ "failed".toList := by
  intro h
  have hf : 'f' ∈ n.repr.toList := h ▸ (by decide)
  exact absurd (numeral_mem hf) (by decide)

namespace Cause

variable {c d : Cause}

def stem (c : Cause) : List Char := c.call.toList ++ if c.code = none then [] else " failed with error code".toList

def lastWord (c : Cause) : List Char :=
  match c.code with
  | some n => n.repr.toList
  | none => "failed".toList

theorem toList_message (c : Cause) : c.message.toList = c.stem ++ ' ' :: c.lastWord := by
  rcases c with ⟨call, _ | n⟩ <;> simp [message, stem, lastWord]

theorem space_not_mem_lastWord (c : Cause) : ' ' ∉ c.lastWord := by
  rcases c with ⟨call, _ | n⟩
  · exact (by decide : ' ' ∉ "failed".toList)
  · intro h
    exact absurd (numeral_mem h) (by decide)

theorem code_of_lastWord (h : c.lastWord = d.lastWord) : c.code = d.code := by
  rcases c with ⟨_, _ | m⟩ <;> rcases d with ⟨_, _ | n⟩
  · rfl
  · exact absurd h.symm (numeral_ne_failed n)
  · exact absurd h (numeral_ne_failed m)
  · exact congrArg some (numeral_injective (String.toList_inj.mp h))

theorem newline_mem_message (c : Cause) : '\n' ∈ c.message.toList ↔ '\n' ∈ c.call.toList := by
  rw [toList_message]
  rcases c with ⟨call, _ | n⟩
  · simp [stem, lastWord]
  · have hn : '\n' ∉ n.repr.toList := fun h => absurd (numeral_mem h) (by decide)
    simp [stem, lastWord, hn]

theorem message_injective : Function.Injective message := by
  intro c d h
  have hl : c.stem ++ ' ' :: c.lastWord = d.stem ++ ' ' :: d.lastWord := by
    rw [← toList_message, ← toList_message, h]
  obtain ⟨hs, hw⟩ := lastWord_inj c.space_not_mem_lastWord d.space_not_mem_lastWord hl
  have hc : c.code = d.code := code_of_lastWord hw
  rw [stem, stem, hc] at hs
  cases c
  cases d
  cases hc
  cases String.toList_inj.mp (List.append_cancel_right hs)
  rfl

example : (Cause.mk "f failed with error code 5" none).message = "f failed with error code 5 failed" := rfl

end Cause

namespace Failure

def detail : Option Cause → List Char
  | some c => " (".toList ++ c.message.toList ++ ")".toList
  | none => []

theorem toList_message (f : Failure) :
    f.message.toList = f.op.symbol.toList ++ (' ' :: (f.kind.describe.toList ++ detail f.cause)) := by
  rcases f with ⟨op, kind, _ | c⟩ <;> simp [message, detail]

theorem detail_injective : Function.Injective detail := by
  intro c d h
  cases c <;> cases d
  · rfl
  · simp [detail] at h
  · simp [detail] at h
  · have hm := List.append_cancel_left (List.append_cancel_right h)
    rw [Cause.message_injective (String.toList_inj.mp hm)]

theorem message_injective : Function.Injective message := by
  intro f g h
  have hl := congrArg String.toList h
  rw [toList_message, toList_message] at hl
  obtain ⟨hop, hrest⟩ := prefixFree_symbol.append_inj hl
  obtain ⟨hkind, hcause⟩ := prefixFree_describe.append_inj (List.cons.inj hrest).2
  cases f
  cases g
  cases hop
  cases hkind
  cases detail_injective hcause
  rfl

theorem newline_mem_message (f : Failure) :
    '\n' ∈ f.message.toList ↔ ∃ c ∈ f.cause, '\n' ∈ c.call.toList := by
  have hop : '\n' ∉ f.op.symbol.toList := by cases f.op <;> decide
  have hkind : '\n' ∉ f.kind.describe.toList := by cases f.kind <;> decide
  rw [toList_message]
  cases f.cause with
  | none => simp [detail, hop, hkind]
  | some c => simp [detail, hop, hkind, c.newline_mem_message]

end Failure

def lastWords : Option Failure → String
  | some f => f.message ++ "\n"
  | none => ""

theorem Machine.stderr_eq (m : Machine) : m.stderr = lastWords m.fate := rfl

theorem lastWords_injective : Function.Injective lastWords := by
  intro f g h
  have hl := congrArg String.toList h
  cases f <;> cases g
  · rfl
  · simp [lastWords] at hl
  · simp [lastWords] at hl
  · simp only [lastWords, String.toList_append] at hl
    rw [Failure.message_injective (String.toList_inj.mp (List.append_cancel_right hl))]

/-- The message tells the operation, the kind, and the cause with its call and code. So does the text that a process
leaves behind, which is one line if the name of the call is. -/
theorem Machine.diagnostic_unambiguous : Function.Injective Failure.message ∧
    (∀ m n : Machine, m.stderr = n.stderr ↔ m.fate = n.fate) ∧
    ∀ f : Failure, '\n' ∈ f.message.toList ↔ ∃ c ∈ f.cause, '\n' ∈ c.call.toList := by
  refine ⟨Failure.message_injective, fun m n => ?_, Failure.newline_mem_message⟩
  rw [stderr_eq, stderr_eq]
  exact lastWords_injective.eq_iff

end OnceInit

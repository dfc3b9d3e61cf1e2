/-! The memory of a guard: four or eight bytes, lowest address first. The lowest byte says whether the
variable has been initialized. A narrow cell looks at its lowest bit alone, a wide cell at the whole byte. -/

namespace OnceInit

inductive Width
  | narrow
  | wide
  deriving DecidableEq

def Width.size : Width → Nat
  | .narrow => 4
  | .wide => 8

inductive Cell
  | narrow (b₀ b₁ b₂ b₃ : UInt8)
  | wide (b₀ b₁ b₂ b₃ b₄ b₅ b₆ b₇ : UInt8)
  deriving DecidableEq

namespace Cell

def width : Cell → Width
  | narrow .. => .narrow
  | wide .. => .wide

def bytes : Cell → List UInt8
  | narrow b₀ b₁ b₂ b₃ => [b₀, b₁, b₂, b₃]
  | wide b₀ b₁ b₂ b₃ b₄ b₅ b₆ b₇ => [b₀, b₁, b₂, b₃, b₄, b₅, b₆, b₇]

theorem bytes_length (c : Cell) : c.bytes.length = c.width.size := by
  cases c <;> rfl

def ofBytes? : Width → List UInt8 → Option Cell
  | .narrow, [b₀, b₁, b₂, b₃] => some (narrow b₀ b₁ b₂ b₃)
  | .wide, [b₀, b₁, b₂, b₃, b₄, b₅, b₆, b₇] => some (wide b₀ b₁ b₂ b₃ b₄ b₅ b₆ b₇)
  | _, _ => none

theorem ofBytes?_bytes (c : Cell) : ofBytes? c.width c.bytes = some c := by
  cases c <;> rfl

def zero : Width → Cell
  | .narrow => narrow 0 0 0 0
  | .wide => wide 0 0 0 0 0 0 0 0

@[simp] theorem width_zero (w : Width) : (zero w).width = w := by
  cases w <;> rfl

def isZero (c : Cell) : Bool := c.bytes.all (· == 0)

theorem isZero_iff (c : Cell) : c.isZero = true ↔ c = zero c.width := by
  cases c <;> simp [isZero, bytes, zero, width]

def isComplete : Cell → Bool
  | narrow b₀ _ _ _ => b₀ &&& 1 != 0
  | wide b₀ _ _ _ _ _ _ _ => b₀ != 0

/-- Marks the variable as initialized and keeps all other bytes. -/
def complete : Cell → Cell
  | narrow b₀ b₁ b₂ b₃ => narrow (b₀ ||| 1) b₁ b₂ b₃
  | wide _ b₁ b₂ b₃ b₄ b₅ b₆ b₇ => wide 1 b₁ b₂ b₃ b₄ b₅ b₆ b₇

@[simp] theorem width_complete (c : Cell) : c.complete.width = c.width := by
  cases c <;> rfl

@[simp] theorem isComplete_zero (w : Width) : (zero w).isComplete = false := by
  cases w <;> rfl

theorem isComplete_complete (c : Cell) : c.complete.isComplete = true := by
  cases c with
  | narrow b₀ b₁ b₂ b₃ =>
    have h : (b₀ ||| 1) &&& 1 = 1 := by
      rw [UInt8.and_comm, UInt8.or_comm]
      exact UInt8.toNat_inj.mp (by simp [Nat.and_one_is_mod, Nat.and_comm 1])
    simp [complete, isComplete, h]
  | wide => rfl

example : (narrow 0xfe 1 0 0).isComplete = false ∧ (narrow 0xfe 1 0 0).complete = narrow 0xff 1 0 0 ∧
    (wide 0xfe 1 0 0 0 0 0 0).isComplete = true := by decide

end Cell
end OnceInit

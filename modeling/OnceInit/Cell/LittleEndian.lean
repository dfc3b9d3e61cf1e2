/-! A 32-bit number in four bytes, lowest first. Splitting and joining undo each other. -/

namespace OnceInit.LittleEndian

def value (b₀ b₁ b₂ b₃ : UInt8) : Nat :=
  b₀.toNat + 256 * b₁.toNat + 65536 * b₂.toNat + 16777216 * b₃.toNat

theorem value_lt (b₀ b₁ b₂ b₃ : UInt8) : value b₀ b₁ b₂ b₃ < UInt32.size := by
  have h₀ := b₀.toNat_lt
  have h₁ := b₁.toNat_lt
  have h₂ := b₂.toNat_lt
  have h₃ := b₃.toNat_lt
  simp only [value, UInt32.size]
  omega

def join (b₀ b₁ b₂ b₃ : UInt8) : UInt32 := UInt32.ofNat (value b₀ b₁ b₂ b₃)

theorem join_toNat (b₀ b₁ b₂ b₃ : UInt8) : (join b₀ b₁ b₂ b₃).toNat = value b₀ b₁ b₂ b₃ := by
  simp only [join, UInt32.toNat_ofNat']
  exact Nat.mod_eq_of_lt (value_lt b₀ b₁ b₂ b₃)

def byte (n : UInt32) (k : Nat) : UInt8 := UInt8.ofNat (n.toNat / Nat.pow 256 k)

theorem byte_toNat (n : UInt32) (k : Nat) : (byte n k).toNat = n.toNat / Nat.pow 256 k % 256 := by
  simp [byte]

theorem join_byte (n : UInt32) : join (byte n 0) (byte n 1) (byte n 2) (byte n 3) = n := by
  apply UInt32.toNat_inj.mp
  have h := n.toNat_lt
  simp only [join_toNat, value, byte_toNat, Nat.pow_eq, Nat.reducePow]
  omega

theorem byte_join (b₀ b₁ b₂ b₃ : UInt8) :
    byte (join b₀ b₁ b₂ b₃) 0 = b₀ ∧ byte (join b₀ b₁ b₂ b₃) 1 = b₁ ∧
      byte (join b₀ b₁ b₂ b₃) 2 = b₂ ∧ byte (join b₀ b₁ b₂ b₃) 3 = b₃ := by
  have h₀ := b₀.toNat_lt
  have h₁ := b₁.toNat_lt
  have h₂ := b₂.toNat_lt
  have h₃ := b₃.toNat_lt
  refine ⟨?_, ?_, ?_, ?_⟩ <;> apply UInt8.toNat_inj.mp <;>
    simp only [byte_toNat, join_toNat, value, Nat.pow_eq, Nat.reducePow] <;> omega

theorem join_eq_zero (b₀ b₁ b₂ b₃ : UInt8) :
    join b₀ b₁ b₂ b₃ = 0 ↔ b₀ = 0 ∧ b₁ = 0 ∧ b₂ = 0 ∧ b₃ = 0 := by
  simp only [← UInt32.toNat_inj, ← UInt8.toNat_inj, join_toNat, value]
  simp
  omega

end OnceInit.LittleEndian

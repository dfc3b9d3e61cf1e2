import OnceInit.Cell.Phase
import Mathlib.Logic.Function.Basic

/-! The two fields of a cell: whether its variable is complete, and who claims it. Each is written without a trace in
the other, and read without a look at the other. -/

namespace OnceInit

namespace Cell

def slot (c : Cell) : List UInt8 := c.bytes.drop 4

def flag (c : Cell) : Option UInt8 := c.bytes[1]?

@[simp] theorem complete_complete (c : Cell) : c.complete.complete = c.complete := by
  cases c with
  | narrow => simp only [complete, UInt8.or_assoc, UInt8.or_self]
  | wide => rfl

theorem bytes_complete_tail (c : Cell) : c.complete.bytes.tail = c.bytes.tail := by
  cases c <;> rfl

end Cell

/-- What is written into one field of a cell is read there, and nowhere else. -/
structure Scheme.Separates (s : Scheme) : Prop where
  incomplete : ∀ w t, (s.claimed w t).isComplete = false
  claimed : ∀ w t, s.claimOf (s.claimed w t) = if s.noticesOwner w then .takenBy t else .taken
  distinct : ∀ w, s.noticesOwner w = true → Function.Injective (s.claimed w)
  restored : ∀ c : Cell, s.noticesOwner c.width = true → c.slot ≠ .replicate 4 0 → c.bytes.take 4 = .replicate 4 0 →
    ∃ t, s.claimOf c = .takenBy t ∧ s.claimed c.width t = c
  idempotent : ∀ c : Cell, c.complete.complete = c.complete
  complete : ∀ c : Cell, c.complete.isComplete = true
  lowest : ∀ c : Cell, c.complete.width = c.width ∧ c.complete.bytes.tail = c.bytes.tail
  survives : ∀ c : Cell, s.claimOf c.complete = s.claimOf c ∧ s.phaseOf c.complete = .complete
  slot : ∀ c d : Cell, s.noticesOwner c.width = true → d.width = c.width → d.slot = c.slot → s.claimOf d = s.claimOf c
  flag : ∀ c d : Cell, s.noticesOwner c.width = false → d.width = c.width → (d.flag = some 0 ↔ c.flag = some 0) →
    s.claimOf d = s.claimOf c

namespace Scheme

variable {s : Scheme} {w : Width} {t u : Token} {c d : Cell}

theorem noticesOwner_iff : s.noticesOwner w = true ↔ s = .owner ∧ w = .wide := by
  cases s <;> cases w <;> simp [noticesOwner]

theorem claimed_injective (hn : s.noticesOwner w = true) : Function.Injective (s.claimed w) := by
  intro t u h
  have hc := congrArg s.claimOf h
  simpa only [claimOf_claimed, hn, if_true, Claim.takenBy.injEq] using hc

theorem claimOf_owner (b₀ b₁ b₂ b₃ : UInt8) {b₄ b₅ b₆ b₇ : UInt8} (h : [b₄, b₅, b₆, b₇] ≠ .replicate 4 0) :
    ∃ t, owner.claimOf (.wide b₀ b₁ b₂ b₃ b₄ b₅ b₆ b₇) = .takenBy t ∧ t.raw = LittleEndian.join b₄ b₅ b₆ b₇ := by
  have hz : LittleEndian.join b₄ b₅ b₆ b₇ ≠ 0 := by
    rw [Ne, LittleEndian.join_eq_zero]
    rintro ⟨rfl, rfl, rfl, rfl⟩
    exact h rfl
  refine ⟨⟨_, hz⟩, ?_, rfl⟩
  simp only [claimOf, Token.ofRaw?, dif_pos hz]

example : owner.claimOf (.wide 7 1 2 3 0xef 0xbe 0xad 0xde) = .takenBy ⟨0xdeadbeef, by decide⟩ := by decide

theorem claimed_claimOf (hn : s.noticesOwner c.width = true) (hs : c.slot ≠ .replicate 4 0)
    (hz : c.bytes.take 4 = .replicate 4 0) : ∃ t, s.claimOf c = .takenBy t ∧ s.claimed c.width t = c := by
  obtain ⟨rfl, hw⟩ := noticesOwner_iff.mp hn
  cases c with
  | narrow => cases hw
  | wide b₀ b₁ b₂ b₃ b₄ b₅ b₆ b₇ =>
    obtain ⟨rfl, rfl, rfl, rfl⟩ : b₀ = 0 ∧ b₁ = 0 ∧ b₂ = 0 ∧ b₃ = 0 := by
      simpa [Cell.bytes, List.replicate] using hz
    obtain ⟨t, ht, hr⟩ := claimOf_owner 0 0 0 0 hs
    obtain ⟨h₄, h₅, h₆, h₇⟩ := LittleEndian.byte_join b₄ b₅ b₆ b₇
    exact ⟨t, ht, by simp only [Cell.width, Scheme.claimed, hr, h₄, h₅, h₆, h₇]⟩

theorem claimOf_eq_of_slot (hn : s.noticesOwner c.width = true) (hw : d.width = c.width) (hs : d.slot = c.slot) :
    s.claimOf d = s.claimOf c := by
  obtain ⟨rfl, hc⟩ := noticesOwner_iff.mp hn
  cases c with
  | narrow => cases hc
  | wide =>
    cases d with
    | narrow => cases hw
    | wide =>
      obtain ⟨rfl, rfl, rfl, rfl⟩ := by simpa [Cell.slot, Cell.bytes] using hs
      rfl

theorem claimOf_of_not_noticesOwner (hn : s.noticesOwner c.width = false) :
    s.claimOf c = if c.flag = some 0 then .free else .taken := by
  cases s <;> cases c <;> simp_all [noticesOwner, Cell.width, claimOf, Cell.flag, Cell.bytes]

theorem claimOf_eq_of_flag (hn : s.noticesOwner c.width = false) (hw : d.width = c.width)
    (hf : d.flag = some 0 ↔ c.flag = some 0) : s.claimOf d = s.claimOf c := by
  rw [claimOf_of_not_noticesOwner (hw ▸ hn), claimOf_of_not_noticesOwner hn]
  simp only [hf]

/-- Claims and completeness do not mix, whatever a cell holds. -/
theorem fields_separate (s : Scheme) : s.Separates where
  incomplete := isComplete_claimed s
  claimed := claimOf_claimed s
  distinct := fun _ => claimed_injective
  restored := fun _ => claimed_claimOf
  idempotent := Cell.complete_complete
  complete := Cell.isComplete_complete
  lowest := fun c => ⟨Cell.width_complete c, Cell.bytes_complete_tail c⟩
  survives := fun c => ⟨claimOf_complete s c, phaseOf_complete s c⟩
  slot := fun _ _ => claimOf_eq_of_slot
  flag := fun _ _ => claimOf_eq_of_flag

end Scheme
end OnceInit

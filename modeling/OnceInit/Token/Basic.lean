/-! The number by which a guard remembers the thread that initializes its variable. It is never zero, so that
a zero owner can stand for nobody. -/

namespace OnceInit

structure Token where
  raw : UInt32
  ne_zero : raw ≠ 0
  deriving DecidableEq

namespace Token

def ofRaw? (n : UInt32) : Option Token :=
  if h : n ≠ 0 then some ⟨n, h⟩ else none

@[simp] theorem ofRaw?_raw (t : Token) : ofRaw? t.raw = some t := by
  simp [ofRaw?, t.ne_zero]

theorem ofRaw?_eq_none_iff (n : UInt32) : ofRaw? n = none ↔ n = 0 := by
  simp [ofRaw?]

def ofInt? (g : Int) : Option Token :=
  if 0 < g ∧ g < 4294967296 then ofRaw? (UInt32.ofNat g.toNat) else none

theorem ofInt?_eq_some_iff (g : Int) (t : Token) : ofInt? g = some t ↔ g = t.raw.toNat := by
  have ht := t.raw.toNat_lt
  have hz : t.raw.toNat ≠ 0 := fun h => t.ne_zero (UInt32.toNat_inj.mp h)
  unfold ofInt?
  constructor
  · intro h
    split at h
    · next hg =>
      unfold ofRaw? at h
      split at h
      · cases h
        simp only [UInt32.toNat_ofNat']
        omega
      · cases h
    · cases h
  · intro h
    subst h
    have e : UInt32.ofNat (t.raw.toNat : Int).toNat = t.raw :=
      UInt32.toNat_inj.mp (by simp)
    rw [e, ofRaw?_raw, if_pos (by omega)]

theorem ofInt?_eq_none_iff (g : Int) : ofInt? g = none ↔ g ≤ 0 ∨ 4294967296 ≤ g := by
  unfold ofInt?
  split
  · next h =>
    have hz : UInt32.ofNat g.toNat ≠ 0 := by
      intro h0
      have h1 := congrArg UInt32.toNat h0
      simp only [UInt32.toNat_ofNat', UInt32.toNat_zero] at h1
      omega
    simp only [ofRaw?_eq_none_iff, hz, false_iff]
    omega
  · next h =>
    simp only [true_iff]
    omega

theorem ext_raw {s t : Token} (h : s.raw = t.raw) : s = t := by
  cases s; cases t; simp_all

end Token
end OnceInit

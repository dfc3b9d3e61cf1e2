import OnceInit.Cell.Basic

/-! Cells as text: two lower-case hexadecimal digits for each byte, lowest address first. -/

namespace OnceInit.Cell

def hexByte (b : UInt8) : List Char :=
  [Nat.digitChar (b.toNat / 16), Nat.digitChar (b.toNat % 16)]

def toHex (c : Cell) : String := String.ofList (c.bytes.flatMap hexByte)

def nibble? (c : Char) : Option Nat :=
  if '0' ≤ c ∧ c ≤ '9' then some (c.toNat - '0'.toNat)
  else if 'a' ≤ c ∧ c ≤ 'f' then some (c.toNat - 'a'.toNat + 10)
  else none

def bytesOfHex? : List Char → Option (List UInt8)
  | [] => some []
  | [_] => none
  | h :: l :: rest => do
    let h ← nibble? h
    let l ← nibble? l
    let bs ← bytesOfHex? rest
    return UInt8.ofNat (16 * h + l) :: bs

def ofHex? (w : Width) (s : String) : Option Cell := (bytesOfHex? s.toList).bind (ofBytes? w)

theorem nibble?_digitChar : ∀ n < 16, nibble? (Nat.digitChar n) = some n := by decide

theorem bytesOfHex?_hexByte (b : UInt8) (cs : List Char) :
    bytesOfHex? (hexByte b ++ cs) = (bytesOfHex? cs).map (b :: ·) := by
  have hb := b.toNat_lt
  have hh := nibble?_digitChar (b.toNat / 16) (by omega)
  have hl := nibble?_digitChar (b.toNat % 16) (by omega)
  have e : UInt8.ofNat (16 * (b.toNat / 16) + b.toNat % 16) = b :=
    UInt8.toNat_inj.mp (by simp only [UInt8.toNat_ofNat']; omega)
  simp only [hexByte, List.cons_append, List.nil_append, bytesOfHex?, hh, hl]
  cases bytesOfHex? cs with
  | none => rfl
  | some bs => exact congrArg (fun x => some (x :: bs)) e

theorem bytesOfHex?_flatMap (bs : List UInt8) : bytesOfHex? (bs.flatMap hexByte) = some bs := by
  induction bs with
  | nil => rfl
  | cons b bs ih => rw [List.flatMap_cons, bytesOfHex?_hexByte, ih]; rfl

theorem ofHex?_toHex (c : Cell) : ofHex? c.width c.toHex = some c := by
  simp only [ofHex?, toHex, String.toList_ofList, bytesOfHex?_flatMap, Option.bind_some,
    ofBytes?_bytes]

end OnceInit.Cell

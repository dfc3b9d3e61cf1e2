import OnceInit.Cell.Basic
import OnceInit.Cell.LittleEndian
import OnceInit.Text.Outline
import OnceInit.Token.Basic

/-! Who is initializing a variable. A cell says so apart from whether the variable is complete. Where it has
room and the scheme asks for owners, its upper half holds the owner's token; otherwise its second byte is a
flag. -/

namespace OnceInit

inductive Scheme
  | owner
  | flag
  deriving DecidableEq

inductive Claim
  | free
  | taken
  | takenBy (t : Token)
  deriving DecidableEq

def Claim.isTaken : Claim → Bool
  | .free => false
  | _ => true

namespace Scheme

def name : Scheme → String
  | owner => "Ownership"
  | flag => "Boolean"

/-- A thread that comes back to its own claim is noticed only where claims name their owner. -/
def noticesOwner : Scheme → Width → Bool
  | owner, .wide => true
  | _, _ => false

def claimOf : Scheme → Cell → Claim
  | owner, .wide _ _ _ _ b₄ b₅ b₆ b₇ =>
    match Token.ofRaw? (LittleEndian.join b₄ b₅ b₆ b₇) with
    | some t => .takenBy t
    | none => .free
  | flag, .wide _ b₁ _ _ _ _ _ _ => if b₁ = 0 then .free else .taken
  | _, .narrow _ b₁ _ _ => if b₁ = 0 then .free else .taken

def claimed : Scheme → Width → Token → Cell
  | owner, .wide, t =>
    .wide 0 0 0 0 (LittleEndian.byte t.raw 0) (LittleEndian.byte t.raw 1)
      (LittleEndian.byte t.raw 2) (LittleEndian.byte t.raw 3)
  | flag, .wide, _ => .wide 0 1 0 0 0 0 0 0
  | _, .narrow, _ => .narrow 0 1 0 0

@[simp] theorem width_claimed (s : Scheme) (w : Width) (t : Token) : (s.claimed w t).width = w := by
  cases s <;> cases w <;> rfl

@[simp] theorem isComplete_claimed (s : Scheme) (w : Width) (t : Token) :
    (s.claimed w t).isComplete = false := by
  cases s <;> cases w <;> rfl

theorem claimOf_claimed (s : Scheme) (w : Width) (t : Token) :
    s.claimOf (s.claimed w t) = if s.noticesOwner w then .takenBy t else .taken := by
  cases s <;> cases w <;>
    simp [claimOf, claimed, noticesOwner, LittleEndian.join_byte]

@[simp] theorem claimOf_zero (s : Scheme) (w : Width) : s.claimOf (.zero w) = .free := by
  cases s <;> cases w <;> rfl

@[simp] theorem claimOf_complete (s : Scheme) (c : Cell) : s.claimOf c.complete = s.claimOf c := by
  cases s <;> cases c <;> rfl

end Scheme

def Token.outline (t : Token) : Outline := .apply "ThreadToken" (.nat t.raw.toNat)

def Claim.outline : Claim → Outline
  | free => .word "Free"
  | taken => .word "Held"
  | takenBy t => .apply "Owned" t.outline

def Scheme.outline (s : Scheme) : Outline := .word s.name

end OnceInit

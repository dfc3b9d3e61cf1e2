import OnceInit.Text.Quoted

/-! The shape of a value as text: a bare word, a head applied to one part, or a head with labelled parts, on
one line or with each part on a line of its own. -/

namespace OnceInit

mutual

inductive Outline
  | word (text : String)
  | apply (head : String) (part : Outline)
  | record (head : String) (fields : Fields)

inductive Fields
  | nil
  | cons (label : String) (part : Outline) (rest : Fields)

end

namespace Outline

def nat (n : Nat) : Outline := .word (toString n)
def int (n : Int) : Outline := .word (toString n)
def text (s : String) : Outline := .word (Text.quoted s)

def option : Option Outline → Outline
  | none => .word "None"
  | some o => .apply "Some" o

mutual

def inline : Outline → String
  | .word s => s
  | .apply h p => h ++ "(" ++ p.inline ++ ")"
  | .record h fs => h ++ " \x7b " ++ inlineFields fs ++ " \x7d"

def inlineFields : Fields → String
  | .nil => ""
  | .cons l p .nil => l ++ ": " ++ p.inline
  | .cons l p rest => l ++ ": " ++ p.inline ++ ", " ++ inlineFields rest

end

def margin (depth : Nat) : String := String.ofList (List.replicate (4 * depth) ' ')

mutual

def indented (depth : Nat) : Outline → String
  | .word s => s
  | .apply h p => h ++ "(\n" ++ margin (depth + 1) ++ p.indented (depth + 1) ++ ",\n" ++ margin depth ++ ")"
  | .record h fs => h ++ " \x7b\n" ++ indentedFields (depth + 1) fs ++ margin depth ++ "\x7d"

def indentedFields (depth : Nat) : Fields → String
  | .nil => ""
  | .cons l p rest => margin depth ++ l ++ ": " ++ p.indented depth ++ ",\n" ++ indentedFields depth rest

end

end Outline
end OnceInit

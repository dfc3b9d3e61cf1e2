import OnceInit.Text.Extending
import OnceInit.Text.Unshown

/-! Text between double quotes. A character that would not be seen for itself is written with a backslash: by
its usual letter if it has one, else by its number. -/

namespace OnceInit.Text

def covers (n : Nat) : List (Nat × Nat) → Bool
  | [] => false
  | (lo, hi) :: rest => if n < lo then false else n ≤ hi || covers n rest

def isPlain (c : Char) : Bool := !covers c.toNat extending && !covers c.toNat unshown

def numbered (c : Char) : List Char :=
  ['\\', 'u', '\x7b'] ++ Nat.toDigits 16 c.toNat ++ ['\x7d']

def escape (c : Char) : List Char :=
  if c = '\x00' then ['\\', '0']
  else if c = '\t' then ['\\', 't']
  else if c = '\n' then ['\\', 'n']
  else if c = '\r' then ['\\', 'r']
  else if c = '\"' then ['\\', '\"']
  else if c = '\\' then ['\\', '\\']
  else if isPlain c then [c]
  else numbered c

def quoted (s : String) : String :=
  String.ofList (['\"'] ++ s.toList.flatMap escape ++ ['\"'])

end OnceInit.Text

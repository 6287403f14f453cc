import BlockSync.Text.Hidden

/-!
Quoted text: a string between double quotes or a character between single quotes, with every
character that would not show as itself written as an escape.
-/

namespace BlockSync.Text

def hexNumber (n : Nat) : List Char := Nat.toDigits 16 n

/-- How a character stands inside quotes; only the surrounding quote itself needs an escape. -/
def escape (quote c : Char) : List Char :=
  if c = '\x00' then ['\\', '0']
  else if c = '\t' then ['\\', 't']
  else if c = '\n' then ['\\', 'n']
  else if c = '\r' then ['\\', 'r']
  else if c = '\\' ∨ c = quote then ['\\', c]
  else if isHidden c then ['\\', 'u', '\x7b'] ++ hexNumber c.toNat ++ ['\x7d']
  else [c]

def quoted (s : String) : String :=
  String.ofList ('"' :: s.toList.flatMap (escape '"') ++ ['"'])

def quotedChar (c : Char) : String :=
  String.ofList ('\'' :: escape '\'' c ++ ['\''])

end BlockSync.Text

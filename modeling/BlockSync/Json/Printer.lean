import BlockSync.Text.Hex

/-!
JSON with each element and each key on a line of its own, indented by two blanks a level.
-/

namespace BlockSync.Json

/-- Only what cannot stand in a string is escaped. -/
def escape (c : Char) : List Char :=
  if c = '"' then ['\\', '"']
  else if c = '\\' then ['\\', '\\']
  else if c = '\x08' then ['\\', 'b']
  else if c = '\x0c' then ['\\', 'f']
  else if c = '\n' then ['\\', 'n']
  else if c = '\r' then ['\\', 'r']
  else if c = '\t' then ['\\', 't']
  else if c.toNat < 0x20 then
    ['\\', 'u', '0', '0', Nat.digitChar (c.toNat / 16), Nat.digitChar (c.toNat % 16)]
  else [c]

def printString (s : String) : List Char := '"' :: s.toList.flatMap escape ++ ['"']

def printString? : Option String → List Char
  | none => ['n', 'u', 'l', 'l']
  | some s => printString s

def printNat (n : Nat) : List Char := Nat.toDigits 10 n

def newLine (level : Nat) : List Char := '\n' :: List.replicate (2 * level) ' '

def printItems (level : Nat) : List (List Char) → List Char
  | [] => []
  | [item] => newLine level ++ item
  | item :: rest => newLine level ++ item ++ ',' :: printItems level rest

/-- A list at a level; an empty one takes no line. -/
def printList (level : Nat) (items : List (List Char)) : List Char :=
  if items.isEmpty then ['[', ']']
  else '[' :: printItems (level + 1) items ++ newLine level ++ [']']

def printObject (level : Nat) (entries : List (String × List Char)) : List Char :=
  let items := entries.map fun entry => printString entry.1 ++ ':' :: ' ' :: entry.2
  '\x7b' :: printItems (level + 1) items ++ newLine level ++ ['\x7d']

end BlockSync.Json

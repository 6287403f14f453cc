/-!
Reading JSON a piece at a time. What is wanted at each place is known, so the first thing wrong in
reading order decides: text that is not JSON, JSON of another shape, or an early end.
-/

namespace BlockSync.Json

inductive Fault where
  | malformed
  | unfit
  | ended
  deriving DecidableEq, Repr

abbrev Reader := StateT (List Char) (Except Fault)

namespace Reader

variable {α : Type}

def fail (fault : Fault) : Reader α := fun _ => .error fault

def isBlank (c : Char) : Bool := c == ' ' || c == '\n' || c == '\t' || c == '\r'

def peek : Reader (Option Char) := fun cs =>
  let cs := cs.dropWhile isBlank
  .ok (cs.head?, cs)

/-- The next character, not even a blank passed. -/
def look : Reader (Option Char) := fun cs => .ok (cs.head?, cs)

def skip : Reader Unit := fun cs => .ok ((), cs.tail)

def word : List Char → Reader Unit
  | [] => pure ()
  | c :: rest => do
    match ← look with
    | none => fail .ended
    | some d =>
      if d = c then
        skip
        word rest
      else fail .malformed

def digits : Reader (List Char) := fun cs =>
  .ok (cs.takeWhile Char.isDigit, cs.dropWhile Char.isDigit)

end Reader

def hexValue? (c : Char) : Option Nat :=
  if '0' ≤ c ∧ c ≤ '9' then some (c.toNat - 0x30)
  else if 'a' ≤ c ∧ c ≤ 'f' then some (c.toNat - 0x57)
  else if 'A' ≤ c ∧ c ≤ 'F' then some (c.toNat - 0x37)
  else none

def fourHex? (a b c d : Char) : Option Nat := do
  let a ← hexValue? a
  let b ← hexValue? b
  let c ← hexValue? c
  let d ← hexValue? d
  return ((a * 16 + b) * 16 + c) * 16 + d

/-- A number by four digits; the end comes first if fewer than four octets are left. -/
def readHex : Reader Nat := fun cs =>
  match cs with
  | a :: b :: c :: d :: rest =>
    match fourHex? a b c d with
    | some n => .ok (n, rest)
    | none => .error .malformed
  | _ => if cs.foldl (fun n c => n + c.utf8Size) 0 < 4 then .error .ended else .error .malformed

def escaped? (c : Char) : Option Char :=
  if c = '"' ∨ c = '\\' ∨ c = '/' then some c
  else if c = 'b' then some '\x08'
  else if c = 'f' then some '\x0c'
  else if c = 'n' then some '\n'
  else if c = 'r' then some '\r'
  else if c = 't' then some '\t'
  else none

/-- A character by number, behind a backslash and the letter; high numbers take two halves. -/
def readCodePoint : Reader Char := do
  let n ← readHex
  if n < 0xD800 ∨ 0xDFFF < n then return Char.ofNat n
  if 0xDC00 ≤ n then Reader.fail .malformed
  Reader.word ['\\', 'u']
  let low ← readHex
  if low < 0xDC00 ∨ 0xDFFF < low then Reader.fail .malformed
  return Char.ofNat ((n - 0xD800) * 0x400 + (low - 0xDC00) + 0x10000)

/-- The characters of a string up to its closing quote, in at most `fuel` steps. -/
def readCharacters : Nat → Reader (List Char)
  | 0 => Reader.fail .ended
  | fuel + 1 => do
    match ← Reader.look with
    | none => Reader.fail .ended
    | some '"' =>
      Reader.skip
      return []
    | some '\\' =>
      Reader.skip
      match ← Reader.look with
      | none => Reader.fail .ended
      | some 'u' =>
        Reader.skip
        return (← readCodePoint) :: (← readCharacters fuel)
      | some c =>
        match escaped? c with
        | none => Reader.fail .malformed
        | some d =>
          Reader.skip
          return d :: (← readCharacters fuel)
    | some c =>
      if c.toNat < 0x20 then Reader.fail .malformed
      Reader.skip
      return c :: (← readCharacters fuel)

def readQuoted : Reader String := do
  Reader.skip
  let left ← get
  return String.ofList (← readCharacters (left.length + 1))

/-- Passes a string behind its opening quote; halves of high numbers may stand alone in it. -/
def skipCharacters : Nat → Reader Unit
  | 0 => Reader.fail .ended
  | fuel + 1 => do
    match ← Reader.look with
    | none => Reader.fail .ended
    | some '"' => Reader.skip
    | some '\\' =>
      Reader.skip
      match ← Reader.look with
      | none => Reader.fail .ended
      | some 'u' =>
        Reader.skip
        let _ ← readHex
        skipCharacters fuel
      | some c =>
        if escaped? c = none then Reader.fail .malformed
        Reader.skip
        skipCharacters fuel
    | some c =>
      if c.toNat < 0x20 then Reader.fail .malformed
      Reader.skip
      skipCharacters fuel

inductive Number where
  | natural (n : Nat)
  | other
  deriving DecidableEq, Repr

def ofDigits (ds : List Char) : Nat := ds.foldl (fun n c => n * 10 + (c.toNat - 0x30)) 0

/-- Digits taken up as long as the number has 64 bits, and how many were left out. -/
def significand : Nat → List Char → Nat × Nat
  | n, [] => (n, 0)
  | n, c :: rest =>
    let m := n * 10 + (c.toNat - 0x30)
    if m < UInt64.size then significand m rest else (n, rest.length + 1)

/-- Whether a significand and a power of ten make no double. -/
def isTooLarge (n : Nat) (exponent : Int) : Bool :=
  n != 0 && exponent ≥ 0 &&
    (exponent > 308 || (Float.ofNat n * Float.ofScientific 1 false exponent.toNat).isInf)

def checkRange (n : Nat) (exponent : Int) : Reader Number :=
  if isTooLarge n exponent then Reader.fail .malformed else return .other

def readExponent (n : Nat) (exponent : Int) : Reader Number := do
  let sign ← Reader.look
  if sign = some '+' ∨ sign = some '-' then Reader.skip
  match ← Reader.look with
  | none => Reader.fail .ended
  | some c =>
    if !c.isDigit then Reader.fail .malformed
    let power := ofDigits (← Reader.digits)
    checkRange n (if sign = some '-' then exponent - power else exponent + power)

def readFraction (n : Nat) (exponent : Int) : Reader Number := do
  let ds ← Reader.digits
  if ds.isEmpty then
    match ← Reader.look with
    | none => Reader.fail .ended
    | some _ => Reader.fail .malformed
  let (n, dropped) := significand n ds
  let exponent := exponent - (ds.length - dropped : Nat)
  match ← Reader.look with
  | some 'e' | some 'E' =>
    Reader.skip
    readExponent n exponent
  | _ => checkRange n exponent

def readMagnitude (negative : Bool) : Reader Number := do
  match ← Reader.look with
  | none => Reader.fail .ended
  | some c =>
    if !c.isDigit then Reader.fail .malformed
    let ds ← Reader.digits
    if c = '0' ∧ ds.length ≠ 1 then Reader.fail .malformed
    let (n, dropped) := significand 0 ds
    match ← Reader.look with
    | some '.' =>
      Reader.skip
      readFraction n dropped
    | some 'e' | some 'E' =>
      Reader.skip
      readExponent n dropped
    | _ =>
      if dropped ≠ 0 then checkRange n dropped
      else if negative then return .other
      else return .natural n

def readNumber : Reader Number := do
  if (← Reader.look) = some '-' then
    Reader.skip
    readMagnitude true
  else readMagnitude false

/-- What comes next is not what is wanted; if it is not even JSON, that is said. -/
def refuse {α : Type} : Reader α := do
  match ← Reader.peek with
  | none => Reader.fail .ended
  | some 'n' => Reader.word ['n', 'u', 'l', 'l']
  | some 't' => Reader.word ['t', 'r', 'u', 'e']
  | some 'f' => Reader.word ['f', 'a', 'l', 's', 'e']
  | some '"' => let _ ← readQuoted
  | some '[' => pure ()
  | some '\x7b' => pure ()
  | some c =>
    if c = '-' ∨ c.isDigit then let _ ← readNumber
    else Reader.fail .malformed
  Reader.fail .unfit

def readString : Reader String := do
  if (← Reader.peek) = some '"' then readQuoted else refuse

def readString? : Reader (Option String) := do
  if (← Reader.peek) = some 'n' then
    Reader.word ['n', 'u', 'l', 'l']
    return none
  return some (← readString)

def readNat (bound : Nat) : Reader Nat := do
  match ← Reader.peek with
  | some c =>
    if c = '-' ∨ c.isDigit then
      match ← readNumber with
      | .natural n => if n < bound then return n else Reader.fail .unfit
      | .other => Reader.fail .unfit
    else refuse
  | none => refuse

def nextElement (first : Bool) : Reader Bool := do
  match ← Reader.peek with
  | none => Reader.fail .ended
  | some ']' => return false
  | some c =>
    if first then return true
    if c ≠ ',' then Reader.fail .malformed
    Reader.skip
    match ← Reader.peek with
    | none => Reader.fail .ended
    | some ']' => Reader.fail .malformed
    | some _ => return true

def nextKey (first : Bool) : Reader Bool := do
  match ← Reader.peek with
  | none => Reader.fail .ended
  | some '\x7d' => return false
  | some c =>
    if first then
      if c = '"' then return true else Reader.fail .malformed
    if c ≠ ',' then Reader.fail .malformed
    Reader.skip
    match ← Reader.peek with
    | none => Reader.fail .ended
    | some '"' => return true
    | some _ => Reader.fail .malformed

def readColon : Reader Unit := do
  match ← Reader.peek with
  | none => Reader.fail .ended
  | some ':' => Reader.skip
  | some _ => Reader.fail .malformed

def readClose (close : Char) : Reader Unit := do
  match ← Reader.peek with
  | none => Reader.fail .ended
  | some c => if c = close then Reader.skip else Reader.fail .malformed

def readElements {α : Type} (element : Reader α) : Nat → Bool → Reader (List α)
  | 0, _ => Reader.fail .ended
  | fuel + 1, first => do
    if ← nextElement first then
      let a ← element
      return a :: (← readElements element fuel false)
    return []

def readList {α : Type} (element : Reader α) : Reader (List α) := do
  if (← Reader.peek) = some '[' then
    Reader.skip
    let left ← get
    let as ← readElements element (left.length + 1) true
    readClose ']'
    return as
  refuse

def readEnd : Reader Unit := do
  match ← Reader.peek with
  | none => return ()
  | some _ => Reader.fail .malformed

end BlockSync.Json

import BlockSync.Json.Reader

/-!
Passing over a JSON value that nobody wants, however deep. Numbers are not limited in size here,
and one that breaks off is malformed even at the end of the text.
-/

namespace BlockSync.Json

inductive Bracket where
  | list
  | object
  deriving DecidableEq, Repr

def Bracket.close : Bracket → Char
  | .list => ']'
  | .object => '\x7d'

def skipPower : Reader Unit := do
  let sign ← Reader.look
  if sign = some '+' ∨ sign = some '-' then Reader.skip
  if (← Reader.digits).isEmpty then Reader.fail .malformed

def skipNumber : Reader Unit := do
  if (← Reader.look) = some '-' then Reader.skip
  let ds ← Reader.digits
  if ds.isEmpty ∨ (ds.head? = some '0' ∧ ds.length ≠ 1) then Reader.fail .malformed
  if (← Reader.look) = some '.' then
    Reader.skip
    if (← Reader.digits).isEmpty then Reader.fail .malformed
  let next ← Reader.look
  if next = some 'e' ∨ next = some 'E' then
    Reader.skip
    skipPower

def skipStart : Reader (Option Bracket) := do
  match ← Reader.peek with
  | none => Reader.fail .ended
  | some 'n' => do
    Reader.word ['n', 'u', 'l', 'l']
    return none
  | some 't' => do
    Reader.word ['t', 'r', 'u', 'e']
    return none
  | some 'f' => do
    Reader.word ['f', 'a', 'l', 's', 'e']
    return none
  | some '"' => do
    Reader.skip
    let left ← get
    skipCharacters (left.length + 1)
    return none
  | some '[' => do
    Reader.skip
    return some .list
  | some '\x7b' => do
    Reader.skip
    return some .object
  | some c => do
    if c = '-' ∨ c.isDigit then
      skipNumber
      return none
    Reader.fail .malformed

/-- Closes what ends here; the brackets left are those in which another value follows. The comma
before that value is passed. -/
def skipClose : List Bracket → Bool → Reader (List Bracket)
  | [], _ => return []
  | bracket :: outer, afterValue => do
    match ← Reader.peek with
    | none => Reader.fail .ended
    | some c =>
      if c = bracket.close then
        Reader.skip
        skipClose outer true
      else if afterValue then
        if c = ',' then
          Reader.skip
          return bracket :: outer
        Reader.fail .malformed
      else return bracket :: outer

def skipKey : Reader Unit := do
  match ← Reader.peek with
  | none => Reader.fail .ended
  | some '"' =>
    Reader.skip
    let left ← get
    skipCharacters (left.length + 1)
    readColon
  | some _ => Reader.fail .malformed

/-- Passes values inside open brackets, at most `fuel` of them. -/
def skipInside : Nat → List Bracket → Reader Unit
  | 0, _ => Reader.fail .ended
  | fuel + 1, brackets => do
    let (brackets, afterValue) := match ← skipStart with
      | some bracket => (bracket :: brackets, false)
      | none => (brackets, true)
    match ← skipClose brackets afterValue with
    | [] => return ()
    | bracket :: outer =>
      if bracket = .object then skipKey
      skipInside fuel (bracket :: outer)

def skipValue : Reader Unit := do
  let left ← get
  skipInside (left.length + 1) []

end BlockSync.Json

/-!
IPv4 addresses and the texts that spell one: by four octets, or by fewer numbers of which the last
fills what is left.
-/

namespace BlockSync

structure Ipv4 where
  a : UInt8
  b : UInt8
  c : UInt8
  d : UInt8
  deriving DecidableEq, Repr

namespace Ipv4

def octets (ip : Ipv4) : List UInt8 := [ip.a, ip.b, ip.c, ip.d]

def toText (ip : Ipv4) : String := ".".intercalate (ip.octets.map toString)

def splitOn (separator : Char) : List Char → List (List Char)
  | [] => [[]]
  | c :: rest =>
    if c = separator then [] :: splitOn separator rest
    else
      match splitOn separator rest with
      | [] => [[c]]
      | part :: parts => (c :: part) :: parts

def digitsIn (base : Nat) (cs : List Char) : Option Nat :=
  let value (c : Char) : Nat :=
    if c.isDigit then c.toNat - 0x30
    else if 'a' ≤ c ∧ c ≤ 'f' then c.toNat - 0x57
    else if 'A' ≤ c ∧ c ≤ 'F' then c.toNat - 0x37
    else 16
  if cs.isEmpty ∨ cs.any (fun c => base ≤ value c) then none
  else some (cs.foldl (fun n c => n * base + value c) 0)

/-- A part in decimal, or behind a zero in octal, or behind a zero and an x in hexadecimal. -/
def partOf (cs : List Char) : Option Nat :=
  match cs with
  | '0' :: x :: rest =>
    if x = 'x' ∨ x = 'X' then digitsIn 16 rest else digitsIn 8 (x :: rest)
  | _ => digitsIn 10 cs

/-- One to four parts: all but the last are octets, and the last fills what is left. -/
def ofParts : List Nat → Option Nat
  | [n] => if n < UInt32.size then some n else none
  | [a, n] => if a < 256 ∧ n < 1 <<< 24 then some ((a <<< 24) + n) else none
  | [a, b, n] =>
    if a < 256 ∧ b < 256 ∧ n < 1 <<< 16 then some ((a <<< 24) + (b <<< 16) + n) else none
  | [a, b, c, n] =>
    if a < 256 ∧ b < 256 ∧ c < 256 ∧ n < 256 then
      some ((a <<< 24) + (b <<< 16) + (c <<< 8) + n)
    else none
  | _ => none

def ofNat (n : Nat) : Ipv4 :=
  ⟨UInt8.ofNat (n >>> 24), UInt8.ofNat (n >>> 16), UInt8.ofNat (n >>> 8), UInt8.ofNat n⟩

def ofText? (host : String) : Option Ipv4 := do
  let parts ← (splitOn '.' host.toList).mapM partOf
  return ofNat (← ofParts parts)

def octetOf (cs : List Char) : Option Nat :=
  if cs.length ≤ 3 ∧ (cs.head? ≠ some '0' ∨ cs.length = 1) then
    (digitsIn 10 cs).filter (· < 256)
  else none

def ofDotted? (cs : List Char) : Option Ipv4 := do
  match ← (splitOn '.' cs).mapM octetOf with
  | [a, b, c, d] => some ⟨UInt8.ofNat a, UInt8.ofNat b, UInt8.ofNat c, UInt8.ofNat d⟩
  | _ => none

end Ipv4

end BlockSync

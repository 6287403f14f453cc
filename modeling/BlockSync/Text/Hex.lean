import BlockSync.Text.Utf8
import BlockSync.Text.Quoted

/-!
Octets as pairs of hexadecimal digits. Writing uses lower case; reading takes either case and
says what is wrong otherwise: an odd number of octets first, then the first that is no digit.
-/

namespace BlockSync.Text

inductive HexFault where
  | oddLength
  | badDigit (digit : UInt8) (index : Nat)
  deriving DecidableEq, Repr

/-- A bad octet is shown as the character of its number. -/
def HexFault.message : HexFault → String
  | .oddLength => "Odd number of digits"
  | .badDigit digit index =>
    s!"Invalid character {quotedChar (Char.ofNat digit.toNat)} at position {index}"

def hexDigit (n : UInt8) : UInt8 := if n < 10 then n + 0x30 else n + 0x57

def hexValue? (digit : UInt8) : Option UInt8 :=
  if 0x30 ≤ digit && digit ≤ 0x39 then some (digit - 0x30)
  else if 0x61 ≤ digit && digit ≤ 0x66 then some (digit - 0x57)
  else if 0x41 ≤ digit && digit ≤ 0x46 then some (digit - 0x37)
  else none

def hexDigits : Bytes → Bytes
  | [] => []
  | b :: rest => hexDigit (b / 16) :: hexDigit (b % 16) :: hexDigits rest

def toHex (bytes : Bytes) : String :=
  String.ofList ((hexDigits bytes).map fun digit => Char.ofNat digit.toNat)

/-- The octets that pairs of digits stand for, from a given index on. -/
def ofHexDigits (index : Nat) : Bytes → Except HexFault Bytes
  | [] => .ok []
  | [_] => .error .oddLength
  | high :: low :: rest =>
    match hexValue? high with
    | none => .error (.badDigit high index)
    | some h =>
      match hexValue? low with
      | none => .error (.badDigit low (index + 1))
      | some l =>
        match ofHexDigits (index + 2) rest with
        | .error fault => .error fault
        | .ok bytes => .ok ((h * 16 + l) :: bytes)

def ofHex (s : String) : Except HexFault Bytes :=
  if (utf8 s).length % 2 = 1 then .error .oddLength else ofHexDigits 0 (utf8 s)

end BlockSync.Text

import BlockSync.Text.Quoted

/-!
Addresses of peers and proxies: a host and a port with a colon in between. The host may stand in
brackets, and may hold colons; the last colon counts.
-/

namespace BlockSync

inductive PortFault where
  | empty
  | badDigit
  | tooLarge
  deriving DecidableEq, Repr

def PortFault.message : PortFault → String
  | .empty => "cannot parse integer from empty string"
  | .badDigit => "invalid digit found in string"
  | .tooLarge => "number too large to fit in target type"

inductive AddressFault where
  | noPort (text : String)
  | emptyHost (text : String)
  | badPort (text : String) (cause : PortFault)
  deriving DecidableEq, Repr

def AddressFault.summary : AddressFault → String
  | .noPort text => s!"peer address {Text.quoted text} is not host:port"
  | .emptyHost text => s!"peer address {Text.quoted text} has an empty host"
  | .badPort text _ => s!"peer address {Text.quoted text} has an invalid port"

def AddressFault.message (fault : AddressFault) : String :=
  match fault with
  | .badPort _ cause => s!"{fault.summary}: {cause.message}"
  | _ => fault.summary

def AddressFault.refusal (fault : AddressFault) : String :=
  s!"invalid peer address: {fault.summary}"

structure Address where
  host : String
  port : UInt16
  deriving DecidableEq, Repr

namespace Address

/-- Digits after a number; the first fault in reading order counts. -/
def portDigits : Nat → List Char → Except PortFault UInt16
  | n, [] => .ok (UInt16.ofNat n)
  | n, c :: rest =>
    if !c.isDigit then .error .badDigit
    else
      let m := n * 10 + (c.toNat - 0x30)
      if m < UInt16.size then portDigits m rest else .error .tooLarge

/-- Decimal digits, with a plus sign or without. -/
def portOf : List Char → Except PortFault UInt16
  | [] => .error .empty
  | ['+'] => .error .badDigit
  | '+' :: rest => portDigits 0 rest
  | cs => portDigits 0 cs

def splitAtColon (cs : List Char) : Option (List Char × List Char) :=
  match cs.reverse.dropWhile (· ≠ ':') with
  | [] => none
  | _ :: before => some (before.reverse, (cs.reverse.takeWhile (· ≠ ':')).reverse)

/-- The host without opening brackets before it and closing brackets behind it. -/
def trimBrackets (cs : List Char) : List Char :=
  ((cs.dropWhile (· = '[')).reverse.dropWhile (· = ']')).reverse

def ofText (text : String) : Except AddressFault Address :=
  match splitAtColon text.toList with
  | none => .error (.noPort text)
  | some (before, after) =>
    let host := trimBrackets before
    if host.isEmpty then .error (.emptyHost text)
    else
      match portOf after with
      | .ok port => .ok ⟨String.ofList host, port⟩
      | .error cause => .error (.badPort text cause)

end Address

end BlockSync

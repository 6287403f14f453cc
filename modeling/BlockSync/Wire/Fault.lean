import BlockSync.Text.Hex

/-!
What can be wrong with encoded data.
-/

namespace BlockSync.Wire

inductive Fault where
  | endOfInput (needed remaining : Nat)
  /-- A length takes more than 32 bits. -/
  | lengthOverflow
  | text (cause : Text.Utf8Fault)
  | size (expected actual : Nat)
  | hex (cause : Text.HexFault)
  | unknownReason (value : UInt32)
  | unknownListMode (value : UInt32)
  | unknownTag (tag : UInt8)
  /-- A range whose first block comes after its last. -/
  | backwardRange (first last : UInt32)
  deriving DecidableEq, Repr

def Fault.message : Fault → String
  | .endOfInput needed remaining =>
    s!"unexpected end of buffer: needed {needed} bytes, {remaining} remaining"
  | .lengthOverflow => "variable-length integer exceeds 32 bits"
  | .text cause => s!"invalid utf-8 string: {cause.message}"
  | .size expected actual => s!"invalid length: expected {expected}, got {actual}"
  | .hex cause => s!"invalid hex: {cause.message}"
  | .unknownReason value => s!"unknown go_away_reason value: {value}"
  | .unknownListMode value => s!"unknown id_list_mode value: {value}"
  | .unknownTag tag => s!"unknown message tag: {tag}"
  | .backwardRange first last =>
    s!"sync request start block {first} is greater than end block {last}"

end BlockSync.Wire

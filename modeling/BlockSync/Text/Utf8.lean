/-!
Text as octets. Reading octets as UTF-8 gives the text or the first fault: where the first
character that is not whole starts, and how many octets of it can be skipped.
-/

namespace BlockSync

abbrev Bytes := List UInt8

namespace Text

def utf8 (s : String) : Bytes := s.toByteArray.data.toList

/-- Where well-formed text ends. `width` counts the octets of the malformed sequence; there is
none when the octets end inside a character. -/
structure Utf8Fault where
  index : Nat
  width : Option Nat
  deriving DecidableEq, Repr

def Utf8Fault.message (fault : Utf8Fault) : String :=
  match fault.width with
  | some n => s!"invalid utf-8 sequence of {n} bytes from index {fault.index}"
  | none => s!"incomplete utf-8 byte sequence from index {fault.index}"

def continues (b : UInt8) : Bool := 0x80 ≤ b && b ≤ 0xBF

/-- Which second octets may follow a lead octet of three: overlong forms and surrogates are out. -/
def secondOfThree (lead b : UInt8) : Bool :=
  if lead = 0xE0 then 0xA0 ≤ b && b ≤ 0xBF
  else if lead = 0xED then 0x80 ≤ b && b ≤ 0x9F
  else continues b

/-- Which second octets may follow a lead octet of four: overlong forms and values past the last
code point are out. -/
def secondOfFour (lead b : UInt8) : Bool :=
  if lead = 0xF0 then 0x90 ≤ b && b ≤ 0xBF
  else if lead = 0xF4 then 0x80 ≤ b && b ≤ 0x8F
  else continues b

/-- The first fault of octets that start at an index, if there is one. -/
def utf8Fault? (index : Nat) : Bytes → Option Utf8Fault
  | [] => none
  | lead :: rest =>
    if lead < 0x80 then utf8Fault? (index + 1) rest
    else if 0xC2 ≤ lead && lead ≤ 0xDF then
      match rest with
      | [] => some ⟨index, none⟩
      | b :: rest => if continues b then utf8Fault? (index + 2) rest else some ⟨index, some 1⟩
    else if 0xE0 ≤ lead && lead ≤ 0xEF then
      match rest with
      | [] => some ⟨index, none⟩
      | [b] => if secondOfThree lead b then some ⟨index, none⟩ else some ⟨index, some 1⟩
      | b :: c :: rest =>
        if !secondOfThree lead b then some ⟨index, some 1⟩
        else if !continues c then some ⟨index, some 2⟩
        else utf8Fault? (index + 3) rest
    else if 0xF0 ≤ lead && lead ≤ 0xF4 then
      match rest with
      | [] => some ⟨index, none⟩
      | [b] => if secondOfFour lead b then some ⟨index, none⟩ else some ⟨index, some 1⟩
      | [b, c] =>
        if !secondOfFour lead b then some ⟨index, some 1⟩
        else if !continues c then some ⟨index, some 2⟩
        else some ⟨index, none⟩
      | b :: c :: d :: rest =>
        if !secondOfFour lead b then some ⟨index, some 1⟩
        else if !continues c then some ⟨index, some 2⟩
        else if !continues d then some ⟨index, some 3⟩
        else utf8Fault? (index + 4) rest
    else some ⟨index, some 1⟩

def ofUtf8 (bytes : Bytes) : Except Utf8Fault String :=
  match String.fromUTF8? ⟨bytes.toArray⟩ with
  | some s => .ok s
  | none => .error ((utf8Fault? 0 bytes).getD ⟨0, none⟩)

theorem ofUtf8_utf8 (s : String) : ofUtf8 (utf8 s) = .ok s := by
  have h : (⟨(utf8 s).toArray⟩ : ByteArray) = s.toByteArray := by simp [utf8]
  simp [ofUtf8, h, String.fromUTF8?, String.fromUTF8, s.isValidUTF8]

theorem utf8_of_ofUtf8 {bytes : Bytes} {s : String} (h : ofUtf8 bytes = .ok s) :
    utf8 s = bytes := by
  unfold ofUtf8 String.fromUTF8? String.fromUTF8 at h
  split at h <;> rename_i heq
  · split at heq <;> simp_all [utf8]
    cases heq; cases h; rfl
  · simp at h

end Text

end BlockSync

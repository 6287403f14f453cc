import BlockSync.Wire.Reader

/-!
Binary formats: what a type's values look like as octets, and how they are read back. Numbers
are little-endian. Lengths of texts and lists are written in groups of seven bits, the lowest
first; bit 7 says that another group follows.
-/

namespace BlockSync.Wire

class Format (α : Type) where
  write : α → Bytes
  read : Reader α

export Format (write read)

def littleEndian : Nat → Nat → Bytes
  | 0, _ => []
  | k + 1, n => UInt8.ofNat (n % 256) :: littleEndian k (n / 256)

def ofLittleEndian : Bytes → Nat
  | [] => 0
  | b :: rest => b.toNat + 256 * ofLittleEndian rest

def readNumber (k : Nat) : Reader Nat := do return ofLittleEndian (← Reader.take k)

instance : Format UInt8 where
  write n := littleEndian 1 n.toNat
  read := do return UInt8.ofNat (← readNumber 1)

instance : Format UInt16 where
  write n := littleEndian 2 n.toNat
  read := do return UInt16.ofNat (← readNumber 2)

instance : Format UInt32 where
  write n := littleEndian 4 n.toNat
  read := do return UInt32.ofNat (← readNumber 4)

instance : Format UInt64 where
  write n := littleEndian 8 n.toNat
  read := do return UInt64.ofNat (← readNumber 8)

/-- Signed numbers are written in two's complement. -/
instance : Format Int16 where
  write n := write n.toUInt16
  read := do return UInt16.toInt16 (← read)

instance : Format Int64 where
  write n := write n.toUInt64
  read := do return UInt64.toInt64 (← read)

/-- A number in at most `k` groups of seven bits. -/
def writeGroups : Nat → Nat → Bytes
  | 0, _ => []
  | k + 1, n =>
    if n < 128 then [UInt8.ofNat n]
    else UInt8.ofNat (n % 128 + 128) :: writeGroups k (n / 128)

/-- The value of at most `k` groups of seven bits. -/
def readGroups : Nat → Reader Nat
  | 0 => Reader.fail .lengthOverflow
  | k + 1 => do
    let b : UInt8 ← read
    if b < 128 then return b.toNat
    let high ← readGroups k
    return b.toNat % 128 + 128 * high

def writeLength (n : UInt32) : Bytes := writeGroups 5 n.toNat

def readLength : Reader UInt32 := do
  let n ← readGroups 5
  if n < UInt32.size then return UInt32.ofNat n
  Reader.fail .lengthOverflow

def writeCounted (bytes : Bytes) : Bytes := writeLength (UInt32.ofNat bytes.length) ++ bytes

def readCounted : Reader Bytes := do
  let n ← readLength
  Reader.take n.toNat

instance : Format String where
  write s := writeCounted (Text.utf8 s)
  read := do
    let bytes ← readCounted
    Reader.lift ((Text.ofUtf8 bytes).mapError Fault.text)

def readElements {α : Type} [Format α] : Reader (List α) := do
  let n ← readLength
  Reader.times read n.toNat

/-- Every element takes at least one octet, so a count above the octets left is refused at once. -/
instance {α : Type} [Format α] : Format (List α) where
  write as := writeLength (UInt32.ofNat as.length) ++ as.flatMap write
  read := do
    let n ← readLength
    let left ← Reader.remaining
    if left < n.toNat then Reader.fail (.endOfInput n.toNat left)
    Reader.times read n.toNat

/-- An octet tells whether a value follows; any but zero means that one does. -/
instance {α : Type} [Format α] : Format (Option α) where
  write
    | none => write (0 : UInt8)
    | some a => write (1 : UInt8) ++ write a
  read := do
    let present : UInt8 ← read
    if present = 0 then return none
    return some (← read)

end BlockSync.Wire

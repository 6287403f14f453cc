import BlockSync.Wire.Format

/-!
Identities of a fixed size: checksums of chains, nodes and blocks, public keys and signatures.
The first four octets of a block's checksum hold the block's number.
-/

namespace BlockSync

structure Octets (n : Nat) where
  toList : Bytes
  length_eq : toList.length = n
  deriving DecidableEq

namespace Octets

variable {n : Nat}

def zero (n : Nat) : Octets n := ⟨List.replicate n 0, List.length_replicate⟩

instance : Inhabited (Octets n) := ⟨zero n⟩

def isZero (o : Octets n) : Bool := o.toList.all (· == 0)

def toHex (o : Octets n) : String := Text.toHex o.toList

instance : Ord (Octets n) := ⟨fun a b => List.compareLex compare a.toList b.toList⟩

def ofBytes (bytes : Bytes) : Except Wire.Fault (Octets n) :=
  if h : bytes.length = n then .ok ⟨bytes, h⟩ else .error (.size n bytes.length)

def ofHex (s : String) : Except Wire.Fault (Octets n) :=
  match Text.ofHex s with
  | .ok bytes => ofBytes bytes
  | .error cause => .error (.hex cause)

instance : Wire.Format (Octets n) where
  write o := o.toList
  read := do Wire.Reader.lift (ofBytes (← Wire.Reader.take n))

end Octets

abbrev Checksum := Octets 32

/-- The kind of a key and a compressed point. -/
abbrev PublicKey := Octets 34

abbrev Signature := Octets 66

namespace Checksum

/-- The number in the first four octets, the highest first. -/
def blockNum (id : Checksum) : UInt32 :=
  UInt32.ofNat (Wire.ofLittleEndian (id.toList.take 4).reverse)

def withBlockNum (num : UInt32) (id : Checksum) : Checksum where
  toList := (Wire.littleEndian 4 num.toNat).reverse ++ id.toList.drop 4
  length_eq := by simp [Wire.littleEndian, id.length_eq]

/-- The identity of a block of which only the number is known. -/
def ofBlockNum (num : UInt32) : Checksum := withBlockNum num (Octets.zero 32)

end Checksum

end BlockSync

import BlockSync.Chain.Engine

/-!
A chain that says what it is told to say. A pushed block becomes the head whatever it links to,
unless the next push was told to fail.
-/

namespace BlockSync.Chain

def scriptedId : Checksum := ⟨List.replicate 32 0xcc, List.length_replicate⟩

structure Scripted where
  chainId : Checksum := scriptedId
  headNum : UInt32
  headId : Checksum
  libNum : UInt32 := 0
  libId : Checksum := Octets.zero 32
  earliest : UInt32 := 1
  /-- The latest entry of a number counts. -/
  ids : List (UInt32 × Checksum)
  blocks : List (UInt32 × Bytes) := []
  nextFault : Option ChainFault := none

namespace Scripted

def ofHead (headNum : UInt32) (headId : Checksum) : Scripted where
  headNum := headNum
  headId := headId
  ids := [(headNum, headId)]

/-- A block that can be fetched; one that does not decode has the zero identity. -/
def addBlock (s : Scripted) (num : UInt32) (raw : Bytes) : Scripted :=
  let id := match Header.ofBlock raw with
    | .ok header => header.id
    | .error _ => Octets.zero 32
  { s with ids := (num, id) :: s.ids, blocks := (num, raw) :: s.blocks }

def moveTo (s : Scripted) (headNum : UInt32) (headId : Checksum) : Scripted :=
  { s with headNum, headId, ids := (headNum, headId) :: s.ids }

def push (s : Scripted) (raw : Bytes) (_ : Bool) : Scripted × PushResult :=
  match s.nextFault with
  | some fault => ({ s with nextFault := none }, .error fault)
  | none =>
    match Header.ofBlock raw with
    | .error fault => (s, .error (.other fault.message))
    | .ok header =>
      let num := header.blockNum
      let id := header.id
      ({ s with headNum := num, headId := id, ids := (num, id) :: s.ids }, .ok none)

def answer (s : Scripted) : (q : Query) → q.Answer
  | .chainId => s.chainId
  | .headNum => s.headNum
  | .headId => s.headId
  | .libNum => s.libNum
  | .libId => s.libId
  | .idAt num => s.ids.lookup num
  | .blockAt num => s.blocks.lookup num
  | .earliest => s.earliest

def engine : Engine Scripted := ⟨answer, push⟩

end Scripted

end BlockSync.Chain

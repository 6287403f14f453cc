import BlockSync.Chain.Engine
import BlockSync.Number.Saturating

/-!
A chain kept in memory. Blocks must link to the head. A fixed number of blocks behind the head
counts as irreversible, and blocks that lie further back than a second number are forgotten.
-/

namespace BlockSync.Chain

structure StoredBlock where
  num : UInt32
  id : Checksum
  raw : Bytes
  deriving DecidableEq

/-- Blocks by number, the highest first. -/
abbrev Store := List StoredBlock

namespace Store

def get? (num : UInt32) (s : Store) : Option StoredBlock := s.find? (·.num == num)

def insert (b : StoredBlock) : Store → Store
  | [] => [b]
  | c :: rest =>
    if c.num < b.num then b :: c :: rest
    else if c.num = b.num then b :: rest
    else c :: insert b rest

def keepFrom (num : UInt32) (s : Store) : Store := s.filter (num ≤ ·.num)

def lowest? (s : Store) : Option UInt32 := s.getLast?.map (·.num)

end Store

structure Memory where
  chainId : Checksum
  /-- How far the last irreversible block lies behind the head. -/
  depth : UInt32 := 12
  /-- How many irreversible blocks are kept. -/
  retention : UInt32 := 100000
  blocks : Store := []
  headNum : UInt32 := 0
  headId : Checksum := Octets.zero 32

namespace Memory

/-- An empty chain on top of a block that is trusted. -/
def ofSnapshot (chainId : Checksum) (headNum : UInt32) (headId : Checksum) : Memory where
  chainId := chainId
  headNum := headNum
  headId := headId

def libNum (m : Memory) : UInt32 := satSub m.headNum m.depth

def idAt (m : Memory) (num : UInt32) : Option Checksum :=
  if num = m.headNum then some m.headId else (m.blocks.get? num).map (·.id)

def libId (m : Memory) : Checksum := (m.idAt m.libNum).getD (Octets.zero 32)

def earliest (m : Memory) : UInt32 := m.blocks.lowest?.getD (satAdd m.headNum 1)

/-- Below this number blocks are forgotten. -/
def floor (m : Memory) (num : UInt32) : UInt32 := satSub (satSub num m.depth) m.retention

def extend (m : Memory) (b : StoredBlock) : Memory :=
  { m with
    blocks := Store.keepFrom (m.floor b.num) (Store.insert b m.blocks)
    headNum := b.num
    headId := b.id }

def statistics (b : StoredBlock) : String :=
  s!"applied block {b.num} ({b.raw.length} bytes), id: {b.id.toHex}"

/-- A block is accepted if its header decodes and it links to the head. -/
def push (m : Memory) (raw : Bytes) (wantStatistics : Bool) : Memory × PushResult :=
  match Header.ofBlock raw with
  | .error fault => (m, .error (.other s!"malformed block header: {fault.message}"))
  | .ok header =>
    let b : StoredBlock := ⟨header.blockNum, header.id, raw⟩
    if (m.blocks.get? b.num).map (·.id) = some b.id then
      (m, .error (.forkDatabase s!"{ChainFault.alreadyKnown}: {b.id.toHex}"))
    else if header.previous ≠ m.headId ∨ b.num ≠ m.headNum + 1 then (m, .error .unlinkable)
    else (m.extend b, .ok (if wantStatistics then some (statistics b) else none))

def pushAll (m : Memory) (wantStatistics : Bool) : List Bytes → Memory × Option ChainFault
  | [] => (m, none)
  | raw :: rest =>
    match m.push raw wantStatistics with
    | (m, .ok _) => m.pushAll wantStatistics rest
    | (m, .error fault) => (m, some fault)

def answer (m : Memory) : (q : Query) → q.Answer
  | .chainId => m.chainId
  | .headNum => m.headNum
  | .headId => m.headId
  | .libNum => m.libNum
  | .libId => m.libId
  | .idAt num => m.idAt num
  | .blockAt num => (m.blocks.get? num).map (·.raw)
  | .earliest => m.earliest

def engine : Engine Memory := ⟨answer, push⟩

end Memory

end BlockSync.Chain

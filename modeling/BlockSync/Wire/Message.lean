import BlockSync.Wire.Identity

/-!
The messages that peers exchange. Seven kinds have fields of their own; blocks and transactions
are raw octets here. Decoding ignores what follows the last field.
-/

namespace BlockSync

structure Handshake where
  networkVersion : UInt16
  chainId : Checksum
  nodeId : Checksum
  key : PublicKey
  time : Int64
  token : Checksum
  sig : Signature
  p2pAddress : String
  libNum : UInt32
  libId : Checksum
  headNum : UInt32
  headId : Checksum
  os : String
  agent : String
  generation : Int16
  deriving DecidableEq

structure ChainSize where
  libNum : UInt32
  libId : Checksum
  headNum : UInt32
  headId : Checksum
  deriving DecidableEq

inductive GoAwayReason where
  | noReason
  | selfConnect
  | duplicate
  | wrongChain
  | wrongVersion
  | forked
  | unlinkable
  | badTransaction
  | validation
  | benignOther
  | fatalOther
  | authentication
  deriving DecidableEq, Repr

namespace GoAwayReason

def all : List GoAwayReason :=
  [.noReason, .selfConnect, .duplicate, .wrongChain, .wrongVersion, .forked, .unlinkable,
    .badTransaction, .validation, .benignOther, .fatalOther, .authentication]

def code : GoAwayReason → UInt32
  | .noReason => 0
  | .selfConnect => 1
  | .duplicate => 2
  | .wrongChain => 3
  | .wrongVersion => 4
  | .forked => 5
  | .unlinkable => 6
  | .badTransaction => 7
  | .validation => 8
  | .benignOther => 9
  | .fatalOther => 10
  | .authentication => 11

def ofCode (value : UInt32) : Except Wire.Fault GoAwayReason :=
  match all.find? fun reason => reason.code == value with
  | some reason => .ok reason
  | none => .error (.unknownReason value)

end GoAwayReason

structure GoAway where
  reason : GoAwayReason
  nodeId : Checksum
  deriving DecidableEq

/-- Four clock readings in nanoseconds since 1970: of the message that is answered, of its
arrival, of this message's departure, and of its arrival. -/
structure TimeStamps where
  origin : Int64 := 0
  receive : Int64 := 0
  transmit : Int64 := 0
  destination : Int64 := 0
  deriving DecidableEq

namespace TimeStamps

def probe (now : Int64) : TimeStamps := { transmit := now }

def isValid (t : TimeStamps) : Bool := t.transmit != 0

end TimeStamps

inductive IdListMode where
  | none
  | catchUp
  | lastIrreversible
  | normal
  deriving DecidableEq, Repr

namespace IdListMode

def all : List IdListMode := [.none, .catchUp, .lastIrreversible, .normal]

def code : IdListMode → UInt32
  | .none => 0
  | .catchUp => 1
  | .lastIrreversible => 2
  | .normal => 3

def ofCode (value : UInt32) : Except Wire.Fault IdListMode :=
  match all.find? fun mode => mode.code == value with
  | some mode => .ok mode
  | .none => .error (.unknownListMode value)

end IdListMode

structure IdList where
  mode : IdListMode := .none
  pending : UInt32 := 0
  ids : List Checksum := []
  deriving DecidableEq

def IdList.isEmpty (l : IdList) : Bool := l.mode == .none || l.ids.isEmpty

structure Notice where
  transactions : IdList := {}
  blocks : IdList := {}
  deriving DecidableEq

structure Request where
  transactions : IdList := {}
  blocks : IdList := {}
  deriving DecidableEq

/-- Asks for every block after an anchor, one by one. -/
def Request.catchUp (anchor : Checksum) : Request where
  blocks := { mode := .catchUp, ids := [anchor] }

/-- A range of blocks, both ends included. The range from zero to zero stops what is being sent. -/
structure BlockRange where
  first : UInt32
  last : UInt32
  first_le_last : first ≤ last
  deriving DecidableEq

namespace BlockRange

def of (first last : UInt32) : Except Wire.Fault BlockRange :=
  if h : first ≤ last then .ok ⟨first, last, h⟩ else .error (.backwardRange first last)

def reset : BlockRange := ⟨0, 0, by decide⟩

def isReset (r : BlockRange) : Bool := r.first == 0 && r.last == 0

end BlockRange

inductive Message where
  | handshake (m : Handshake)
  | chainSize (m : ChainSize)
  | goAway (m : GoAway)
  | time (m : TimeStamps)
  | notice (m : Notice)
  | request (m : Request)
  | syncRequest (m : BlockRange)
  | signedBlock (raw : Bytes)
  | transaction (raw : Bytes)
  deriving DecidableEq

inductive MessageKind where
  | handshake
  | chainSize
  | goAway
  | time
  | notice
  | request
  | syncRequest
  | signedBlock
  | transaction
  deriving DecidableEq, Repr

namespace MessageKind

def all : List MessageKind :=
  [.handshake, .chainSize, .goAway, .time, .notice, .request, .syncRequest, .signedBlock,
    .transaction]

def tag : MessageKind → UInt8
  | .handshake => 0
  | .chainSize => 1
  | .goAway => 2
  | .time => 3
  | .notice => 4
  | .request => 5
  | .syncRequest => 6
  | .signedBlock => 7
  | .transaction => 8

def ofTag (tag : UInt8) : Except Wire.Fault MessageKind :=
  match all.find? fun kind => kind.tag == tag with
  | some kind => .ok kind
  | none => .error (.unknownTag tag)

end MessageKind

open Wire (Format Reader write read)

instance : Format Handshake where
  write m :=
    write m.networkVersion ++ write m.chainId ++ write m.nodeId ++ write m.key ++ write m.time
      ++ write m.token ++ write m.sig ++ write m.p2pAddress ++ write m.libNum ++ write m.libId
      ++ write m.headNum ++ write m.headId ++ write m.os ++ write m.agent ++ write m.generation
  read := do
    let networkVersion ← read
    let chainId ← read
    let nodeId ← read
    let key ← read
    let time ← read
    let token ← read
    let sig ← read
    let p2pAddress ← read
    let libNum ← read
    let libId ← read
    let headNum ← read
    let headId ← read
    let os ← read
    let agent ← read
    let generation ← read
    return {
      networkVersion, chainId, nodeId, key, time, token, sig, p2pAddress, libNum, libId, headNum,
      headId, os, agent, generation }

instance : Format ChainSize where
  write m := write m.libNum ++ write m.libId ++ write m.headNum ++ write m.headId
  read := do
    let libNum ← read
    let libId ← read
    let headNum ← read
    let headId ← read
    return { libNum, libId, headNum, headId }

instance : Format GoAwayReason where
  write reason := write reason.code
  read := do Reader.lift (GoAwayReason.ofCode (← read))

instance : Format GoAway where
  write m := write m.reason ++ write m.nodeId
  read := do
    let reason ← read
    let nodeId ← read
    return { reason, nodeId }

instance : Format TimeStamps where
  write m := write m.origin ++ write m.receive ++ write m.transmit ++ write m.destination
  read := do
    let origin ← read
    let receive ← read
    let transmit ← read
    let destination ← read
    return { origin, receive, transmit, destination }

instance : Format IdListMode where
  write mode := write mode.code
  read := do Reader.lift (IdListMode.ofCode (← read))

instance : Format IdList where
  write l := write l.mode ++ write l.pending ++ write l.ids
  read := do
    let mode ← read
    let pending ← read
    let ids ← read
    return { mode, pending, ids }

instance : Format Notice where
  write m := write m.transactions ++ write m.blocks
  read := do
    let transactions ← read
    let blocks ← read
    return { transactions, blocks }

instance : Format Request where
  write m := write m.transactions ++ write m.blocks
  read := do
    let transactions ← read
    let blocks ← read
    return { transactions, blocks }

instance : Format BlockRange where
  write r := write r.first ++ write r.last
  read := do
    let first : UInt32 ← read
    let last : UInt32 ← read
    Reader.lift (BlockRange.of first last)

namespace Message

def kind : Message → MessageKind
  | .handshake _ => .handshake
  | .chainSize _ => .chainSize
  | .goAway _ => .goAway
  | .time _ => .time
  | .notice _ => .notice
  | .request _ => .request
  | .syncRequest _ => .syncRequest
  | .signedBlock _ => .signedBlock
  | .transaction _ => .transaction

def payload : Message → Bytes
  | .handshake m => write m
  | .chainSize m => write m
  | .goAway m => write m
  | .time m => write m
  | .notice m => write m
  | .request m => write m
  | .syncRequest m => write m
  | .signedBlock raw => raw
  | .transaction raw => raw

def reader : MessageKind → Reader Message
  | .handshake => handshake <$> read
  | .chainSize => chainSize <$> read
  | .goAway => goAway <$> read
  | .time => time <$> read
  | .notice => notice <$> read
  | .request => request <$> read
  | .syncRequest => syncRequest <$> read
  | .signedBlock => signedBlock <$> Reader.rest
  | .transaction => transaction <$> Reader.rest

def ofPayload (tag : UInt8) (payload : Bytes) : Except Wire.Fault Message :=
  match MessageKind.ofTag tag with
  | .ok kind => (reader kind).value payload
  | .error fault => .error fault

/-- The length of tag and payload, the tag, the payload. -/
def frame (m : Message) : Bytes :=
  write (UInt32.ofNat m.payload.length + 1) ++ write m.kind.tag ++ m.payload

end Message

end BlockSync

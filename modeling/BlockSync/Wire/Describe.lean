import BlockSync.Wire.Message
import BlockSync.Text.Record

/-!
Messages as text for a reader. Long ones are cut down to what matters.
-/

namespace BlockSync

open Text (record applied listed)

def GoAwayReason.name : GoAwayReason → String
  | .noReason => "NoReason"
  | .selfConnect => "SelfConnect"
  | .duplicate => "Duplicate"
  | .wrongChain => "WrongChain"
  | .wrongVersion => "WrongVersion"
  | .forked => "Forked"
  | .unlinkable => "Unlinkable"
  | .badTransaction => "BadTransaction"
  | .validation => "Validation"
  | .benignOther => "BenignOther"
  | .fatalOther => "FatalOther"
  | .authentication => "Authentication"

def IdListMode.name : IdListMode → String
  | .none => "None"
  | .catchUp => "CatchUp"
  | .lastIrreversible => "LastIrrCatchUp"
  | .normal => "Normal"

def MessageKind.name : MessageKind → String
  | .handshake => "Handshake"
  | .chainSize => "ChainSize"
  | .goAway => "GoAway"
  | .time => "Time"
  | .notice => "Notice"
  | .request => "Request"
  | .syncRequest => "SyncRequest"
  | .signedBlock => "SignedBlock"
  | .transaction => "PackedTransaction"

def Checksum.describe (id : Checksum) : String := applied "Checksum256" id.toHex
def PublicKey.describe (key : PublicKey) : String := applied "PublicKey" key.toHex
def Signature.describe (sig : Signature) : String := applied "Signature" sig.toHex

def ChainSize.describe (m : ChainSize) : String :=
  record "ChainSizeMessage" [
    ("last_irreversible_block_num", toString m.libNum),
    ("last_irreversible_block_id", Checksum.describe m.libId),
    ("head_num", toString m.headNum), ("head_id", Checksum.describe m.headId)]

def GoAway.describe (m : GoAway) : String :=
  record "GoAwayMessage" [("reason", m.reason.name), ("node_id", Checksum.describe m.nodeId)]

def TimeStamps.describe (m : TimeStamps) : String :=
  record "TimeMessage" [
    ("org", toString m.origin), ("rec", toString m.receive), ("xmt", toString m.transmit),
    ("dst", toString m.destination)]

def IdList.describe (l : IdList) : String :=
  record "OrderedIds" [
    ("mode", l.mode.name), ("pending", toString l.pending),
    ("ids", listed (l.ids.map Checksum.describe))]

def Notice.describe (m : Notice) : String :=
  record "NoticeMessage" [
    ("known_trx", m.transactions.describe), ("known_blocks", m.blocks.describe)]

def Request.describe (m : Request) : String :=
  record "RequestMessage" [
    ("req_trx", m.transactions.describe), ("req_blocks", m.blocks.describe)]

def BlockRange.describe (r : BlockRange) : String :=
  record "SyncRequestMessage" [
    ("start_block", toString r.first), ("end_block", toString r.last)]

/-- Of a handshake, what is said about the chain and the program; of raw octets, their count. -/
def Message.describe (m : Message) : String :=
  match m with
  | .handshake h =>
    applied m.kind.name (", ".intercalate [
      s!"generation: {h.generation}", s!"lib: {h.libNum}", s!"head: {h.headNum}",
      s!"head_id: {h.headId.toHex}", s!"agent: {Text.quoted h.agent}"])
  | .chainSize c => applied m.kind.name c.describe
  | .goAway g => applied m.kind.name g.describe
  | .time t => applied m.kind.name t.describe
  | .notice n => applied m.kind.name n.describe
  | .request r => applied m.kind.name r.describe
  | .syncRequest r => applied m.kind.name r.describe
  | .signedBlock raw => applied m.kind.name s!"{raw.length} bytes"
  | .transaction raw => applied m.kind.name s!"{raw.length} bytes"

end BlockSync

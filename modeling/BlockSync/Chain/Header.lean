import BlockSync.Hash.Sha256

/-!
Block headers. A raw block starts with its header, which is enough to know the block's number,
time and identity; the rest of it is for the chain engine only.
-/

namespace BlockSync

structure ProducerKey where
  name : UInt64
  key : PublicKey
  deriving DecidableEq

structure ProducerSchedule where
  version : UInt32
  producers : List ProducerKey
  deriving DecidableEq

structure HeaderExtension where
  id : UInt16
  data : Bytes
  deriving DecidableEq

structure Header where
  /-- Half seconds since the start of 2000. -/
  slot : UInt32 := 0
  producer : UInt64 := 0
  confirmed : UInt16 := 0
  previous : Checksum := Octets.zero 32
  transactionRoot : Checksum := Octets.zero 32
  actionRoot : Checksum := Octets.zero 32
  scheduleVersion : UInt32 := 0
  newProducers : Option ProducerSchedule := none
  extensions : List HeaderExtension := []
  deriving DecidableEq

open Wire (Format Reader write read writeCounted readCounted)

instance : Format ProducerKey where
  write p := write p.name ++ write p.key
  read := do
    let name ← read
    let key ← read
    return { name, key }

instance : Format ProducerSchedule where
  write s := write s.version ++ write s.producers
  read := do
    let version ← read
    let producers ← read
    return { version, producers }

instance : Format HeaderExtension where
  write e := write e.id ++ writeCounted e.data
  read := do
    let id ← read
    let data ← readCounted
    return { id, data }

instance : Format Header where
  write h :=
    write h.slot ++ write h.producer ++ write h.confirmed ++ write h.previous
      ++ write h.transactionRoot ++ write h.actionRoot ++ write h.scheduleVersion
      ++ write h.newProducers ++ write h.extensions
  read := do
    let slot ← read
    let producer ← read
    let confirmed ← read
    let previous ← read
    let transactionRoot ← read
    let actionRoot ← read
    let scheduleVersion ← read
    let newProducers ← read
    let extensions ← read
    return {
      slot, producer, confirmed, previous, transactionRoot, actionRoot, scheduleVersion,
      newProducers, extensions }

namespace Header

def ofBlock (raw : Bytes) : Except Wire.Fault Header := (read : Reader Header).value raw

/-- One more than the number in the previous identity. -/
def blockNum (h : Header) : UInt32 := h.previous.blockNum + 1

def epochMillis : Int := 946684800000

def slotMillis : Int := 500

def timeMillis (h : Header) : Int := h.slot.toNat * slotMillis + epochMillis

def digest (h : Header) : Checksum := Sha256.digest (write h)

/-- The digest with the block's number in front. -/
def id (h : Header) : Checksum := h.digest.withBlockNum h.blockNum

end Header

end BlockSync

import BlockSync.Number.Binary64
import BlockSync.Text.Duration

/-!
How fast blocks come in. Blocks are counted in slots of a fixed number; the latest slots form a
window, over which the rates are taken. Reports are spaced apart.
-/

namespace BlockSync

/-- A reading of a clock in nanoseconds. -/
abbrev Instant := Int

/-- The span since an earlier instant, or none at all if it is later. -/
def Instant.since (now earlier : Instant) : Duration := (now - earlier).toNat

structure Slot where
  bytes : Nat
  duration : Duration
  deriving DecidableEq, Repr

structure Throughput where
  count : Nat := 0
  bytes : Nat := 0
  slotStart : Option Instant := none
  window : List Slot := []
  lastReport : Option Instant := none
  deriving DecidableEq

structure SpeedReport where
  blocksPerSecond : Float
  kilobytesPerSecond : Float
  blockNum : UInt32
  /-- Blocks up to the peer's head and the time they will take. -/
  remaining : Option (UInt32 × Duration)

namespace Throughput

def slotBlocks : Nat := 120
def windowSlots : Nat := 720
def reportInterval : Duration := Duration.ofSeconds 10

def trim (window : List Slot) : List Slot := window.drop (window.length - windowSlots)

/-- Counts a block. The first one only starts the clock; the last one of a slot starts the next
slot. -/
def record (t : Throughput) (size : Nat) (now : Instant) : Throughput :=
  match t.slotStart with
  | none => { t with slotStart := some now }
  | some start =>
    let count := t.count + 1
    let bytes := t.bytes + size
    if count = slotBlocks then
      { t with
        count := 0
        bytes := 0
        slotStart := some now
        window := trim (t.window ++ [⟨bytes, now.since start⟩]) }
    else { t with count, bytes }

def secondsOf (d : Duration) : Float :=
  Float.ofNat (d / 1000000000) + Float.ofNat (d % 1000000000) / 1e9

def rates (t : Throughput) : Option (Float × Float) :=
  let bytes := t.window.foldl (fun acc slot => acc + slot.bytes) 0
  let seconds := t.window.foldl (fun acc slot => acc + secondsOf slot.duration) 0.0
  if t.window.isEmpty || seconds ≤ 0.0 then none
  else
    some (Float.ofNat (t.window.length * slotBlocks) / seconds,
      Float.ofNat bytes / seconds / 1024.0)

def timeFor (blocks : UInt32) (blocksPerSecond : Float) : Duration :=
  (Fraction.ofFloat (Float.ofNat blocks.toNat / blocksPerSecond)).scaled 1000000000

/-- The first call starts the timer. A later one reports when the interval has passed, and then
starts the timer again, whether or not there are rates to report. -/
def report (t : Throughput) (now : Instant) (blockNum : UInt32) (remoteHead : Option UInt32) :
    Throughput × Option SpeedReport :=
  let last := t.lastReport.getD now
  if now.since last < reportInterval then ({ t with lastReport := some last }, none)
  else
    let t := { t with lastReport := some now }
    match t.rates with
    | none => (t, none)
    | some (blocksPerSecond, kilobytesPerSecond) =>
      let remaining :=
        match remoteHead with
        | none => none
        | some head =>
          if blockNum < head then some (head - blockNum, timeFor (head - blockNum) blocksPerSecond)
          else none
      (t, some { blocksPerSecond, kilobytesPerSecond, blockNum, remaining })

end Throughput

def SpeedReport.message (r : SpeedReport) : String :=
  let blocks := (Fraction.ofFloat r.blocksPerSecond).toText 1
  let kilobytes := (Fraction.ofFloat r.kilobytesPerSecond).toText 1
  match r.remaining with
  | some (left, time) =>
    s!"in sync, estimated remaining time: {time.eta}, {blocks} b/s, {kilobytes} KB/s, "
      ++ s!"current block num: {r.blockNum}, remaining blocks: {left}"
  | none => s!"block speed: {blocks} b/s, {kilobytes} KB/s, current block num: {r.blockNum}"

end BlockSync

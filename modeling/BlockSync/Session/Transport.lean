import BlockSync.Session.Operation
import BlockSync.Wire.Frame

/-!
One frame at a time over the current transport. Readings take turns, so that each has whole frames.
A frame that cannot be read or written closes the session; the same transport is never tried again.
-/

namespace BlockSync.Session

open BlockSync.Session.Action

/-- Closes the session, unless that was done before. A link that is being read is not dropped. -/
def shut : Action Unit := do
  let before ← update close
  if !before.closed then
    before.writer.forM hangUp
    if before.readings.isEmpty then before.reader.forM ignore

def install (link : LinkId) : Action Unit := do
  let before ← update (attach link)
  before.writer.forM hangUp
  before.reader.forM ignore

inductive ReadFault where
  | gone
  | late
  /-- The stream ended inside a frame, or the length is not admitted. -/
  | broken
  deriving DecidableEq, Repr

def receiveExactly (link : LinkId) (count : Nat) (wait : Wait) :
    ExceptT ReadFault Action Bytes := do
  match (← receive link count wait : Received) with
  | .bytes b => return b
  | .ended => throw .broken
  | .cut => throw .gone
  | .late => throw .late

/-- A frame from the link that the session reads, as long as a transport is current. -/
def receiveFrame (transport : Nat) (deadline : Option Instant) :
    ExceptT ReadFault Action Frame := do
  let s : Session ← state
  match s.reader with
  | none => throw .gone
  | some link =>
    let wait : Wait := { transport := some transport, deadline }
    let length := UInt32.ofNat (Wire.ofLittleEndian (← receiveExactly link 4 wait))
    if !Frame.admits length then throw .broken
    let tag ← receiveExactly link 1 wait
    let payload ← receiveExactly link (length.toNat - 1) wait
    return ⟨tag.headD 0, payload⟩

def readFrame (deadline : Option Instant) : Action (Except ReadFault Frame) := do
  let before ← Action.startReading
  let reading := before.readingCount
  let result ←
    if ← awaitTurn reading deadline then (receiveFrame before.transport deadline).run
    else pure (.error .late)
  modify (endReading reading)
  return result

/-- The next frame. A broken one closes the session. -/
def readMessage (deadline : Option Instant) : Action (Option Frame) := do
  if (← state).closed then return none
  match ← readFrame deadline with
  | .ok frame => return some frame
  | .error .broken =>
    shut
    return none
  | .error _ => return none

def putFrame (m : Message) : Option LinkId → Action Bool
  | some link => sendBytes link m.frame
  | none => return false

/-- Writes to a link; where that does not work, the session is closed. -/
def writeTo (m : Message) (writer : Option LinkId) : Action Bool := do
  let sent ← putFrame m writer
  if !sent then shut
  return sent

def send (m : Message) : Action Bool := do
  let s ← state
  if s.closed then return false
  writeTo m s.writer

end BlockSync.Session

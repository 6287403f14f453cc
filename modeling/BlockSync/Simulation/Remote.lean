import BlockSync.Chain.Fixture
import BlockSync.Simulation.Schedule
import BlockSync.Wire.Frame

/-!
The peer's side of a link: what it says, and what it has seen of what was said to it.
-/

namespace BlockSync.Simulation

inductive Utterance where
  | message (m : Message)
  | raw (bytes : Bytes)
  /-- The answer to the latest probe seen, off by an offset. -/
  | echo (transmit offset : Int64)
  | blocks (parentId : Checksum) (parentNum : UInt32) (count : Nat)

namespace Utterance

def answerTo (probe transmit : Int64) : Message := .time { origin := probe, receive := 1, transmit }

def bytes (lastProbe : Int64) : Utterance → Bytes
  | .message m => m.frame
  | .raw bytes => bytes
  | .echo transmit offset => (answerTo (lastProbe + offset) transmit).frame
  | .blocks parentId parentNum count =>
    (Chain.fixture parentId parentNum count).flatMap fun raw => (Message.signedBlock raw).frame

end Utterance

namespace Link

/-- The peer says something; the answer is whether that is still possible. Nothing can be said at
any time. -/
def say (items : List Utterance) (l : Link) : Bool × Link :=
  let bytes := items.flatMap (·.bytes l.lastProbe)
  if l.abandoned || (!bytes.isEmpty && (l.finished || l.ignored)) then (false, l)
  else (true, { l with inbound := l.inbound ++ bytes })

def finish (l : Link) : Link := { l with finished := true }

def abandon (l : Link) : Link := { l with abandoned := true }

/-- Whether the peer has seen or can see that we write no more. -/
def isOver (l : Link) : Bool := l.sawEnd || (l.hungUp && !l.abandoned)

def unseen (l : Link) : List Message :=
  if l.abandoned then []
  else
    (Frame.allWritten l.outbound.reverse.flatten).filterMap fun f =>
      (Message.ofPayload f.tag f.payload).toOption

def probeAfter (lastProbe : Int64) : Message → Int64
  | .time m => if m.origin = 0 then m.transmit else lastProbe
  | _ => lastProbe

def see (l : Link) : Link :=
  { l with
    outbound := []
    sawEnd := l.isOver
    lastProbe := l.unseen.foldl probeAfter l.lastProbe }

end Link

end BlockSync.Simulation

import BlockSync.Peer.State
import BlockSync.Peer.Throughput

/-!
What a session with a peer holds. A session outlives its transports: at most one is attached at a
time, under a serial number, and work that belongs to an older one is over.
-/

namespace BlockSync

abbrev LinkId := Nat
abbrev TaskId := Nat

structure Session where
  /-- Whether the peer counts as usable. -/
  connected : Bool := false
  /-- Whether there is no open transport. -/
  closed : Bool := true
  transport : Nat := 0
  /-- Whether the current transport was given up. -/
  cut : Bool := false
  reader : Option LinkId := none
  writer : Option LinkId := none
  /-- The readings that want the reader, in turn, and how many there have been. -/
  readings : List Nat := []
  readingCount : Nat := 0
  peer : PeerState := PeerState.fresh
  throughput : Throughput := {}
  heartbeat : Option TaskId := none
  /-- The responder that may go on, and how many there have been. -/
  responder : Option Nat := none
  responders : Nat := 0

namespace Session

def isCurrent (s : Session) (transport : Nat) : Bool := s.transport == transport && !s.cut

def attach (link : LinkId) (s : Session) : Session :=
  { s with
    transport := s.transport + 1
    cut := false
    reader := some link
    writer := some link
    closed := false }

def startReading (s : Session) : Session :=
  { s with readings := s.readings ++ [s.readingCount], readingCount := s.readingCount + 1 }

def endReading (reading : Nat) (s : Session) : Session :=
  { s with readings := s.readings.filter (· ≠ reading) }

/-- Everything that belongs to the transport is over. The reader is kept for those who are at it. -/
def close (s : Session) : Session :=
  if s.closed then s
  else
    { s with
      connected := false
      closed := true
      cut := true
      reader := if s.readings.isEmpty then none else s.reader
      writer := none
      heartbeat := none
      responder := none }

def setConnected (connected : Bool) (s : Session) : Session := { s with connected }

def mapPeer (f : PeerState → PeerState) (s : Session) : Session := { s with peer := f s.peer }

def startResponder (s : Session) : Session :=
  { s with responder := some s.responders, responders := s.responders + 1 }

def stopResponder (s : Session) : Session := { s with responder := none }

def describe (peer : String) (s : Session) : String :=
  Text.record "Connection" [
    ("peer", Text.quoted peer), ("connected", toString s.connected),
    ("closed", toString s.closed)]

end Session

end BlockSync

import BlockSync.Wire.Describe
import BlockSync.Text.Duration

/-!
What a node remembers of a peer.
-/

namespace BlockSync

structure PeerState where
  /-- The generation of the next handshake; zero only before the first reset. -/
  generation : Int16 := 0
  /-- The latest handshake received; it outlives the connection. -/
  lastHandshake : Option Handshake := none
  lastRange : Option BlockRange := none
  /-- The time probe that waits for its answer. -/
  probe : Option TimeStamps := none
  latency : Duration := 0
  deriving DecidableEq

namespace PeerState

/-- Generations start over at one instead of reaching this. -/
def generationLimit : Int16 := 0x7fff

def fresh : PeerState := { generation := 1 }

def reset (s : PeerState) : PeerState :=
  { s with generation := 1, latency := 0, probe := none, lastRange := none }

def followingGeneration (g : Int16) : Int16 := if g + 1 = generationLimit then 1 else g + 1

def advanceGeneration (s : PeerState) : PeerState :=
  { s with generation := followingGeneration s.generation }

def setRange (range : Option BlockRange) (s : PeerState) : PeerState := { s with lastRange := range }

def setProbe (probe : Option TimeStamps) (s : PeerState) : PeerState := { s with probe }

def setLatency (latency : Duration) (s : PeerState) : PeerState := { s with latency }

def setHandshake (m : Handshake) (s : PeerState) : PeerState := { s with lastHandshake := some m }

def remoteHead (s : PeerState) : Option UInt32 := s.lastHandshake.map (·.headNum)

def describe (s : PeerState) : String :=
  Text.record "PeerState" [
    ("generation", toString s.generation),
    ("remote_head", Text.optional (s.remoteHead.map toString)),
    ("last_sync_request", Text.optional (s.lastRange.map BlockRange.describe)),
    ("latency", s.latency.describe)]

end PeerState

end BlockSync

import BlockSync.Session.Transport
import BlockSync.Number.Saturating

/-!
What a session asks of its peer: handshakes, ranges of blocks, an end to a range, and blocks one
by one from the head on.
-/

namespace BlockSync.Session

open BlockSync.Session.Action

def hostOs : String := "linux"

/-- A handshake with the next generation, about the chain as it is. -/
def buildHandshake (settings : Settings) : Action Handshake := do
  let before ← updatePeer PeerState.advanceGeneration
  let chainId ← chain .chainId
  let nodeId ← nonce
  let time ← clock
  let libNum ← chain .libNum
  let libId ← chain .libId
  let headNum ← chain .headNum
  let headId ← chain .headId
  return {
    networkVersion := settings.networkVersion
    chainId
    nodeId
    key := Octets.zero 34
    time
    token := Octets.zero 32
    sig := Octets.zero 66
    p2pAddress := settings.p2pAddress
    libNum
    libId
    headNum
    headId
    os := hostOs
    agent := settings.agent
    generation := before.generation }

def sendHandshake (settings : Settings) : Action Bool := do
  send (.handshake (← buildHandshake settings))

/-- Asks for a range and remembers it; a backward range is not asked for. -/
def sendRange (first last : UInt32) : Action Bool := do
  match BlockRange.of first last with
  | .error _ => return true
  | .ok range =>
    modifyPeer (PeerState.setRange (some range))
    send (.syncRequest range)

/-- The last block of the range that starts at `first`, within the span and the remote head. -/
def rangeEnd (span first remoteHead : UInt32) : UInt32 :=
  min (satAdd first (satSub span 1)) remoteHead

/-- Asks for a range. Without an end it goes as far as span and remote head allow, and where that
is nowhere, a handshake is sent instead. -/
def sendRangeFrom (settings : Settings) (first : UInt32) : Option UInt32 → Action Bool
  | some last => sendRange first last
  | none => do
    match (← peerState).remoteHead with
    | none => return true
    | some remoteHead =>
      let last := rangeEnd settings.syncFetchSpan first remoteHead
      if last < first then sendHandshake settings else sendRange first last

def sendSyncRequest (settings : Settings) (first? last? : Option UInt32) : Action Bool := do
  match first? with
  | some first => sendRangeFrom settings first last?
  | none => sendRangeFrom settings (satAdd (← chain .headNum) 1) last?

def sendReset : Action Bool := send (.syncRequest .reset)

def sendCatchUp : Action Bool := do
  send (.request (.catchUp (← chain .headId)))

/-- Asks again for all blocks that are not irreversible. -/
def resync (settings : Settings) : Action Bool := do
  let first := satAdd (← chain .libNum) 1
  let last ← chain .headNum
  sendSyncRequest settings (some first) (some last)

end BlockSync.Session

import BlockSync.Session.Request

/-!
Blocks in both directions: those the peer sends are pushed to the chain engine, and those it asks
for are sent one by one beside everything else.
-/

namespace BlockSync.Session

open BlockSync.Session.Action

def statisticsAge : Int := 60000

def restart : Action Bool := do
  if !(← sendReset) then return false
  sendCatchUp

/-- At the end of the range the next range, or, when no irreversible block is missing, a handshake
and blocks one by one. -/
def afterRange (settings : Settings) (peer : PeerState) (num : UInt32) : Action Bool := do
  if peer.lastRange.map (·.last) ≠ some num then return true
  let remoteLib := (peer.lastHandshake.map (·.libNum)).getD 0
  if num < remoteLib then return ← sendSyncRequest settings none none
  if !(← sendHandshake settings) then return false
  modifyPeer (PeerState.setRange none)
  sendCatchUp

/-- After a block was accepted: a handshake at the peer's head, then what the range asks for. -/
def afterBlock (settings : Settings) (num : UInt32) (size : Nat) : Action Bool := do
  let peer ← peerState
  let now ← instant
  measure fun t => ((t.record size now).report now num peer.remoteHead).1
  if peer.remoteHead = some num then
    if !(← sendHandshake settings) then return false
  afterRange settings peer num

def offerBlock (settings : Settings) (header : Header) (raw : Bytes) : Action Bool := do
  let millis := (← clock).toInt / 1000000
  match ← push raw (millis - header.timeMillis < statisticsAge) with
  | .ok _ =>
    rest
    afterBlock settings header.blockNum raw.length
  | .error .unlinkable => restart
  | .error fault =>
    if fault.isAlreadyKnown then return true
    stop
    return false

/-- Takes a block from the peer; the answer is whether to go on receiving. -/
def handleBlock (settings : Settings) (raw : Bytes) : Action Bool := do
  match Header.ofBlock raw with
  | .error _ => return false
  | .ok header =>
    let num := header.blockNum
    let headNum ← chain .headNum
    if num ≤ headNum then
      if (← chain (.idAt num)) = some header.id then return true
    else if satAdd headNum 1 < num then return ← restart
    offerBlock settings header raw

/-- Sends one block of a range, if it is there; the answer is what is left to do. -/
def respondWith (next last : UInt32) (transport responder : Nat) :
    Option Bytes → Action (Option Activity)
  | none => return none
  | some raw => do
    if !(← send (.signedBlock raw)) then return none
    if next = last then return none
    return some (.respond (next + 1) last transport responder)

/-- Sends one block of a range, unless a later request or the end of the transport stopped that. -/
def respondOnce (next last : UInt32) (transport responder : Nat) : Action (Option Activity) := do
  let s ← state
  if !s.isCurrent transport || s.responder ≠ some responder then return none
  if ← isStopping then return none
  respondWith next last transport responder (← chain (.blockAt next))

/-- Starts sending a range in place of the one before; the reset range only stops that. -/
def handleSyncRequest (range : BlockRange) : Action Unit := do
  if range.isReset then modify stopResponder
  else
    let before ← update startResponder
    let _ ← spawn (.respond range.first range.last before.transport before.responders)

end BlockSync.Session

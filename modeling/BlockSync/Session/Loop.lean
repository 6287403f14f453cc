import BlockSync.Session.Block
import BlockSync.Session.Latency

/-!
The receive loop: what a session does with each message of its peer.
-/

namespace BlockSync.Session

open BlockSync.Session.Action

/-- Heads that differ by no more than this are in step. -/
def inStep : UInt32 := 1

/-- A handshake shows where the peer stands: behind it, blocks are asked for; ahead of it, it is
told so. -/
def handleHandshake (settings : Settings) (m : Handshake) : Action Bool := do
  modifyPeer (PeerState.setHandshake m)
  let headNum ← chain .headNum
  let headId ← chain .headId
  let libNum ← chain .libNum
  if headNum < m.libNum then sendSyncRequest settings none none
  else if headId = m.headId then return true
  else if headNum < m.headNum then sendCatchUp
  else if satAdd m.headNum inStep < libNum then
    send (.notice {
      transactions := { mode := .lastIrreversible, pending := libNum }
      blocks := { mode := .lastIrreversible, pending := headNum, ids := [headId] } })
  else if satAdd m.headNum inStep < headNum then
    let earliest ← chain .earliest
    send (.notice {
      blocks :=
        { mode := .catchUp, pending := headNum, ids := [headId, Checksum.ofBlockNum earliest] } })
  else return true

def farewell : GoAway := ⟨.noReason, Octets.zero 32⟩

def handleNotice (settings : Settings) (m : Notice) : Action Bool := do
  match m.blocks.mode with
  | .none | .normal => return true
  | .catchUp =>
    if m.blocks.ids.isEmpty then
      announce farewell
      let _ ← send (.goAway farewell)
      shut
      return false
    sendCatchUp
  | .lastIrreversible =>
    let first := satAdd (← chain .headNum) 1
    if m.blocks.pending < first then return true
    if !(← sendReset) then return false
    sendSyncRequest settings (some first) (some m.blocks.pending)

def dispatch (settings : Settings) : Message → Action Bool
  | .handshake m => handleHandshake settings m
  | .chainSize _ => return true
  | .goAway m => do
    announce m
    shut
    return false
  | .time m => do
    let _ ← handleTime m
    return true
  | .notice m => handleNotice settings m
  | .request _ => return true
  | .syncRequest range => do
    handleSyncRequest range
    return true
  | .signedBlock raw => handleBlock settings raw
  | .transaction _ => return true

/-- What a frame leads to; the answer is whether to go on. Messages of an unknown kind are passed
over, and those that do not decode close the session. -/
def handleFrame (settings : Settings) (frame : Frame) : Action Bool := do
  if ← isStopping then return false
  match Message.ofPayload frame.tag frame.payload with
  | .ok m => dispatch settings m
  | .error (.unknownTag _) => return true
  | .error _ =>
    shut
    return false

def handleMessage (settings : Settings) : Action Bool := do
  match ← readMessage none with
  | none => return false
  | some frame => handleFrame settings frame

/-- Before the first message: what an older transport may have left is reset. -/
def greet (settings : Settings) : Action Bool := do
  modifyPeer (PeerState.setRange none)
  let _ ← sendReset
  sendHandshake settings

/-- One round of the loop; the answer is whether another follows. -/
def receiveOnce (settings : Settings) : Action Bool := do
  if ← isStopping then return false
  handleMessage settings

def runOnce (settings : Settings) : Activity → Action (Option Activity)
  | .heartbeat transport => beat settings transport
  | .respond next last transport responder => respondOnce next last transport responder

end BlockSync.Session

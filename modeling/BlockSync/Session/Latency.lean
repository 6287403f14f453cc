import BlockSync.Session.Request

/-!
Time probes. A probe carries the time of its departure; the answer gives it back, and the time
gone by is the latency. Heartbeats send probes and handshakes at intervals.
-/

namespace BlockSync.Session

open BlockSync.Session.Action

def heartbeatInterval : Duration := Duration.ofSeconds 30
def probeTimeout : Duration := Duration.ofSeconds 30

/-- Nanoseconds between two readings of the clock, none if they go backwards. -/
def elapsed (now earlier : Int64) : Duration :=
  (min (now.toInt - earlier.toInt) 0x7fffffffffffffff).toNat

/-- Answers a probe. What answers the probe that is waited for gives the latency. -/
def handleTime (m : TimeStamps) : Action Bool := do
  let now ← clock
  if !m.isValid then return false
  if m.origin = 0 then
    return ← send (.time { origin := m.transmit, receive := now, transmit := now })
  modifyPeer fun p =>
    if p.probe.map (·.transmit) = some m.origin then
      (p.setLatency (elapsed now m.origin)).setProbe none
    else p
  return true

/-- Sends a probe and takes the latency from the next message, which must be its answer. -/
def estimateLatency : Action Bool := do
  let probe := TimeStamps.probe (← clock)
  if !(← send (.time probe)) then return false
  let start ← instant
  match ← readMessage (some (start + probeTimeout)) with
  | none => return false
  | some frame =>
    match Message.ofPayload frame.tag frame.payload with
    | .ok (.time reply) =>
      if !reply.isValid || reply.origin ≠ probe.transmit then return false
      let now ← clock
      modifyPeer (PeerState.setLatency (elapsed now reply.origin))
      return true
    | _ => return false

/-- One interval of the heartbeat; it stops with its transport, or when the peer is not usable. -/
def beat (settings : Settings) (transport : Nat) : Action (Option Activity) := do
  let start ← instant
  if !(← pause (start + heartbeatInterval) (some transport)) then return none
  if !(← state).connected then return none
  let probe := TimeStamps.probe (← clock)
  modifyPeer (PeerState.setProbe (some probe))
  if !(← send (.time probe)) then return none
  if !(← sendHandshake settings) then return none
  return some (.heartbeat transport)

def startHeartbeat : Action Unit := do
  let task ← spawn (.heartbeat (← state).transport)
  let before ← update fun s => { s with heartbeat := some task }
  match before.heartbeat with
  | some old => abort old
  | none => pure ()

end BlockSync.Session

import BlockSync.Proxy.Host
import BlockSync.Proxy.Socks5
import BlockSync.Session.Latency

/-!
Connecting to a peer: a transport is opened, directly or through a proxy, and counts as connected
when the peer answers a time probe.
-/

namespace BlockSync.Session

open BlockSync.Session.Action

def dialTimeout : Duration := Duration.ofSeconds 10

def tlsPort : UInt16 := 443

def overLink (link : LinkId) (deadline : Instant) : Program.Embedding Stream.interface interface where
  op
    | .send bytes => .send link bytes
    | .receive count => .receive link count { deadline := some deadline }
  answer
    | .send _, sent => sent
    | .receive _, received =>
      match received with
      | .bytes b => some b
      | _ => none

/-- A link through a proxy, if the proxy opens one. -/
def openTunnel (proxy : Address) (target : Address) (deadline : Instant) :
    Action (Option LinkId) := do
  match Ipv4.ofHost target.host with
  | .error _ => return none
  | .ok ip =>
    match ← dial proxy false with
    | .opened link =>
      match ← (Socks5.handshake ip target.port).embed (overLink link deadline) with
      | .ok () => return some link
      | .error _ =>
        hangUp link
        ignore link
        return none
    | _ => return none

def openLink (settings : Settings) (target : Address) : Action (Option LinkId) := do
  let deadline := (← instant) + dialTimeout
  if target.port = tlsPort then
    match ← dial target true with
    | .opened link => return some link
    | _ => return none
  match settings.socks5Proxy with
  | some text =>
    match Address.ofText text with
    | .ok proxy => openTunnel proxy target deadline
    | .error _ => return none
  | none =>
    match ← dial target false with
    | .opened link => return some link
    | _ => return none

def reset : Action Unit := do
  modify (setConnected false)
  modifyPeer PeerState.reset
  measure fun _ => {}

/-- What connecting comes to once it is this caller's turn. -/
def connectOnce (settings : Settings) (target : Address) : Action Bool := do
  if (← state).connected then return true
  shut
  reset
  match ← openLink settings target with
  | none => return false
  | some link =>
    install link
    if !(← estimateLatency) then
      shut
      return false
    modify (setConnected true)
    startHeartbeat
    return true

/-- Connects, unless another caller did so in the meantime. -/
def connect (settings : Settings) (target : Address) : Action Bool := do
  lockDial
  let connected ← connectOnce settings target
  unlockDial
  return connected

end BlockSync.Session

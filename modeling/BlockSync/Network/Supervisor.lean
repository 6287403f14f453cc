import BlockSync.Network.Operation

/-!
Supervision: peers are dialed and dialed again, the connected peer of least latency is received
from until its session ends, and peers that asked for it are left.
-/

namespace BlockSync.Network

open BlockSync.Network.Action

def retryInterval : Duration := Duration.ofSeconds 30
def dialInterval : Duration := Duration.ofSeconds 10
/-- Pause after a session whose transport is still open. -/
def reselectDelay : Duration := Duration.ofSeconds 3
/-- Pause after a session whose transport failed. -/
def failureDelay : Duration := Duration.ofSeconds 5
def pollInterval : Duration := Duration.ofMillis 100

def addContact (peer : String) (address : Address) : Action Contact := do
  let session ← create peer
  let contact : Contact := { session, peer, address }
  enlist contact
  return contact

/-- Adds a contact for each address of a list; what is no address is passed over. -/
def addContacts : List String → Action Unit
  | [] => pure ()
  | peer :: rest => do
    match Address.ofText peer with
    | .ok address => let _ ← addContact peer address
    | .error _ => pure ()
    addContacts rest

def ensureContacts (settings : Settings) : Action Unit := do
  if !(← markInitialized) then addContacts settings.peers

def isConnected (contact : Contact) : Action Bool := do
  return (← session contact.session Session.Action.state).connected

def disconnected : List Contact → Action (List Contact)
  | [] => return []
  | contact :: rest => do
    let connected ← isConnected contact
    let others ← disconnected rest
    return if connected then others else contact :: others

def spawnAll : List Contact → Action (List TaskId)
  | [] => return []
  | contact :: rest => do
    let task ← spawn (.connect contact)
    return task :: (← spawnAll rest)

def joinAll : List TaskId → Action Unit
  | [] => pure ()
  | task :: rest => do
    join task
    joinAll rest

/-- Dials at once all that are not connected, and waits for every outcome. -/
def connectAll : Action Unit := do
  joinAll (← spawnAll (← disconnected (← contactList)))

/-- A peer is left: first its contacts are forgotten, then none of them is active any more. -/
def leave (peer : String) : Action Unit := do
  forget peer
  deactivate peer

def leaveAll : List Departure → Action Unit
  | [] => pure ()
  | departure :: rest => do
    leave departure.peer
    leaveAll rest

def leaveDeparted : Action Unit := do leaveAll (← departures)

/-- The connected contact of least latency, the first of several. -/
def fastest (best : Option (Duration × Contact)) : List Contact → Action (Option Contact)
  | [] => return best.map (·.2)
  | contact :: rest => do
    if !(← isConnected contact) then return ← fastest best rest
    let latency := (← session contact.session Session.Action.peerState).latency
    let better := match best with
      | none => true
      | some (least, _) => latency < least
    fastest (if better then some (latency, contact) else best) rest

def anyConnected : List Contact → Action Bool
  | [] => return false
  | contact :: rest => do
    if ← isConnected contact then return true
    anyConnected rest

/-- Dials once; the answer is whether a peer is connected, false on shutdown, and nothing when it
is to be tried again. -/
def dialOnce : Action (Option Bool) := do
  if ← isStopping then return some false
  leaveDeparted
  connectAll
  if ← anyConnected (← contactList) then return some true
  if ← pause dialInterval then return none
  return some false

/-- One step towards a peer to receive from: another step, or a contact, or none on shutdown. -/
def choose (settings : Settings) : Choice → Action (Choice ⊕ Option Contact)
  | .select => do
    leaveDeparted
    match ← fastest none (← contactList) with
    | some contact => return .inr (some contact)
    | none =>
      ensureContacts settings
      return .inl .dial
  | .dial => do
    match ← dialOnce with
    | none => return .inl .dial
    | some true => return .inl .select
    | some false => return .inr none

/-- Looks once for the active contact: another look, or what was found before the deadline. -/
def poll (deadline : Instant) : Action (Unit ⊕ Option Contact) := do
  match ← activeContact with
  | some contact => return .inr (some contact)
  | none =>
    if deadline ≤ (← instant) then return .inr none
    if ← pause pollInterval then return .inl ()
    return .inr none

def afterSession (contact : Contact) : Action Phase := do
  setActive none
  let s ← session contact.session Session.Action.state
  if ← pause (if s.closed then failureDelay else reselectDelay) then return .idle
  return .stopping

def closeAll : List Contact → Action Unit
  | [] => pure ()
  | contact :: rest => do
    session contact.session Session.shut
    closeAll rest

/-- One step of the supervisor, and where it stands then. -/
def supervise (settings : Settings) (retry : TaskId) : Phase → Action (Option Phase)
  | .idle => do
    if ← isStopping then return some .stopping
    return some (.choosing .select)
  | .choosing choice => do
    match ← choose settings choice with
    | .inl choice => return some (.choosing choice)
    | .inr none => return some .stopping
    | .inr (some contact) =>
      report contact
      setActive (some contact)
      if ← session contact.session (Session.greet settings) then return some (.receiving contact)
      return some (← afterSession contact)
  | .receiving contact => do
    if ← session contact.session (Session.receiveOnce settings) then
      return some (.receiving contact)
    return some (← afterSession contact)
  | .stopping => do
    stop
    join retry
    closeAll (← contactList)
    return none

def runOnce (settings : Settings) : Activity → Action (Option Activity)
  | .session id a => do
    return (← session id (Session.runOnce settings a)).map (.session id)
  | .connect contact => do
    let _ ← session contact.session (Session.connect settings contact.address)
    return none
  | .retry => do
    if !(← pause retryInterval) then return none
    leaveDeparted
    connectAll
    return some .retry
  | .supervise phase retry => do
    return (← supervise settings retry phase).map (.supervise · retry)
  | .run => do
    ensureContacts settings
    let retry ← spawn .retry
    return some (.supervise .idle retry)

end BlockSync.Network

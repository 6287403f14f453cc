import BlockSync.Simulation.Stage

/-!
What may be done with a supervisor and its peers.
-/

namespace BlockSync.Simulation.Stage

open Network

def performing {α : Type} (p : Action α) (s : Stage) : Stage := (s.call 0 p).2

def ensure (s : Stage) : Stage := s.performing (ensureContacts s.settings)

def connect (id : SessionId) (s : Stage) : Option Bool × Stage :=
  match Address.ofText (s.world.memberAt id).peer with
  | .ok address => s.act id (Session.connect s.settings address)
  | .error _ => (some false, s)

def connectTimes (id : SessionId) : Nat → Stage → List (Option Bool) × Stage
  | 0, s => ([], s)
  | count + 1, s =>
    let (result, s) := s.connect id
    let (results, s) := s.connectTimes id count
    (result :: results, s)

def mark (id : SessionId) (connected : Bool) (latency : Duration) (s : Stage) : Stage :=
  s.doing id do
    Session.Action.modify (Session.setConnected connected)
    Session.Action.modifyPeer (PeerState.setLatency latency)

def choicePatience : Duration := Duration.ofSeconds 25

def choosing (limit : Instant) : Nat → Choice → Stage → Option (Option Contact) × Stage
  | 0, _, s => (none, s)
  | fuel + 1, choice, s =>
    let (result, world) := s.world.callUntil limit World.turns (choose s.settings choice)
    let s := { s with world }
    match result with
    | some (.inl choice) => s.choosing limit fuel choice
    | some (.inr found) => (some found, s)
    | none => (none, s)

def chooseFastest (s : Stage) : Option (Option Contact) × Stage :=
  s.choosing (s.world.now + choicePatience) World.turns .select

def dialing (limit : Instant) : Nat → Stage → Option Bool × Stage
  | 0, s => (none, s)
  | fuel + 1, s =>
    let (result, world) := s.world.callUntil limit World.turns dialOnce
    let s := { s with world }
    match result with
    | some (some connected) => (some connected, s)
    | some none => s.dialing limit fuel
    | none => (none, s)

def dialAll (s : Stage) : Option Bool × Stage :=
  (s.ensure).dialing (s.world.now + choicePatience) World.turns

def polling (deadline : Instant) : Nat → Stage → Option Contact × Stage
  | 0, s => (none, s)
  | fuel + 1, s =>
    match s.call pollInterval (poll deadline) with
    | (some (.inl ()), s) => s.polling deadline fuel
    | (some (.inr found), s) => (found, s)
    | (none, s) => (none, s)

/-- Waits for the active contact; with how long that took. -/
def await (timeout : Duration) (s : Stage) : Option Contact × Duration × Stage :=
  let start := s.world.now
  let (found, s) := s.polling (start + timeout) World.turns
  (found, (s.world.now - start).toNat, s)

/-- Drops a peer as if it had said go away. -/
def leave (peer : String) (s : Stage) : Stage := s.performing (Network.leave peer)

def start (s : Stage) : Stage :=
  let (task, world) := s.world.addTask (runOnce s.settings .run)
  { s with world, runner := some task }

def isRunning (s : Stage) : Bool := s.runner.any s.world.isRunning

def active (s : Stage) : Option String := s.world.network.active.map (·.peer)

end BlockSync.Simulation.Stage

import BlockSync.Simulation.Stage

/-!
What may be done with one session and its peer.
-/

namespace BlockSync.Simulation.Stage

open Session

def dialogue (world : World) (peer : String) (detached : Bool) : Stage :=
  let (id, world) := world.addMember { peer }
  let s : Stage := { world }
  if detached then s else s.attach id

/-- Handles messages as long as the answer is to go on; a message that never comes ends it too. -/
def handle (id : SessionId) : Nat → Stage → List (Option Bool) × Stage
  | 0, s => ([], s)
  | count + 1, s =>
    let (result, s) := s.act id (handleMessage s.settings)
    let s := s.quieten
    match result with
    | some true =>
      let (results, s) := s.handle id count
      (some true :: results, s)
    | _ => ([result], s)

def rounds (id : SessionId) : Nat → Stage → Option Bool × Stage
  | 0, s => (none, s)
  | fuel + 1, s =>
    match s.act id (receiveOnce s.settings) with
    | (some true, s) => s.rounds id fuel
    | ended => ended

def receiveAll (id : SessionId) (s : Stage) : Option Bool × Stage :=
  match s.act id (greet s.settings) with
  | (some true, s) => s.rounds id World.turns
  | ended => ended

/-- Takes requests for ranges one after the other before any is served; the latest that is no range
is reported. -/
def serve (id : SessionId) : List (UInt32 × UInt32) → Stage → Option Wire.Fault × Stage
  | [], s => (none, s)
  | (first, last) :: rest, s =>
    match BlockRange.of first last with
    | .ok range => (s.doing id (handleSyncRequest range)).serve id rest
    | .error fault =>
      let (later, s) := s.serve id rest
      (later.or (some fault), s)

/-- Builds handshakes and gives the generation of the latest, or the one from before if none is
built. -/
def generations (id : SessionId) (latest : Int16) : Nat → Stage → Int16 × Stage
  | 0, s => (latest, s)
  | count + 1, s =>
    match s.act id (buildHandshake s.settings) with
    | (some built, s) => s.generations id built.generation count
    | (none, s) => s.generations id latest count

inductive Reply where
  | silence
  | leaving
  | saying (item : Utterance)

def reply (id : SessionId) (s : Stage) : Reply → Stage
  | .silence => s
  | .leaving => s.mapLink id Link.abandon
  | .saying item => (s.say id [item]).2

def probePatience : Duration := Duration.ofSeconds 60

/-- Estimates the latency while the peer answers the probe; with what the peer saw. -/
def estimate (id : SessionId) (answer : Reply) (s : Stage) :
    Option Bool × List Message × Stage :=
  let (p, world) :=
    match World.proceed none (Network.Action.session id estimateLatency) s.world with
    | (.done ok, w) => (.done ok, w)
    | (.waiting p, w) => (p, w)
    | (.resting p, w) => (p, w)
  let s := { s with world }
  let (seen, ended) := match s.linkOf id with
    | some link => ((s.world.linkAt link).unseen, (s.world.linkAt link).isOver)
    | none => ([], false)
  let s := s.mapLink id Link.see
  let s := if seen.isEmpty && !ended then s else s.reply id answer
  let (ok, s) := s.call probePatience p
  (ok, seen, s)

def listen (id : SessionId) : Stage → Stage :=
  mapWorld (World.mapMember id fun m => { m with listeners := m.listeners + 1 })

def dropListeners (id : SessionId) : Stage → Stage :=
  mapWorld (World.mapMember id fun m => { m with listeners := 0 })

end BlockSync.Simulation.Stage

import BlockSync.Network.Supervisor
import BlockSync.Simulation.World

/-!
What each operation comes to in a world. An operation that has to wait has no answer yet.
-/

namespace BlockSync.Simulation.World

/-- Readings of the clock are further apart than peers guess. -/
def tick : Int64 := 1009

def isCut (id : SessionId) (transport : Option Nat) (w : World) : Bool :=
  w.stopping || transport.any fun t => !(w.sessionAt id).isCurrent t

/-- Octets that were collected for a reading that ends early are lost. -/
def receive (id : SessionId) (link : LinkId) (count : Nat) (wait : Session.Wait) (w : World) :
    Option (Session.Received × World) :=
  let l := w.linkAt link
  let taken := l.inbound.take count
  let lost := w.mapLink link fun l => { l with inbound := [] }
  if w.isCut id wait.transport then some (.cut, lost)
  else if taken.length = count then
    some (.bytes taken, w.mapLink link fun l => { l with inbound := l.inbound.drop count })
  else if l.finished || l.abandoned then some (.ended, lost)
  else if wait.deadline.any (· ≤ w.now) then some (.late, lost)
  else none

def send (link : LinkId) (frame : Bytes) (w : World) : Bool × World :=
  let l := w.linkAt link
  if l.abandoned || l.hungUp then (false, w)
  else (true, w.mapLink link fun l => { l with outbound := frame :: l.outbound })

def push (raw : Bytes) (wantStatistics : Bool) (w : World) : Chain.PushResult × World :=
  let (ledger, result) := w.ledger.push raw wantStatistics
  let num := match Header.ofBlock raw with
    | .ok header => header.blockNum
    | .error _ => 0
  let locked := if w.hasLock then some true else none
  let push : Push := ⟨num, raw.length, wantStatistics, locked, result⟩
  (result, { w with ledger, pushes := w.pushes ++ [push] })

def announce (id : SessionId) (message : GoAway) (w : World) : World :=
  let m := w.memberAt id
  let departure : Departure := ⟨m.peer, message⟩
  { w with
    departures := if m.supervised then w.departures ++ [departure] else w.departures
    heard := w.heard ++ List.replicate m.listeners departure }

def pause (until' : Instant) (cut : Bool) (w : World) : Option (Bool × World) :=
  if cut then some (false, w)
  else if until' ≤ w.now then some (true, w)
  else none

def performSession (id : SessionId) (w : World) :
    (op : Session.Op) → Option (Session.interface.Answer op × World)
  | .clock => some (w.wall + tick, { w with wall := w.wall + tick })
  | .instant => some (w.now, w)
  | .nonce => some (Octets.zero 32, w)
  | .chain q => some (w.ledger.answer q, w)
  | .push raw wantStatistics => some (w.push raw wantStatistics)
  | .update f => some (w.sessionAt id, w.mapSession id f)
  | .updatePeer f => some ((w.sessionAt id).peer, w.mapSession id (Session.mapPeer f))
  | .measure f =>
    some ((), w.mapSession id fun s => { s with throughput := f s.throughput })
  | .startReading => some (w.sessionAt id, w.mapSession id Session.startReading)
  | .receive link count wait => w.receive id link count wait
  | .send link frame => some (w.send link frame)
  | .hangUp link => some ((), w.mapLink link fun l => { l with hungUp := true })
  | .ignore link => some ((), w.mapLink link fun l => { l with ignored := true })
  | .awaitTurn reading deadline =>
    if (w.sessionAt id).readings.head? = some reading then some (true, w)
    else if deadline.any (· ≤ w.now) then some (false, w)
    else none
  | .announce message => some ((), w.announce id message)
  | .isStopping => some (w.stopping, w)
  | .stop => some ((), { w with stopping := true })
  | .spawn a => some (w.addTask (Network.runOnce w.settings (.session id a)))
  | .abort task => some ((), w.abort task)
  | .pause until' transport => w.pause until' (w.isCut id transport)
  | .rest => some ((), w)
  | .dial _ _ => some (if w.stopping then .stopped else .refused, w)
  | .lockDial =>
    if (w.memberAt id).dialing then none
    else some ((), w.mapMember id fun m => { m with dialing := true })
  | .unlockDial => some ((), w.mapMember id fun m => { m with dialing := false })

def perform (w : World) : (op : Network.Op) → Option (Network.interface.Answer op × World)
  | .session id op => w.performSession id op
  | .instant => some (w.now, w)
  | .isStopping => some (w.stopping, w)
  | .stop => some ((), { w with stopping := true })
  | .contacts => some (w.network.contacts, w)
  | .enlist contact => some ((), { w with network := w.network.extended contact })
  | .forget peer => some ((), { w with network := w.network.without peer })
  | .active => some (w.network.active, w)
  | .setActive contact? => some ((), { w with network.active := contact? })
  | .deactivate peer => some ((), { w with network := w.network.deactivated peer })
  | .markInitialized =>
    some (w.network.initialized, { w with network.initialized := true })
  | .report _ => some ((), w)
  | .create peer => some (w.addMember { peer, supervised := true })
  | .departures => some (w.departures, { w with departures := [] })
  | .spawn a => some (w.addTask (Network.runOnce w.settings a))
  | .join task => if w.isRunning task then none else some ((), w)
  | .pause until' => w.pause until' w.stopping

end BlockSync.Simulation.World

import BlockSync.Chain.Engine
import BlockSync.Config.Settings
import BlockSync.Program
import BlockSync.Session.State

/-!
The operations that sessions are programs over. Each is one step: no other work comes between its
beginning and its end.
-/

namespace BlockSync.Session

inductive Activity where
  | heartbeat (transport : Nat)
  /-- Blocks from `next` to `last`, as long as a transport is current and the responder may go on. -/
  | respond (next last : UInt32) (transport responder : Nat)
  deriving DecidableEq

/-- What ends the waiting for octets, apart from a shutdown. -/
structure Wait where
  transport : Option Nat := none
  deadline : Option Instant := none

inductive Received where
  | bytes (b : Bytes)
  /-- The peer said less than that. -/
  | ended
  /-- The transport is no longer current, or a shutdown was requested. -/
  | cut
  | late

inductive Dialed where
  | opened (link : LinkId)
  | refused
  | stopped

inductive Op where
  | clock
  | instant
  | nonce
  | chain (q : Chain.Query)
  /-- Pushing holds the chain's lock, where there is one. -/
  | push (raw : Bytes) (wantStatistics : Bool)
  /-- Changes the session; the answer is what it was. -/
  | update (f : Session → Session)
  /-- Changes what is known of the peer, under a lock of its own; the answer is what it was. -/
  | updatePeer (f : PeerState → PeerState)
  | measure (f : Throughput → Throughput)
  /-- A new reading takes its place in the line; the answer is what the session was. -/
  | startReading
  | receive (link : LinkId) (count : Nat) (wait : Wait)
  | send (link : LinkId) (frame : Bytes)
  | hangUp (link : LinkId)
  | ignore (link : LinkId)
  /-- Waits until it is a reading's turn; the answer is false if the deadline comes first. -/
  | awaitTurn (reading : Nat) (deadline : Option Instant)
  /-- Tells whoever listens that the peer is to be left. -/
  | announce (m : GoAway)
  | isStopping
  | stop
  | spawn (a : Activity)
  | abort (task : TaskId)
  /-- Waits for an instant; the answer is false if the transport ends or a shutdown comes first. -/
  | pause (until' : Instant) (transport : Option Nat)
  /-- Lets other work go on. -/
  | rest
  | dial (address : Address) (secure : Bool)
  | lockDial
  | unlockDial

abbrev interface : Interface where
  Op := Op
  Answer
    | .clock => Int64
    | .instant => Instant
    | .nonce => Checksum
    | .chain q => q.Answer
    | .push _ _ => Chain.PushResult
    | .update _ => Session
    | .updatePeer _ => PeerState
    | .measure _ => Unit
    | .startReading => Session
    | .receive _ _ _ => Received
    | .send _ _ => Bool
    | .hangUp _ => Unit
    | .ignore _ => Unit
    | .awaitTurn _ _ => Bool
    | .announce _ => Unit
    | .isStopping => Bool
    | .stop => Unit
    | .spawn _ => TaskId
    | .abort _ => Unit
    | .pause _ _ => Bool
    | .rest => Unit
    | .dial _ _ => Dialed
    | .lockDial => Unit
    | .unlockDial => Unit

abbrev Action := Program interface

namespace Action

def clock : Action Int64 := Program.request (I := interface) .clock
def instant : Action Instant := Program.request (I := interface) .instant
def nonce : Action Checksum := Program.request (I := interface) .nonce

def chain (q : Chain.Query) : Action q.Answer := Program.request (I := interface) (.chain q)

def push (raw : Bytes) (wantStatistics : Bool) : Action Chain.PushResult :=
  Program.request (I := interface) (.push raw wantStatistics)

def update (f : Session → Session) : Action Session := Program.request (I := interface) (.update f)

def modify (f : Session → Session) : Action Unit := do let _ ← update f

def state : Action Session := update id

def updatePeer (f : PeerState → PeerState) : Action PeerState :=
  Program.request (I := interface) (.updatePeer f)

def modifyPeer (f : PeerState → PeerState) : Action Unit := do let _ ← updatePeer f

def peerState : Action PeerState := updatePeer id

def measure (f : Throughput → Throughput) : Action Unit :=
  Program.request (I := interface) (.measure f)

def startReading : Action Session := Program.request (I := interface) .startReading

def receive (link : LinkId) (count : Nat) (wait : Wait) : Action Received :=
  Program.request (I := interface) (.receive link count wait)

def sendBytes (link : LinkId) (bytes : Bytes) : Action Bool :=
  Program.request (I := interface) (.send link bytes)

def hangUp (link : LinkId) : Action Unit := Program.request (I := interface) (.hangUp link)
def ignore (link : LinkId) : Action Unit := Program.request (I := interface) (.ignore link)

def awaitTurn (reading : Nat) (deadline : Option Instant) : Action Bool :=
  Program.request (I := interface) (.awaitTurn reading deadline)

def announce (m : GoAway) : Action Unit := Program.request (I := interface) (.announce m)
def isStopping : Action Bool := Program.request (I := interface) .isStopping
def stop : Action Unit := Program.request (I := interface) .stop
def spawn (a : Activity) : Action TaskId := Program.request (I := interface) (.spawn a)
def abort (task : TaskId) : Action Unit := Program.request (I := interface) (.abort task)

def pause (until' : Instant) (transport : Option Nat) : Action Bool :=
  Program.request (I := interface) (.pause until' transport)

def rest : Action Unit := Program.request (I := interface) .rest

def dial (address : Address) (secure : Bool) : Action Dialed :=
  Program.request (I := interface) (.dial address secure)

def lockDial : Action Unit := Program.request (I := interface) .lockDial
def unlockDial : Action Unit := Program.request (I := interface) .unlockDial

end Action

end BlockSync.Session

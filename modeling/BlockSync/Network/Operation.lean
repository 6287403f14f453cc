import BlockSync.Session.Connect
import BlockSync.Session.Loop

/-!
The supervisor of sessions and its operations. It keeps a list of peers, of which at most one is
active: the one that blocks are taken from.
-/

namespace BlockSync

abbrev SessionId := Nat

/-- A peer and the session with it. -/
structure Contact where
  session : SessionId
  peer : String
  address : Address
  deriving DecidableEq

def Contact.describe (c : Contact) (s : Session) : String :=
  Text.record "OutConnection" [
    ("host", Text.quoted c.address.host), ("port", toString c.address.port),
    ("conn", s.describe c.peer)]

/-- A peer said that it is to be left. -/
structure Departure where
  peer : String
  message : GoAway
  deriving DecidableEq

structure Network where
  initialized : Bool := false
  contacts : List Contact := []
  active : Option Contact := none

namespace Network

def extended (contact : Contact) (n : Network) : Network :=
  { n with contacts := n.contacts ++ [contact] }

def without (peer : String) (n : Network) : Network :=
  { n with contacts := n.contacts.filter (·.peer ≠ peer) }

def deactivated (peer : String) (n : Network) : Network :=
  { n with active := n.active.filter (·.peer ≠ peer) }

inductive Choice where
  | select
  | dial
  deriving DecidableEq, Repr

inductive Phase where
  | idle
  | choosing (choice : Choice)
  | receiving (contact : Contact)
  | stopping

inductive Activity where
  | session (id : SessionId) (a : Session.Activity)
  | connect (contact : Contact)
  /-- Dials at intervals whoever is not connected. -/
  | retry
  | supervise (phase : Phase) (retry : TaskId)
  | run

inductive Op where
  | session (id : SessionId) (op : Session.Op)
  | instant
  | isStopping
  | stop
  /-- The contacts are under a lock of their own, and so is the active one. -/
  | contacts
  | enlist (contact : Contact)
  | forget (peer : String)
  | active
  | setActive (contact? : Option Contact)
  | deactivate (peer : String)
  /-- From now on the configured peers count as added; the answer is whether they did before. -/
  | markInitialized
  /-- Tells whoever watches which contact was chosen, and its latency. -/
  | report (contact : Contact)
  /-- A new session whose departures come to the network. -/
  | create (peer : String)
  /-- The departures since the last time. -/
  | departures
  | spawn (a : Activity)
  | join (task : TaskId)
  /-- Waits for an instant; the answer is false if a shutdown comes first. -/
  | pause (until' : Instant)

abbrev interface : Interface where
  Op := Op
  Answer
    | .session _ op => Session.interface.Answer op
    | .instant => Instant
    | .isStopping => Bool
    | .stop => Unit
    | .contacts => List Contact
    | .enlist _ => Unit
    | .forget _ => Unit
    | .active => Option Contact
    | .setActive _ => Unit
    | .deactivate _ => Unit
    | .markInitialized => Bool
    | .report _ => Unit
    | .create _ => SessionId
    | .departures => List Departure
    | .spawn _ => TaskId
    | .join _ => Unit
    | .pause _ => Bool

abbrev Action := Program interface

namespace Action

def onSession (id : SessionId) : Program.Embedding Session.interface interface where
  op := .session id
  answer := fun _ answer => answer

def session {α : Type} (id : SessionId) (p : Session.Action α) : Action α := p.embed (onSession id)

def instant : Action Instant := Program.request (I := interface) .instant
def isStopping : Action Bool := Program.request (I := interface) .isStopping
def stop : Action Unit := Program.request (I := interface) .stop

def contactList : Action (List Contact) := Program.request (I := interface) .contacts

def enlist (contact : Contact) : Action Unit := Program.request (I := interface) (.enlist contact)

def forget (peer : String) : Action Unit := Program.request (I := interface) (.forget peer)
def activeContact : Action (Option Contact) := Program.request (I := interface) .active

def setActive (contact? : Option Contact) : Action Unit :=
  Program.request (I := interface) (.setActive contact?)

def deactivate (peer : String) : Action Unit := Program.request (I := interface) (.deactivate peer)
def markInitialized : Action Bool := Program.request (I := interface) .markInitialized

def report (contact : Contact) : Action Unit := Program.request (I := interface) (.report contact)

def create (peer : String) : Action SessionId := Program.request (I := interface) (.create peer)
def departures : Action (List Departure) := Program.request (I := interface) .departures
def spawn (a : Activity) : Action TaskId := Program.request (I := interface) (.spawn a)
def join (task : TaskId) : Action Unit := Program.request (I := interface) (.join task)

def pauseUntil (instant : Instant) : Action Bool :=
  Program.request (I := interface) (.pause instant)

/-- Waits for a span of time; the answer is false if a shutdown comes first. -/
def pause (d : Duration) : Action Bool := do pauseUntil ((← instant) + d)

end Action

end Network

end BlockSync

import BlockSync.Chain.Memory
import BlockSync.Proofs.Session.Lifecycle
import BlockSync.Proofs.Session.Responder
import Mathlib.Logic.Relation

/-! The responders of a session over a chain in memory. Each goes on by its own moves, in any order,
while blocks are pushed and forgotten, later ranges are asked for, and others are at the session. -/

namespace BlockSync.Session

open BlockSync.Chain (Memory)

inductive Note where
  | fetched (num : UInt32) (chain : Memory)
  | wrote (frame : Bytes) (sent : Bool)

structure Responder where
  first : UInt32
  last : UInt32
  transport : Nat
  program : Action (Option Activity)
  log : List Note := []

/-- A session with all of its responders, by their numbers. -/
structure Desk where
  chain : Memory
  session : Session
  stopping : Bool := false
  responders : Nat → Option Responder := fun _ => none

/-- A change of a session by others than those who ask for ranges. -/
structure Leaves (f : Session → Session) : Prop where
  responders : ∀ s, (f s).responders = s.responders
  responder : ∀ s, (f s).responder = s.responder ∨ (f s).responder = none

namespace Note

def fetch? : Note → Option (UInt32 × Memory)
  | fetched num chain => some (num, chain)
  | wrote _ _ => none

/-- The frame that got through. -/
def frame? : Note → Option Bytes
  | wrote frame true => some frame
  | _ => none

end Note

namespace Responder

def fetches (x : Responder) : List (UInt32 × Memory) := x.log.filterMap Note.fetch?

def frames (x : Responder) : List Bytes := x.log.filterMap Note.frame?

def IsOver (x : Responder) : Prop := x.program = .done none

end Responder

namespace Desk

/-- What an operation may answer. A write may fail at any time. -/
def Allows (d : Desk) : (op : Op) → interface.Answer op → Prop
  | .chain q, r => r = d.chain.answer q
  | .update _, s => s = d.session
  | .isStopping, r => r = d.stopping
  | _, _ => True

def place (d : Desk) (n : Nat) (x : Responder) : Desk :=
  { d with responders := Function.update d.responders n (some x) }

/-- What an operation makes of the desk. A responder begins with an empty log. -/
def after (settings : Settings) (d : Desk) : Op → Desk
  | .update f => { d with session := f d.session }
  | .spawn (.respond first last transport n) =>
    d.place n
      { first, last, transport, program := runOnce settings (.respond first last transport n) }
  | _ => d

def note (d : Desk) : (op : Op) → interface.Answer op → List Note
  | .chain (.blockAt num), _ => [.fetched num d.chain]
  | .send _ frame, sent => [.wrote frame sent]
  | _, _ => []

end Desk

/-- A single operation of a responder, or the step from one block to the next. -/
inductive Act (settings : Settings) (n : Nat) : Desk → Desk → Prop
  | ask {d x op next r} : d.responders n = some x → x.program = .ask op next → d.Allows op r →
      Act settings n d
        ((d.after settings op).place n { x with program := next r, log := x.log ++ d.note op r })
  | renew {d x a} : d.responders n = some x → x.program = .done (some a) →
      Act settings n d (d.place n { x with program := runOnce settings a })

/-- A run of a program that nobody comes in on. -/
inductive Performs (settings : Settings) : Action Unit → Desk → Desk → Prop
  | done (d) : Performs settings (.done ()) d d
  | ask {op next r d d'} : d.Allows op r → Performs settings (next r) (d.after settings op) d' →
      Performs settings (.ask op next) d d'

/-- Others may come in between any two operations of a responder. A range is asked for under a lock,
and of what is done there responders see the first operation only. -/
inductive Step (settings : Settings) : Desk → Desk → Prop
  | act {n d d'} : Act settings n d d' → Step settings d d'
  | request {range d d'} : Performs settings (handleSyncRequest range) d d' → Step settings d d'
  | push (raw wantStatistics d) :
      Step settings d { d with chain := (d.chain.push raw wantStatistics).1 }
  | others {f} (d) : Leaves f → Step settings d { d with session := f d.session }
  | stop (d) : Step settings d { d with stopping := true }

def Desk.Fresh (d : Desk) : Prop := ∀ n, d.responders n = none

/-- The desks of the runs that begin before a range is asked for. -/
def Reached (settings : Settings) (d : Desk) : Prop :=
  ∃ start : Desk, start.Fresh ∧ Relation.ReflTransGen (Step settings) start d

end BlockSync.Session

import BlockSync.Chain.Memory
import BlockSync.Chain.Scripted
import BlockSync.Network.Operation

/-!
A world that programs run in: a chain, links that are held in memory, clocks that move only when
they are told to, and tasks. There is no network behind it, so every dial is refused.
-/

namespace BlockSync.Simulation

/-- A task, or else the call that is made beside the tasks. -/
abbrev Worker := Option TaskId

inductive Ledger where
  | memory (chain : Chain.Memory)
  | scripted (chain : Chain.Scripted)

namespace Ledger

def answer : Ledger → (q : Chain.Query) → q.Answer
  | .memory chain, q => chain.answer q
  | .scripted chain, q => chain.answer q

def push : Ledger → Bytes → Bool → Ledger × Chain.PushResult
  | .memory chain, raw, wantStatistics =>
    let (chain, result) := chain.push raw wantStatistics
    (.memory chain, result)
  | .scripted chain, raw, wantStatistics =>
    let (chain, result) := chain.push raw wantStatistics
    (.scripted chain, result)

def script (f : Chain.Scripted → Chain.Scripted) : Ledger → Ledger
  | .memory chain => .memory chain
  | .scripted chain => .scripted (f chain)

end Ledger

structure Link where
  /-- What the peer said and nobody has read. -/
  inbound : Bytes := []
  /-- What was said to the peer and the peer has not seen, the latest first. -/
  outbound : List Bytes := []
  finished : Bool := false
  abandoned : Bool := false
  hungUp : Bool := false
  ignored : Bool := false
  /-- The peer has seen that we write no more. -/
  sawEnd : Bool := false
  lastProbe : Int64 := 0
  /-- Who wants to write, in turn. -/
  writers : List Worker := []
  /-- Whether the first of them has the link for itself. -/
  held : Bool := false

namespace Link

def admits (who : Worker) (l : Link) : Bool := l.writers.head?.all (· == who)

def queue (who : Worker) (l : Link) : Link :=
  if l.writers.contains who then l else { l with writers := l.writers ++ [who] }

def hold (who : Worker) (l : Link) : Link := { l.queue who with held := true }

def leave (who : Worker) (l : Link) : Link :=
  { l with
    writers := l.writers.filter (· != who)
    held := l.held && l.writers.head? != some who }

end Link

structure Member where
  peer : String
  session : Session := {}
  supervised : Bool := false
  listeners : Nat := 0
  dialing : Bool := false

structure Push where
  num : UInt32
  size : Nat
  wantStatistics : Bool
  locked : Option Bool
  result : Chain.PushResult

structure Task where
  id : TaskId
  program : Network.Action (Option Network.Activity)

/-- How much work fits in a turn. -/
def turnRoom : Nat := 128

structure World where
  settings : Settings
  ledger : Ledger
  hasLock : Bool := false
  now : Instant := 0
  /-- The latest reading of the other clock. -/
  wall : Int64 := 1760000000000000000
  stopping : Bool := false
  members : List Member := []
  links : List Link := []
  network : Network := {}
  /-- Departures that the supervisor has not seen. -/
  departures : List Departure := []
  heard : List Departure := []
  pushes : List Push := []
  tasks : List Task := []
  /-- Tasks that let all others go on, the latest first. -/
  resting : List Task := []
  nextTask : TaskId := 0
  /-- How much work still fits in the turn that is being taken. -/
  room : Nat := turnRoom

namespace World

def memberAt (id : SessionId) (w : World) : Member := (w.members[id]?).getD { peer := "" }

def mapMember (id : SessionId) (f : Member → Member) (w : World) : World :=
  { w with members := w.members.modify id f }

def sessionAt (id : SessionId) (w : World) : Session := (w.memberAt id).session

def mapSession (id : SessionId) (f : Session → Session) (w : World) : World :=
  w.mapMember id fun m => { m with session := f m.session }

def linkAt (id : LinkId) (w : World) : Link := (w.links[id]?).getD { abandoned := true }

def mapLink (id : LinkId) (f : Link → Link) (w : World) : World :=
  { w with links := w.links.modify id f }

def addMember (m : Member) (w : World) : SessionId × World :=
  (w.members.length, { w with members := w.members ++ [m] })

def addLink (w : World) : LinkId × World :=
  (w.links.length, { w with links := w.links ++ [{}] })

def addTask (program : Network.Action (Option Network.Activity)) (w : World) : TaskId × World :=
  (w.nextTask, { w with tasks := w.tasks ++ [⟨w.nextTask, program⟩], nextTask := w.nextTask + 1 })

def isRunning (task : TaskId) (w : World) : Bool :=
  w.tasks.any (·.id == task) || w.resting.any (·.id == task)

def abort (task : TaskId) (w : World) : World :=
  { w with
    links := w.links.map (Link.leave (some task))
    tasks := w.tasks.filter (·.id != task)
    resting := w.resting.filter (·.id != task) }

end World

end BlockSync.Simulation

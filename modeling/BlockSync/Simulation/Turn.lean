import BlockSync.Simulation.Perform

/-!
Turns. A turn has room for so much work; what does not fit is left for the next one, after others
had theirs. Writing is two pieces of work: to get hold of the link and to write. Who runs out of
room in between keeps the link, and whoever else wants it waits in line. Who waits for a task lends
it the turn.
-/

namespace BlockSync.Simulation

open Network (Action)

inductive Outcome (α : Type) where
  | answer (a : α) (w : World)
  | wait (w : World)
  /-- The turn has no room left for it. -/
  | full (w : World)

inductive Halt (α : Type) where
  | done (a : α)
  | waiting (p : Action α)
  /-- Others go on before it does. -/
  | resting (p : Action α)

def isRest : Network.Op → Bool
  | .session _ .rest => true
  | _ => false

variable {α : Type}

namespace World

def sessionEffort (w : World) : Session.Op → Nat
  | .updatePeer _ | .measure _ | .startReading | .receive _ _ _ | .hangUp _ | .pause _ _
  | .lockDial => 1
  | .push _ _ => if w.hasLock then 1 else 0
  | _ => 0

/-- The work of an operation: what takes a lock, moves octets or wakes up counts. -/
def effort (w : World) : Network.Op → Nat
  | .session _ op => w.sessionEffort op
  | .contacts | .enlist _ | .forget _ | .active | .setActive _ | .deactivate _ | .report _
  | .departures | .pause _ => 1
  | _ => 0

def spend (effort : Nat) (w : World) : World := { w with room := w.room - effort }

def refresh (w : World) : World := { w with room := turnRoom }

def write (who : Worker) (link : LinkId) (frame : Bytes) (w : World) : Outcome Bool :=
  let l := w.linkAt link
  if w.room = 0 then .full w
  else if !l.admits who then .wait (w.mapLink link (Link.queue who))
  else
    let w := if l.held then w else (w.mapLink link (Link.hold who)).spend 1
    if w.room = 0 then .full w
    else
      let (sent, w) := w.send link frame
      .answer sent ((w.mapLink link (Link.leave who)).spend 1)

def attempt (who : Worker) (w : World) :
    (op : Network.Op) → Outcome (Network.interface.Answer op)
  | .session _ (.send link frame) => w.write who link frame
  | op =>
    let effort := w.effort op
    if w.room < effort then .full w
    else
      match w.perform op with
      | some (answer, w) => .answer answer (w.spend effort)
      | none => .wait w

def advance (lend : TaskId → World → World) (who : Worker) : Action α → World → Halt α × World
  | .done a, w => (.done a, w)
  | .ask op next, w =>
    let w := match op with
      | .join id => lend id w
      | _ => w
    match w.attempt who op with
    | .answer a w =>
      if isRest op then (.resting (next a), w) else advance lend who (next a) w
    | .wait w => (.waiting (.ask op next), w)
    | .full w => (.resting (.ask op next), w)

/-- A task goes as far as it can in a turn that is lent to it, and lends it to nobody. -/
def lend (id : TaskId) (w : World) : World :=
  match w.tasks.find? (·.id == id) with
  | none => w
  | some task =>
    let others := { w with tasks := w.tasks.filter (·.id != id) }
    match advance (fun _ w => w) (some id) task.program others with
    | (.done none, w) => w
    | (.done (some a), w) => { w with tasks := w.tasks ++ [⟨id, Network.runOnce w.settings a⟩] }
    | (.waiting program, w) => { w with tasks := w.tasks ++ [⟨id, program⟩] }
    | (.resting program, w) => { w with resting := ⟨id, program⟩ :: w.resting }

def proceed (who : Worker) (p : Action α) (w : World) : Halt α × World := advance lend who p w

def isReady (who : Worker) (w : World) : Action α → Bool
  | .done _ => true
  | .ask (.session _ (.send link _)) _ => (w.linkAt link).admits who
  | .ask op _ => (w.perform op).isSome

end World

end BlockSync.Simulation

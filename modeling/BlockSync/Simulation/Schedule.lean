import BlockSync.Simulation.Turn

/-!
Scheduling. Tasks take turns in the order in which they came; each goes on until it has to wait or
its turn is full. One that rests goes on when all others wait, and before those that rested
earlier. When all wait, the clock jumps to the next instant that one of them waits for. A call runs
before the tasks, and is given up when it would wait beyond a limit.
-/

namespace BlockSync.Simulation

open Network (Action Activity)

/-- The instant at which an operation no longer waits. -/
def alarmOf : Network.Op → Option Instant
  | .session _ (.receive _ _ wait) => wait.deadline
  | .session _ (.awaitTurn _ deadline) => deadline
  | .session _ (.pause until' _) => some until'
  | .pause until' => some until'
  | _ => none

variable {α : Type}

def alarm : Action α → Option Instant
  | .done _ => none
  | .ask op _ => alarmOf op

def earlier : Option Instant → Option Instant → Option Instant
  | some a, some b => some (min a b)
  | some a, none => some a
  | none, b => b

namespace World

def turns : Nat := 1000000

/-- The first task that need not wait, and the others. -/
def takeReady (w : World) : List Task → Option (Task × List Task)
  | [] => none
  | task :: rest =>
    if w.isReady (some task.id) task.program then some (task, rest)
    else (w.takeReady rest).map fun (ready, others) => (ready, task :: others)

def turn : Nat → TaskId → Action (Option Activity) → World → World
  | 0, id, program, w => { w with tasks := w.tasks ++ [⟨id, program⟩] }
  | fuel + 1, id, program, w =>
    match proceed (some id) program w with
    | (.done none, w) => w
    | (.done (some a), w) => turn fuel id (Network.runOnce w.settings a) w
    | (.waiting program, w) => { w with tasks := w.tasks ++ [⟨id, program⟩] }
    | (.resting program, w) => { w with resting := ⟨id, program⟩ :: w.resting }

def settle : Nat → World → World
  | 0, w => w
  | fuel + 1, w =>
    match w.takeReady w.tasks with
    | some (task, rest) =>
      settle fuel (turn turns task.id task.program { w.refresh with tasks := rest })
    | none => w

def rouse (w : World) : World := { w with tasks := w.tasks ++ w.resting, resting := [] }

/-- Turns until all tasks wait. -/
def exhaust : Nat → World → World
  | 0, w => w
  | fuel + 1, w =>
    let w := settle turns w
    if w.resting.isEmpty then w else exhaust fuel w.rouse

def nextAlarm (limit : Instant) (first : Option Instant) (w : World) : Option Instant :=
  (w.tasks.foldl (fun found task => earlier found (alarm task.program)) first).filter (· ≤ limit)

def passUntil (limit : Instant) : Nat → World → World
  | 0, w => w
  | fuel + 1, w =>
    let w := exhaust turns w
    match w.nextAlarm limit none with
    | some next => passUntil limit fuel { w with now := max w.now next }
    | none => { w with now := max w.now limit }

/-- All that happens in a span of time; to wait for its end is work, too. -/
def pass (d : Duration) (w : World) : World := (passUntil (w.now + d) turns w).refresh.spend 1

/-- A call that is given up loses its place in every line. A reading makes way for the next, and
loses what it has collected. -/
def giveUp (w : World) : Action α → World
  | .ask (.session id (.receive link _ _)) _ =>
    (w.mapLink link fun l => { l with inbound := [] }).mapSession id fun s =>
      { s with readings := s.readings.tail }
  | .ask (.session id (.awaitTurn reading _)) _ => w.mapSession id (Session.endReading reading)
  | .ask (.session _ (.send link _)) _ => w.mapLink link (Link.leave none)
  | _ => w

def callUntil (limit : Instant) : Nat → Action α → World → Option α × World
  | 0, p, w => (none, w.giveUp p)
  | fuel + 1, p, w =>
    match proceed none p w with
    | (.done a, w) => (some a, w)
    | (.resting p, w) => callUntil limit fuel p (settle turns w).rouse.refresh
    | (.waiting p, w) =>
      let w := settle turns w
      if !w.resting.isEmpty || w.isReady none p then callUntil limit fuel p w.rouse.refresh
      else
        match w.nextAlarm limit (alarm p) with
        | some next => callUntil limit fuel p { w.refresh with now := max w.now next }
        | none => (none, { w with now := max w.now limit }.giveUp p)

def call (patience : Duration) (p : Action α) (w : World) : Option α × World :=
  callUntil (w.now + patience) turns p w

end World

end BlockSync.Simulation

import BlockSync.Simulation.Remote

/-!
A world with the peers at the other ends of its links. Something is done on it, then everything
comes to rest, then it is looked at.
-/

namespace BlockSync.Simulation

structure Stage where
  world : World
  /-- The current link of each session that ever had one, the latest last. -/
  remotes : List (SessionId × LinkId) := []
  runner : Option TaskId := none

structure Sight where
  session : SessionId
  seen : List Message
  ended : Bool

namespace Stage

def mapWorld (f : World → World) (s : Stage) : Stage := { s with world := f s.world }

def linkOf (id : SessionId) (s : Stage) : Option LinkId := s.remotes.lookup id

def mapLink (id : SessionId) (f : Link → Link) (s : Stage) : Stage :=
  match s.linkOf id with
  | some link => s.mapWorld (World.mapLink link f)
  | none => s

def settings (s : Stage) : Settings := s.world.settings

def session (id : SessionId) (s : Stage) : Session := s.world.sessionAt id

/-- How long a step takes beyond the time it waits for. -/
def breath : Duration := Duration.ofMillis 3

/-- Lets all work come to rest. -/
def quieten : Stage → Stage := mapWorld (World.pass breath)

def pass (d : Duration) : Stage → Stage := mapWorld (World.pass d)

def call {α : Type} (patience : Duration) (p : Network.Action α) (s : Stage) : Option α × Stage :=
  let (result, world) := s.world.call patience p
  (result, { s with world })

/-- What a session does, if it need not wait. -/
def act {α : Type} (id : SessionId) (p : Session.Action α) : Stage → Option α × Stage :=
  call 0 (Network.Action.session id p)

def doing {α : Type} (id : SessionId) (p : Session.Action α) (s : Stage) : Stage := (s.act id p).2

def say (id : SessionId) (items : List Utterance) (s : Stage) : Bool × Stage :=
  match s.linkOf id with
  | none => (false, s)
  | some link =>
    let (said, l) := (s.world.linkAt link).say items
    (said, s.mapWorld (World.mapLink link fun _ => l))

def attach (id : SessionId) (s : Stage) : Stage :=
  let s := s.mapLink id Link.abandon
  let (link, world) := s.world.addLink
  let others := s.remotes.filter fun remote => remote.1 ≠ id
  let s := { s with world, remotes := others ++ [(id, link)] }
  s.doing id do
    Session.install link
    Session.Action.modify (Session.setConnected true)

def stop : Stage → Stage := mapWorld fun w => { w with stopping := true }

def script (f : Chain.Scripted → Chain.Scripted) : Stage → Stage :=
  mapWorld fun w => { w with ledger := w.ledger.script f }

def sight (s : Stage) : List Sight :=
  s.remotes.map fun (session, link) =>
    let l := s.world.linkAt link
    { session, seen := l.unseen, ended := l.isOver }

def headNum (s : Stage) : UInt32 := s.world.ledger.answer .headNum

def lookingEffort : Nat := 3

def looked (s : Stage) : Stage :=
  s.mapWorld fun w =>
    { w with
      links := w.links.map Link.see
      heard := []
      pushes := []
      room := w.room - lookingEffort }

end Stage

end BlockSync.Simulation

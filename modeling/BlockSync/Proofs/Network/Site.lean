import Mathlib.Logic.Relation
import BlockSync.Network.Supervisor
import BlockSync.Proofs.Session.Lifecycle

/-! Everything that goes on around one supervisor: its sessions, its tasks, what others call on it,
and the order of it all. Tasks go on one operation at a time, and between any two operations of one
task the others may have any number of theirs; what peers, links, clocks and the chain answer is open
as well. -/

namespace BlockSync.Network

open BlockSync.Network.Action

/-- What is under way: what the supervisor starts itself, and what others call on it. -/
inductive Work where
  | activity (a : Activity)
  | ensure
  /-- Adds them and dials until a peer is connected. -/
  | init
  | dial
  | select (choice : Choice)

namespace Work

def program (settings : Settings) : Work → Action (Option Work)
  | .activity a => do return (← runOnce settings a).map .activity
  | .ensure => do
    ensureContacts settings
    return none
  | .init => do
    ensureContacts settings
    return some .dial
  | .dial => do
    match ← dialOnce with
    | none => return some .dial
    | some _ => return none
  | .select choice => do
    match ← choose settings choice with
    | .inl choice => return some (.select choice)
    | .inr none => return none
    | .inr (some contact) =>
      report contact
      return none

/-- What goes on beside the receiving of a session. -/
def isAside : Work → Bool
  | .activity (.session _ _) => true
  | _ => false

def isDial : Work → Bool
  | .activity (.connect _) => true
  | _ => false

def isReceiving : Work → Bool
  | .activity (.supervise (.receiving _) _) => true
  | _ => false

inductive IsCall : Work → Prop
  | run : IsCall (.activity .run)
  | ensure : IsCall .ensure
  | init : IsCall .init
  | select : IsCall (.select .select)

end Work

structure Task where
  id : TaskId
  /-- The task that started it, if it was not called. -/
  parent : Option TaskId
  work : Work
  program : Action (Option Work)

/-- What has happened at a site. No operation asks for it. -/
structure History where
  called : List Work := []
  enroller : Option TaskId := none
  added : List Contact := []
  heard : List SessionId := []
  taken : List Departure := []
  /-- The peers that were left, each with the number of contacts that were added by then. -/
  left : List (String × Nat) := []
  /-- The contacts that a task found when it looked last, until it has made one of them active. -/
  seen : TaskId → List Contact := fun _ => []
  /-- What a task has still to do for the departures that it took. -/
  owing : TaskId → List Op := fun _ => []
  chosen : List (TaskId × Contact) := []

structure Site extends History where
  network : Network := {}
  /-- The peers of the sessions that were created, in their order. -/
  peers : List String := []
  sessions : SessionId → Session := fun _ => {}
  dialing : SessionId → Bool := fun _ => false
  announced : List Departure := []
  stopping : Bool := false
  tasks : List Task := []
  nextTask : TaskId := 0

/-- What departures ask of whoever takes them. -/
def duties (ds : List Departure) : List Op :=
  ds.flatMap fun d => [.forget d.peer, .deactivate d.peer]

namespace Site

def mapSession (id : SessionId) (f : Session → Session) (s : Site) : Site :=
  { s with sessions := Function.update s.sessions id (f (s.sessions id)) }

def announce (id : SessionId) (message : GoAway) (s : Site) : Site :=
  { s with
    announced := s.announced ++ (s.peers[id]?.map fun peer => ⟨peer, message⟩).toList
    heard := s.heard ++ [id] }

def start (settings : Settings) (parent : Option TaskId) (work : Work) (s : Site) : Site :=
  { s with
    tasks := s.tasks ++ [⟨s.nextTask, parent, work, work.program settings⟩]
    nextTask := s.nextTask + 1 }

def call (settings : Settings) (work : Work) (s : Site) : Site :=
  { s.start settings none work with called := s.called ++ [work] }

def mapTask (id : TaskId) (f : Task → Task) (s : Site) : Site :=
  { s with tasks := s.tasks.map fun task => if task.id = id then f task else task }

def remove (id : TaskId) (s : Site) : Site :=
  { s with tasks := s.tasks.filter (·.id ≠ id) }

def settle (task : TaskId) (s : Site) : Site :=
  { s with owing := Function.update s.owing task (s.owing task).tail }

def afterOn (settings : Settings) (task : TaskId) (id : SessionId) : Session.Op → Site → Site
  | .announce message, s => s.announce id message
  | .stop, s => { s with stopping := true }
  | .spawn a, s => s.start settings (some task) (.activity (.session id a))
  | .abort other, s => s.remove other
  | .lockDial, s => { s with dialing := Function.update s.dialing id true }
  | .unlockDial, s => { s with dialing := Function.update s.dialing id false }
  | op, s => s.mapSession id (·.after op)

def after (settings : Settings) (task : TaskId) : Op → Site → Site
  | .session id op, s => s.afterOn settings task id op
  | .stop, s => { s with stopping := true }
  | .contacts, s => { s with seen := Function.update s.seen task s.network.contacts }
  | .enlist contact, s =>
    { s with network := s.network.extended contact, added := s.added ++ [contact] }
  | .forget peer, s =>
    { s.settle task with
      network := s.network.without peer
      left := s.left ++ [(peer, s.added.length)] }
  | .setActive contact?, s =>
    { s with network.active := contact?, seen := Function.update s.seen task [] }
  | .deactivate peer, s => { s.settle task with network := s.network.deactivated peer }
  | .markInitialized, s =>
    { s with
      network.initialized := true
      enroller := if s.network.initialized then s.enroller else some task }
  | .report contact, s => { s with chosen := s.chosen ++ [(task, contact)] }
  | .create peer, s => { s with peers := s.peers ++ [peer] }
  | .departures, s =>
    { s with
      announced := []
      taken := s.taken ++ s.announced
      owing := Function.update s.owing task (duties s.announced) }
  | .spawn a, s => s.start settings (some task) (.activity a)
  | .instant, s | .isStopping, s | .active, s | .join _, s | .pause _, s => s

/-- What an operation may answer at the moment of its answer. -/
def Allows (s : Site) : (op : Op) → interface.Answer op → Prop
  | .session _ .isStopping, stopping => stopping = s.stopping
  | .session _ (.spawn _), task => task = s.nextTask
  | .session id .lockDial, _ => s.dialing id = false
  | .session id op, r => (s.sessions id).Allows op r
  | .isStopping, stopping => stopping = s.stopping
  | .contacts, contacts => contacts = s.network.contacts
  | .active, contact? => contact? = s.network.active
  | .markInitialized, before => before = s.network.initialized
  | .create _, id => id = s.peers.length
  | .departures, departures => departures = s.announced
  | .spawn _, task => task = s.nextTask
  | .join task, _ => ∀ other ∈ s.tasks, other.id ≠ task
  | .pause _, more => more = false → s.stopping = true
  | .instant, _ | .stop, _ | .enlist _, _ | .forget _, _ | .setActive _, _ | .deactivate _, _
  | .report _, _ => True

section

variable (settings : Settings) (task : TaskId) (id : SessionId) (op : Session.Op) (s : Site)

@[simp] theorem afterOn_network : (s.afterOn settings task id op).network = s.network := by
  cases op <;> rfl

@[simp] theorem afterOn_peers : (s.afterOn settings task id op).peers = s.peers := by
  cases op <;> rfl

@[simp] theorem afterOn_enroller : (s.afterOn settings task id op).enroller = s.enroller := by
  cases op <;> rfl

@[simp] theorem afterOn_added : (s.afterOn settings task id op).added = s.added := by
  cases op <;> rfl

@[simp] theorem afterOn_taken : (s.afterOn settings task id op).taken = s.taken := by
  cases op <;> rfl

@[simp] theorem afterOn_left : (s.afterOn settings task id op).left = s.left := by
  cases op <;> rfl

@[simp] theorem afterOn_seen : (s.afterOn settings task id op).seen = s.seen := by
  cases op <;> rfl

@[simp] theorem afterOn_owing : (s.afterOn settings task id op).owing = s.owing := by
  cases op <;> rfl

@[simp] theorem afterOn_chosen : (s.afterOn settings task id op).chosen = s.chosen := by
  cases op <;> rfl

@[simp] theorem afterOn_sessions :
    (s.afterOn settings task id op).sessions =
      Function.update s.sessions id ((s.sessions id).after op) := by
  have hsame : Function.update s.sessions id (s.sessions id) = s.sessions :=
    Function.update_eq_self id s.sessions
  cases op with
  | announce | stop | spawn | abort | lockDial | unlockDial => exact hsame.symm
  | _ => rfl

theorem mapSession_id : s.mapSession id (fun x => x) = s := by
  unfold mapSession
  rw [Function.update_eq_self]

end

theorem Allows.session {s : Site} {id : SessionId} {op : Session.Op}
    {r : Session.interface.Answer op} (h : s.Allows (.session id op) r) :
    (s.sessions id).Allows op r := by
  cases op with
  | isStopping | spawn | lockDial => trivial
  | _ => exact h

end Site

/-- What happens next by itself. A shutdown may be requested at any time. -/
inductive Step (settings : Settings) : Site → Site → Prop
  | act {s task op next r} : task ∈ s.tasks → task.program = .ask op next → s.Allows op r →
      Step settings s
        ((s.after settings task.id op).mapTask task.id ({ · with program := next r }))
  | renew {s task work} : task ∈ s.tasks → task.program = .done (some work) →
      Step settings s (s.mapTask task.id ({ · with work, program := work.program settings }))
  | finish {s task} : task ∈ s.tasks → task.program = .done none →
      Step settings s (s.remove task.id)
  | interrupt (s) : Step settings s { s with stopping := true }

/-- What may happen next: something by itself, a call, or that a peer asks to be left. -/
inductive Event (settings : Settings) : Site → Site → Prop
  | step {s t} : Step settings s t → Event settings s t
  | call {work} (s) : work.IsCall → Event settings s (s.call settings work)
  | announce (id : SessionId) (message : GoAway) (s) : Event settings s (s.announce id message)

/-- From a site on, a task asks only for what it may ask for, and ends as described, whatever others
make of the site after each operation. -/
def During (settings : Settings) (task : TaskId) (asks : Site → Op → Prop)
    (others : Site → Site → Prop) {α : Type} (post : α → Site → Prop) (p : Action α) (s : Site) :
    Prop :=
  p.Ensures asks (fun s op r t => s.Allows op r ∧ others (s.after settings task op) t) post s

section

variable {settings : Settings} {task : TaskId} {asks : Site → Op → Prop}
  {others : Site → Site → Prop} {α β : Type} {post : α → Site → Prop} {post' : β → Site → Prop}
  {p : Action α} {s : Site}

theorem During.pure {a : α} (h : post a s) :
    During settings task asks others post (Pure.pure a) s := h

theorem During.bind {f : α → Action β}
    (h : During settings task asks others
      (fun a t => During settings task asks others post' (f a) t) p s) :
    During settings task asks others post' (p >>= f) s := Program.Ensures.bind h

theorem During.mono {post' : α → Site → Prop} (h : During settings task asks others post p s)
    (hpost : ∀ a t, post a t → post' a t) : During settings task asks others post' p s :=
  Program.Ensures.mono h hpost

theorem During.ite {c : Prop} [Decidable c] {q : Action α}
    (hp : c → During settings task asks others post p s)
    (hq : ¬ c → During settings task asks others post q s) :
    During settings task asks others post (if c then p else q) s := Program.Ensures.ite hp hq

theorem During.ask {op : Op} {f : interface.Answer op → Action β} (hop : asks s op)
    (hf : ∀ r t, s.Allows op r → others (s.after settings task op) t →
      During settings task asks others post' (f r) t) :
    During settings task asks others post' (Program.request (I := interface) op >>= f) s :=
  ⟨hop, fun r t ht => hf r t ht.1 ht.2⟩

end

section

variable (settings : Settings)

/-- Answers of a world in which nothing fails: every dial is accepted and every octet gets through,
the clock stands still, and certain octets come in. -/
def Site.reply (s : Site) (octets : Bytes) : (op : Op) → interface.Answer op
  | .session id op =>
    match op with
    | .clock => 1
    | .instant => 0
    | .nonce => Octets.zero 32
    | .chain q => (Chain.Memory.ofSnapshot (Octets.zero 32) 0 (Octets.zero 32)).answer q
    | .push _ _ => .ok none
    | .update _ | .startReading => s.sessions id
    | .updatePeer _ => (s.sessions id).peer
    | .receive _ _ _ => .bytes octets
    | .send _ _ | .awaitTurn _ _ | .pause _ _ => true
    | .isStopping => s.stopping
    | .spawn _ => s.nextTask
    | .dial _ _ => .opened 0
    | .measure _ | .hangUp _ | .ignore _ | .announce _ | .stop | .abort _ | .rest | .lockDial
    | .unlockDial => ()
  | .instant => (0 : Instant)
  | .isStopping => s.stopping
  | .contacts => s.network.contacts
  | .active => s.network.active
  | .markInitialized => s.network.initialized
  | .create _ => s.peers.length
  | .departures => s.announced
  | .spawn _ => s.nextTask
  | .pause _ => !s.stopping
  | .stop | .enlist _ | .forget _ | .setActive _ | .deactivate _ | .report _ | .join _ => ()

def Site.isReady (s : Site) (octets : Bytes) : Op → Bool
  | .session _ (.receive _ count _) => octets.length = count
  | .session id .lockDial => !s.dialing id
  | .join task => s.tasks.all (·.id ≠ task)
  | _ => true

theorem Site.allows_reply {s : Site} {octets : Bytes} {op : Op} (h : s.isReady octets op = true) :
    s.Allows op (s.reply octets op) := by
  cases op with
  | session id op =>
    cases op with
    | receive link count wait =>
      change octets.length = count
      exact of_decide_eq_true h
    | lockDial =>
      change s.dialing id = false
      simpa [isReady] using h
    | update | updatePeer | startReading | isStopping | spawn => rfl
    | _ => trivial
  | join task =>
    intro other hother
    rw [isReady, List.all_eq_true] at h
    simpa using h other hother
  | pause until' =>
    intro hmore
    simpa [reply] using hmore
  | instant | stop | enlist | forget | setActive | deactivate | report => trivial
  | _ => rfl

def Site.act (id : TaskId) (octets : Bytes) (s : Site) : Option Site := do
  let task ← s.tasks.find? (·.id = id)
  match task.program with
  | .done _ => none
  | .ask op next =>
    if s.isReady octets op then
      some ((s.after settings task.id op).mapTask task.id
        ({ · with program := next (s.reply octets op) }))
    else none

def Site.endRound (id : TaskId) (s : Site) : Option Site := do
  let task ← s.tasks.find? (·.id = id)
  match task.program with
  | .ask _ _ => none
  | .done none => some (s.remove task.id)
  | .done (some work) =>
    some (s.mapTask task.id ({ · with work, program := work.program settings }))

inductive Cue where
  | go (task : TaskId) (count : Nat)
  | read (task : TaskId) (octets : Bytes)
  | endRound (task : TaskId)
  | interrupt

def Site.goOn (id : TaskId) : Nat → Site → Option Site
  | 0, s => some s
  | count + 1, s => (s.act settings id []).bind (Site.goOn id count)

def Cue.follow (cue : Cue) (s : Site) : Option Site :=
  match cue with
  | .go task count => s.goOn settings task count
  | .read task octets => s.act settings task octets
  | .endRound task => s.endRound settings task
  | .interrupt => some { s with stopping := true }

def perform (cues : List Cue) (s : Site) : Option Site :=
  cues.foldlM (fun s cue => cue.follow settings s) s

end

section

variable {settings : Settings} {id : TaskId} {s t : Site}

theorem Site.step_of_act {octets : Bytes} (h : s.act settings id octets = some t) :
    Step settings s t := by
  rw [act, Option.bind_eq_bind, Option.bind_eq_some_iff] at h
  obtain ⟨task, htask, h⟩ := h
  split at h
  · cases h
  · next op next hprogram =>
    split at h
    · next hready =>
      cases h
      exact .act (List.mem_of_find?_eq_some htask) hprogram (s.allows_reply hready)
    · cases h

theorem Site.step_of_endRound (h : s.endRound settings id = some t) : Step settings s t := by
  rw [endRound, Option.bind_eq_bind, Option.bind_eq_some_iff] at h
  obtain ⟨task, htask, h⟩ := h
  have hmem := List.mem_of_find?_eq_some htask
  split at h
  · cases h
  · next hprogram =>
    cases h
    exact .finish hmem hprogram
  · next work hprogram =>
    cases h
    exact .renew hmem hprogram

theorem Site.steps_of_goOn {count : Nat} (h : s.goOn settings id count = some t) :
    Relation.ReflTransGen (Step settings) s t := by
  induction count generalizing s with
  | zero =>
    cases h
    exact .refl
  | succ count ih =>
    rw [goOn, Option.bind_eq_some_iff] at h
    obtain ⟨u, hu, ht⟩ := h
    exact .head (Site.step_of_act hu) (ih ht)

theorem Cue.steps {cue : Cue} (h : cue.follow settings s = some t) :
    Relation.ReflTransGen (Step settings) s t := by
  cases cue with
  | go task count => exact Site.steps_of_goOn h
  | read task octets => exact .single (Site.step_of_act h)
  | endRound task => exact .single (Site.step_of_endRound h)
  | interrupt =>
    cases h
    exact .single (.interrupt s)

theorem steps_perform {cues : List Cue} (h : perform settings cues s = some t) :
    Relation.ReflTransGen (Step settings) s t := by
  induction cues generalizing s with
  | nil =>
    cases h
    exact .refl
  | cons cue cues ih =>
    rw [perform, List.foldlM_cons, Option.bind_eq_bind, Option.bind_eq_some_iff] at h
    obtain ⟨u, hu, ht⟩ := h
    exact (Cue.steps hu).trans (ih ht)

end

end BlockSync.Network

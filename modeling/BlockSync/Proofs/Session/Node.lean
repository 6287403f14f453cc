import BlockSync.Session.Loop

/-! The operations of a session on a node of its own: a chain, the session, and one link that
takes whole frames. Clocks and chance are given in advance, so that an operation has one outcome.
Operations that wait for octets, instants or dials have none here. What can be seen of an
operation from outside is an event. -/

namespace BlockSync.Session

open BlockSync.Chain (Engine)

/-- The part of a session that decides who may go on and whether a frame can be written. -/
structure Standing where
  closed : Bool
  transport : Nat
  cut : Bool
  writer : Option LinkId
  responder : Option Nat
  responders : Nat
  deriving DecidableEq

def standing (s : Session) : Standing :=
  ⟨s.closed, s.transport, s.cut, s.writer, s.responder, s.responders⟩

inductive Event where
  | took (f : Frame)
  | wrote (frame : Bytes)
  | pushed (raw : Bytes) (wantStatistics : Bool) (result : Chain.PushResult)
  | spawned (a : Activity)
  | turned (s : Standing)
  | announced (m : GoAway)
  | parted
  | stopped

def Event.said (m : Message) : Event := .wrote m.frame

def Event.isTook : Event → Bool
  | .took _ => true
  | _ => false

structure Sources where
  clock : Nat → Int64
  instant : Nat → Instant
  nonce : Nat → Checksum

instance : Inhabited Sources := ⟨⟨fun _ => 0, fun _ => 0, fun _ => Octets.zero 32⟩⟩

structure Node (σ : Type) where
  chain : σ
  session : Session
  sources : Sources
  asked : Nat := 0
  tasks : Nat := 0
  stopping : Bool := false
  linked : Bool := true

namespace Node

variable {σ : Type}

def mapSession (f : Session → Session) (n : Node σ) : Node σ := { n with session := f n.session }

def mapPeer (f : PeerState → PeerState) (n : Node σ) : Node σ := n.mapSession (Session.mapPeer f)

def mapThroughput (f : Throughput → Throughput) (n : Node σ) : Node σ :=
  n.mapSession fun s => { s with throughput := f s.throughput }

def ask (n : Node σ) : Node σ := { n with asked := n.asked + 1 }

def turns (f : Session → Session) (n : Node σ) : List Event :=
  if (f n.session).standing = n.session.standing then [] else [.turned (f n.session).standing]

def perform (E : Engine σ) (n : Node σ) :
    (op : Op) → Option (interface.Answer op × Node σ × List Event)
  | .clock => some (n.sources.clock n.asked, n.ask, [])
  | .instant => some (n.sources.instant n.asked, n.ask, [])
  | .nonce => some (n.sources.nonce n.asked, n.ask, [])
  | .chain q => some (E.answer n.chain q, n, [])
  | .push raw wantStatistics =>
    let result := E.push n.chain raw wantStatistics
    some (result.2, { n with chain := result.1 }, [.pushed raw wantStatistics result.2])
  | .update f => some (n.session, n.mapSession f, n.turns f)
  | .updatePeer f => some (n.session.peer, n.mapPeer f, [])
  | .measure f => some ((), n.mapThroughput f, [])
  | .startReading => some (n.session, n.mapSession Session.startReading, [])
  | .receive _ _ _ => none
  | .send _ frame => some (n.linked, n, if n.linked then [.wrote frame] else [])
  | .hangUp _ => some ((), { n with linked := false }, [.parted])
  | .ignore _ => some ((), n, [])
  | .awaitTurn _ _ => none
  | .announce m => some ((), n, [.announced m])
  | .isStopping => some (n.stopping, n, [])
  | .stop => some ((), { n with stopping := true }, [.stopped])
  | .spawn a => some (n.tasks, { n with tasks := n.tasks + 1 }, [.spawned a])
  | .abort _ => some ((), n, [])
  | .pause _ _ => none
  | .rest => some ((), n, [])
  | .dial _ _ => none
  | .lockDial => none
  | .unlockDial => none

end Node

/-- What events tell of a node. -/
structure View (σ : Type) where
  chain : σ
  standing : Standing
  stopping : Bool
  linked : Bool

def Node.view {σ : Type} (n : Node σ) : View σ :=
  ⟨n.chain, n.session.standing, n.stopping, n.linked⟩

namespace View

variable {σ : Type}

def apply (E : Engine σ) (v : View σ) : Event → View σ
  | .pushed raw wantStatistics _ => { v with chain := (E.push v.chain raw wantStatistics).1 }
  | .turned s => { v with standing := s }
  | .parted => { v with linked := false }
  | .stopped => { v with stopping := true }
  | _ => v

def applyAll (E : Engine σ) (v : View σ) (es : List Event) : View σ := es.foldl (apply E) v

/-- Frames can be written, responders may go on, and no shutdown was requested. -/
structure Open (v : View σ) : Prop where
  closed : v.standing.closed = false
  cut : v.standing.cut = false
  writer : ∃ link, v.standing.writer = some link
  linked : v.linked = true
  stopping : v.stopping = false

end View

def Event.Still (e : Event) : Prop :=
  ∀ raw wantStatistics result, e ≠ .pushed raw wantStatistics result

theorem View.chain_apply_of_still {σ : Type} {E : Engine σ} {e : Event} (h : e.Still)
    (v : View σ) : (v.apply E e).chain = v.chain := by
  cases e with
  | pushed raw wantStatistics result => exact absurd rfl (h _ _ _)
  | took | wrote | spawned | turned | announced | parted | stopped => rfl

section Runs

variable {σ : Type} {E : Engine σ} {α β : Type} {n n' n'' : Node σ} {es es' : List Event}

theorem view_perform {op : Op} {r : interface.Answer op}
    (h : n.perform E op = some (r, n', es)) : n'.view = n.view.applyAll E es := by
  cases op <;> simp only [Node.perform, Option.some.injEq, Prod.mk.injEq, reduceCtorEq] at h
  case update f =>
    obtain ⟨-, rfl, rfl⟩ := h
    unfold Node.turns
    split
    · next hs => simp only [Node.view, Node.mapSession, hs]; rfl
    · rfl
  case send link frame =>
    obtain ⟨-, rfl, rfl⟩ := h
    split <;> rfl
  all_goals obtain ⟨-, rfl, rfl⟩ := h; rfl

/-- An operation has one event at most, and what it tells of a push is true. -/
theorem perform_events {op : Op} {r : interface.Answer op}
    (h : n.perform E op = some (r, n', es)) :
    es = [] ∨ ∃ e, es = [e] ∧ ∀ raw wantStatistics result,
      e = .pushed raw wantStatistics result → result = (E.push n.chain raw wantStatistics).2 := by
  cases op <;> simp only [Node.perform, Option.some.injEq, Prod.mk.injEq, reduceCtorEq] at h
  case push raw wantStatistics =>
    obtain ⟨-, -, rfl⟩ := h
    refine .inr ⟨_, rfl, fun raw' want' result he => ?_⟩
    cases he
    rfl
  case update f =>
    obtain ⟨-, -, rfl⟩ := h
    unfold Node.turns
    split
    · exact .inl rfl
    · exact .inr ⟨_, rfl, fun _ _ _ he => nomatch he⟩
  case send link frame =>
    obtain ⟨-, -, rfl⟩ := h
    split
    · exact .inr ⟨_, rfl, fun _ _ _ he => nomatch he⟩
    · exact .inl rfl
  case hangUp | announce | stop | spawn =>
    obtain ⟨-, -, rfl⟩ := h
    exact .inr ⟨_, rfl, fun _ _ _ he => nomatch he⟩
  all_goals
    obtain ⟨-, -, rfl⟩ := h
    exact .inl rfl

/-- No operation takes a frame, since that is for the step between two rounds. -/
theorem took_notMem_of_perform {op : Op} {r : interface.Answer op} (f : Frame)
    (h : n.perform E op = some (r, n', es)) : .took f ∉ es := by
  intro hf
  obtain rfl | ⟨e, rfl, -⟩ := perform_events h
  · cases hf
  cases List.mem_singleton.mp hf
  cases op <;> simp only [Node.perform, Option.some.injEq, Prod.mk.injEq, reduceCtorEq] at h
  case update g =>
    obtain ⟨-, -, he⟩ := h
    unfold Node.turns at he
    split at he <;> cases he
  case send link frame =>
    obtain ⟨-, -, he⟩ := h
    split at he <;> cases he
  all_goals
    obtain ⟨-, -, he⟩ := h
    cases he

/-- A program that comes to its end without waiting. -/
inductive Runs (E : Engine σ) : Action α → Node σ → α → Node σ → List Event → Prop
  | done (a n) : Runs E (.done a) n a n []
  | ask {op next n r n' es a n'' es'} : Node.perform E n op = some (r, n', es) →
      Runs E (next r) n' a n'' es' → Runs E (.ask op next) n a n'' (es ++ es')

theorem Runs.pure (a : α) (n : Node σ) : Runs E (Pure.pure a) n a n [] := .done a n

theorem Runs.request {op : Op} {r : interface.Answer op}
    (h : n.perform E op = some (r, n', es)) :
    Runs E (Program.request (I := interface) op) n r n' es := by
  have hr : Runs E (.ask op .done) n r n' (es ++ []) := .ask h (.done r n')
  rwa [List.append_nil] at hr

theorem Runs.bind {p : Action α} {f : α → Action β} {a : α} {b : β}
    (hp : Runs E p n a n' es) (hf : Runs E (f a) n' b n'' es') :
    Runs E (p >>= f) n b n'' (es ++ es') := by
  induction hp with
  | done => exact hf
  | ask ho _ ih =>
    rw [List.append_assoc]
    exact .ask ho (ih hf)

theorem Runs.bind_quiet {p : Action α} {f : α → Action β} {a : α} {b : β}
    (hp : Runs E p n a n' []) (hf : Runs E (f a) n' b n'' es) : Runs E (p >>= f) n b n'' es :=
  hp.bind hf

theorem Runs.returning {p : Action α} {a : α} (hp : Runs E p n a n' es) (b : β) :
    Runs E (do let _ ← p; return b) n b n' es := by
  have hr := hp.bind (f := fun _ => Pure.pure b) (.pure b n')
  rwa [List.append_nil] at hr

theorem Runs.unique {p : Action α} {a b : α} (h : Runs E p n a n' es)
    (h' : Runs E p n b n'' es') : a = b ∧ n' = n'' ∧ es = es' := by
  induction h generalizing es' with
  | done =>
    cases h'
    exact ⟨rfl, rfl, rfl⟩
  | ask ho _ ih =>
    cases h' with
    | ask ho' hr =>
      rw [ho] at ho'
      cases ho'
      obtain ⟨rfl, rfl, rfl⟩ := ih hr
      exact ⟨rfl, rfl, rfl⟩

/-- A program that comes to its end with the answer to go on. -/
def LeadsTo (E : Engine σ) (p : Action Bool) (n : Node σ)
    (outcome : Node σ → List Event → Prop) : Prop :=
  ∃ n' es, Runs E p n true n' es ∧ outcome n' es

theorem LeadsTo.after {p : Action α} {f : α → Action Bool} {a : α}
    {outcome : Node σ → List Event → Prop} (hp : Runs E p n a n' [])
    (hf : LeadsTo E (f a) n' outcome) : LeadsTo E (p >>= f) n outcome := by
  obtain ⟨n'', es, hr, ho⟩ := hf
  exact ⟨n'', es, hp.bind_quiet hr, ho⟩

/-- A program that comes to its end, with what its answer then says of it. -/
def EndsIn (E : Engine σ) (p : Action α) (n : Node σ)
    (outcome : α → Node σ → List Event → Prop) : Prop :=
  ∃ a n' es, Runs E p n a n' es ∧ outcome a n' es

theorem EndsIn.after {p : Action α} {f : α → Action β} {a : α}
    {outcome : β → Node σ → List Event → Prop} (hp : Runs E p n a n' [])
    (hf : EndsIn E (f a) n' outcome) : EndsIn E (p >>= f) n outcome := by
  obtain ⟨b, n'', es, hr, ho⟩ := hf
  exact ⟨b, n'', es, hp.bind_quiet hr, ho⟩

theorem runs_clock (n : Node σ) : Runs E Action.clock n (n.sources.clock n.asked) n.ask [] :=
  .request rfl

theorem runs_instant (n : Node σ) : Runs E Action.instant n (n.sources.instant n.asked) n.ask [] :=
  .request rfl

theorem runs_nonce (n : Node σ) : Runs E Action.nonce n (n.sources.nonce n.asked) n.ask [] :=
  .request rfl

theorem runs_chain (n : Node σ) (q : Chain.Query) :
    Runs E (Action.chain q) n (E.answer n.chain q) n [] := .request rfl

theorem runs_push (n : Node σ) (raw : Bytes) (wantStatistics : Bool) :
    Runs E (Action.push raw wantStatistics) n (E.push n.chain raw wantStatistics).2
      { n with chain := (E.push n.chain raw wantStatistics).1 }
      [.pushed raw wantStatistics (E.push n.chain raw wantStatistics).2] := .request rfl

theorem runs_update (n : Node σ) (f : Session → Session) :
    Runs E (Action.update f) n n.session (n.mapSession f) (n.turns f) := .request rfl

theorem runs_modify (n : Node σ) (f : Session → Session) :
    Runs E (Action.modify f) n () (n.mapSession f) (n.turns f) := (runs_update n f).returning ()

theorem runs_state (n : Node σ) : Runs E Action.state n n.session n [] :=
  .request (by simp only [Node.perform, Node.mapSession, Node.turns, id_eq, if_true])

theorem runs_updatePeer (n : Node σ) (f : PeerState → PeerState) :
    Runs E (Action.updatePeer f) n n.session.peer (n.mapPeer f) [] := .request rfl

theorem runs_modifyPeer (n : Node σ) (f : PeerState → PeerState) :
    Runs E (Action.modifyPeer f) n () (n.mapPeer f) [] :=
  (runs_updatePeer n f).bind (.pure () _)

theorem runs_peerState (n : Node σ) : Runs E Action.peerState n n.session.peer n [] :=
  runs_updatePeer n id

theorem runs_measure (n : Node σ) (f : Throughput → Throughput) :
    Runs E (Action.measure f) n () (n.mapThroughput f) [] := .request rfl

theorem runs_isStopping (n : Node σ) : Runs E Action.isStopping n n.stopping n [] := .request rfl

theorem runs_spawn (n : Node σ) (a : Activity) :
    Runs E (Action.spawn a) n n.tasks { n with tasks := n.tasks + 1 } [.spawned a] := .request rfl

theorem runs_stop (n : Node σ) :
    Runs E Action.stop n () { n with stopping := true } [.stopped] := .request rfl

theorem runs_rest (n : Node σ) : Runs E Action.rest n () n [] := .request rfl

end Runs

end BlockSync.Session

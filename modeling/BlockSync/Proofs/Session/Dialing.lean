import BlockSync.Proofs.Session.Discipline

/-! What a dial may do to a session that others are at. Until a heartbeat is started, none of its
operations lets a session that it closes count as connected, has a task ended or announces
anything. -/

namespace BlockSync.Session

open BlockSync.Session.Action

/-- A change that starts no heartbeat, and after which a session that it closes does not count as
connected. -/
structure Loose (f : Session → Session) : Prop where
  heartbeat : ∀ s, (f s).heartbeat = s.heartbeat ∨ (f s).heartbeat = none
  closes : ∀ s, s.closed = false → (f s).closed = true → (f s).connected = false

def Op.IsLoose : Op → Prop
  | .update f => Loose f
  | .abort _ | .announce _ => False
  | _ => True

def Easy {α : Type} (p : Action α) : Prop := p.Within Op.IsLoose fun _ _ => True

theorem Tidy.loose {f : Session → Session} (h : Tidy f) : Loose f where
  heartbeat := h.heartbeat
  closes s hopen hclosed := by
    by_contra hconnected
    rw [Bool.not_eq_false] at hconnected
    rw [(h.connected s hconnected).2, hopen] at hclosed
    cases hclosed

theorem loose_attach (link : LinkId) : Loose (attach link) :=
  ⟨fun _ => .inl rfl, fun _ _ h => nomatch h⟩

theorem loose_setConnected (connected : Bool) : Loose (setConnected connected) where
  heartbeat _ := .inl rfl
  closes s hopen hclosed := by
    change s.closed = true at hclosed
    rw [hopen] at hclosed
    cases hclosed

section

variable {α β : Type}

theorem Easy.bind {p : Action α} {f : α → Action β} (hp : Easy p) (hf : ∀ a, Easy (f a)) :
    Easy (p >>= f) := Program.Within.bind hp hf

theorem Easy.request {op : Op} (h : op.IsLoose) : Easy (Program.request (I := interface) op) :=
  ⟨h, fun _ _ => trivial⟩

theorem Easy.ask {op : Op} {f : interface.Answer op → Action β} (h : op.IsLoose)
    (hf : ∀ r, Easy (f r)) : Easy (Program.request (I := interface) op >>= f) :=
  .bind (.request h) hf

theorem Easy.ite {c : Prop} [Decidable c] {p q : Action α} (hp : Easy p) (hq : Easy q) :
    Easy (if c then p else q) := Program.Within.ite hp hq

end

theorem Op.IsOrdinary.isLoose {op : Op} (h : op.IsOrdinary) : op.IsLoose := by
  cases op with
  | update f => exact Tidy.loose h
  | abort | announce => exact h
  | _ => trivial

theorem carries_loose : Carries Op.IsLoose := carries_ordinary.mono fun _ => Op.IsOrdinary.isLoose

theorem listens_loose : Listens Op.IsLoose where
  toCarries := carries_loose
  startReading := trivial
  awaitTurn _ _ := trivial
  receive _ _ _ := trivial
  endReading reading := (tidy_endReading reading).loose

theorem easy_send (m : Message) : Easy (send m) := carries_loose.send fun _ => trivial

theorem easy_shut : Easy shut := carries_loose.shut

section

variable (settings : Settings)

def easiness : Discipline settings where
  Holds := Easy
  pure _ := trivial
  bind := .bind
  request h := .request h.isLoose
  sendHandshake := by
    refine .bind ?_ fun m => easy_send (.handshake m)
    iterate 8 refine .ask trivial fun _ => ?_
    trivial

theorem timing_easiness : (easiness settings).Timing where
  send m := easy_send (.time m)
  modifyPeer _ _ := .ask trivial fun _ => trivial

theorem waiting_easiness : (easiness settings).Waiting where
  readMessage deadline := listens_loose.readMessage deadline
  pause _ _ := .request trivial

theorem easy_estimateLatency : Easy estimateLatency :=
  (timing_easiness {}).estimateLatency (waiting_easiness {})

theorem easy_reset : Easy reset := by
  refine .bind (.ask (loose_setConnected false) fun _ => trivial) fun _ => ?_
  exact .bind (.ask trivial fun _ => trivial) fun _ => .request trivial

theorem easy_openTunnel (proxy target : Address) (deadline : Instant) :
    Easy (openTunnel proxy target deadline) := by
  unfold openTunnel
  split
  · trivial
  · refine .ask trivial fun dialed => ?_
    cases dialed with
    | refused | stopped => trivial
    | opened link =>
      refine .bind (.embed _ (fun op => ?_) _) fun result => ?_
      · cases op <;> trivial
      · cases result with
        | ok _ => trivial
        | error fault => exact .ask trivial fun _ => .ask trivial fun _ => trivial

theorem easy_openLink (target : Address) : Easy (openLink settings target) := by
  refine .ask trivial fun now => .ite (.ask trivial fun dialed => ?_) ?_
  · cases dialed <;> trivial
  split
  · split
    · exact easy_openTunnel _ _ _
    · trivial
  · refine .ask trivial fun dialed => ?_
    cases dialed <;> trivial

theorem easy_install (link : LinkId) : Easy (install link) := by
  refine .ask (loose_attach link) fun before => .bind ?_ fun _ => ?_
  · cases before.writer with
    | none => trivial
    | some link => exact .request trivial
  · cases before.reader with
    | none => trivial
    | some link => exact .request trivial

end

end BlockSync.Session

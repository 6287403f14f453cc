import BlockSync.Proofs.Peer.Counters
import BlockSync.Proofs.Program.Ensures
import BlockSync.Proofs.Wire.Splitting
import BlockSync.Session.Connect
import BlockSync.Session.Loop

/-! What a session asks for, whatever it is answered: which changes it makes of itself and of what
it knows of the peer, what it says and how much it reads. Only dialing takes a transport or has
the peer count as usable. -/

namespace BlockSync.Session

open BlockSync.Session.Action

/-- A change that opens nothing, gives the transport up where it closes it and not elsewhere, starts
no heartbeat and leaves alone what has a lock of its own. -/
structure Tidy (f : Session → Session) : Prop where
  closed : ∀ s, s.closed = true → (f s).closed = true
  connected : ∀ s, (f s).connected = true → s.connected = true ∧ (f s).closed = s.closed
  transport : ∀ s, (f s).transport = s.transport
  cut : ∀ s, (f s).closed = true → s.closed = true ∧ (f s).cut = s.cut ∨ (f s).cut = true
  kept : ∀ s, (f s).closed = false →
    (f s).cut = s.cut ∧ (f s).reader = s.reader ∧ (f s).writer = s.writer
  heartbeat : ∀ s, (f s).heartbeat = s.heartbeat ∨ (f s).heartbeat = none
  peer : ∀ s, (f s).peer = s.peer
  throughput : ∀ s, (f s).throughput = s.throughput

inductive Opening : (Session → Session) → Prop
  | attach (link : LinkId) : Opening (attach link)
  | connected : Opening (setConnected true)
  | heartbeat (task : TaskId) : Opening fun s => { s with heartbeat := some task }

inductive Tally (sizes : Nat → Prop) : (Throughput → Throughput) → Prop
  | clear : Tally sizes fun _ => {}
  | block {size : Nat} (now : Instant) (num : UInt32) (head : Option UInt32) : sizes size →
      Tally sizes fun t => ((t.record size now).report now num head).1

inductive Own (settings : Settings) (sizes : Nat → Prop) : Message → Prop
  | handshake {m : Handshake} : m.p2pAddress = settings.p2pAddress → m.os = hostOs →
      m.agent = settings.agent → Own settings sizes (.handshake m)
  | goAway (m : GoAway) : Own settings sizes (.goAway m)
  | time (m : TimeStamps) : Own settings sizes (.time m)
  | notice {m : Notice} : m.transactions.ids.length ≤ 2 → m.blocks.ids.length ≤ 2 →
      Own settings sizes (.notice m)
  | request (anchor : Checksum) : Own settings sizes (.request (.catchUp anchor))
  | syncRequest (range : BlockRange) : Own settings sizes (.syncRequest range)
  | signedBlock {raw : Bytes} : sizes raw.length → Own settings sizes (.signedBlock raw)

inductive Proxied : Bytes → Prop
  | greeting : Proxied Socks5.greeting
  | connect (target : Ipv4) (port : UInt16) : Proxied (Socks5.connectRequest target port)

namespace Routine

variable (settings : Settings) (sizes : Nat → Prop) (dials : Prop)

/-- What a session may ask for. Blocks have certain sizes. -/
def Asks : Op → Prop
  | .update f => Tidy f ∨ dials ∧ Opening f
  | .updatePeer f => ∀ p : PeerState, p.Counts → (f p).Counts
  | .measure f => Tally sizes f
  | .push raw _ => sizes raw.length
  | .receive _ count _ => 1 ≤ count
  | .send _ frame => (∃ m, Own settings sizes m ∧ frame = m.frame) ∨ dials ∧ Proxied frame
  | .abort _ | .dial _ _ | .lockDial | .unlockDial => dials
  | _ => True

def Gives : (op : Op) → interface.Answer op → Prop
  | .receive _ count _, .bytes b => b.length = count
  | .chain (.blockAt _), raw? => ∀ raw ∈ raw?, sizes raw.length
  | _, _ => True

end Routine

/-- Whether a program asks only for what a session may ask for, and has certain results. -/
def Routine (settings : Settings) (sizes : Nat → Prop) (dials : Prop) {α : Type}
    (post : α → Prop) (p : Action α) : Prop :=
  p.Ensures (fun (_ : Unit) op => Routine.Asks settings sizes dials op)
    (fun _ op r _ => Routine.Gives sizes op r) (fun a _ => post a) ()

def OnSuccess {α ε : Type} (P : α → Prop) (result : Except ε α) : Prop := ∀ a, result = .ok a → P a

section

variable {settings : Settings} {sizes : Nat → Prop} {dials : Prop} {α β ε : Type}
  {post : α → Prop} {post' : β → Prop} {p q : Action α}

theorem Routine.pure {a : α} (h : post a) :
    Routine settings sizes dials post (Pure.pure a) := h

theorem Routine.request {op : Op} {post : interface.Answer op → Prop}
    (hop : Routine.Asks settings sizes dials op) (h : ∀ r, Routine.Gives sizes op r → post r) :
    Routine settings sizes dials post (Program.request (I := interface) op) :=
  ⟨hop, fun r _ hr => h r hr⟩

theorem Routine.bind {f : α → Action β}
    (h : Routine settings sizes dials (fun a => Routine settings sizes dials post' (f a)) p) :
    Routine settings sizes dials post' (p >>= f) := Program.Ensures.bind h

theorem Routine.mono {post' : α → Prop} (h : Routine settings sizes dials post p)
    (hpost : ∀ a, post a → post' a) : Routine settings sizes dials post' p :=
  Program.Ensures.mono h fun a _ => hpost a

theorem Routine.andThen {f : α → Action β}
    (hp : Routine settings sizes dials (fun _ => True) p)
    (hf : ∀ a, Routine settings sizes dials post' (f a)) :
    Routine settings sizes dials post' (p >>= f) :=
  .bind (hp.mono fun a _ => hf a)

theorem Routine.ask {op : Op} {f : interface.Answer op → Action β}
    (hop : Routine.Asks settings sizes dials op)
    (hf : ∀ r, Routine settings sizes dials post' (f r)) :
    Routine settings sizes dials post' (Program.request (I := interface) op >>= f) :=
  .bind (.request hop fun r _ => hf r)

theorem Routine.ite {c : Prop} [Decidable c] (hp : Routine settings sizes dials post p)
    (hq : Routine settings sizes dials post q) :
    Routine settings sizes dials post (if c then p else q) :=
  Program.Ensures.ite (fun _ => hp) fun _ => hq

theorem OnSuccess.ok {P : α → Prop} {a : α} (h : P a) : OnSuccess P (.ok a : Except ε α) := by
  intro b hb
  cases hb
  exact h

theorem OnSuccess.error {P : α → Prop} (e : ε) : OnSuccess P (.error e) := by
  intro b hb
  cases hb

theorem Routine.bind_run {P : α → Prop} {Q : β → Prop} {r : ExceptT ε Action α}
    {g : α → ExceptT ε Action β} (hr : Routine settings sizes dials (OnSuccess P) r.run)
    (hg : ∀ a, P a → Routine settings sizes dials (OnSuccess Q) (g a).run) :
    Routine settings sizes dials (OnSuccess Q) (r >>= g).run := by
  refine Routine.bind (hr.mono fun result hresult => ?_)
  cases result with
  | ok a => exact hg a (hresult a rfl)
  | error e => exact .pure (.error e)

end

section

theorem tidy_id : Tidy id where
  closed _ h := h
  connected _ h := ⟨h, rfl⟩
  transport _ := rfl
  cut _ h := .inl ⟨h, rfl⟩
  kept _ _ := ⟨rfl, rfl, rfl⟩
  heartbeat _ := .inl rfl
  peer _ := rfl
  throughput _ := rfl

theorem tidy_close : Tidy close := by
  constructor
  · intro s h
    rw [close, if_pos h]
    exact h
  · intro s h
    unfold close at h ⊢
    split at h
    · next hs => exact ⟨h, by rw [if_pos hs]⟩
    · cases h
  · intro s
    unfold close
    split <;> rfl
  · intro s _
    unfold close
    split
    · next hs => exact .inl ⟨hs, rfl⟩
    · exact .inr rfl
  · intro s h
    unfold close at h
    split at h
    · next hs =>
      rw [h] at hs
      cases hs
    · cases h
  · intro s
    unfold close
    split
    · exact .inl rfl
    · exact .inr rfl
  · intro s
    unfold close
    split <;> rfl
  · intro s
    unfold close
    split <;> rfl

theorem tidy_endReading (reading : Nat) : Tidy (endReading reading) where
  closed _ h := h
  connected _ h := ⟨h, rfl⟩
  transport _ := rfl
  cut _ h := .inl ⟨h, rfl⟩
  kept _ _ := ⟨rfl, rfl, rfl⟩
  heartbeat _ := .inl rfl
  peer _ := rfl
  throughput _ := rfl

theorem tidy_startResponder : Tidy startResponder where
  closed _ h := h
  connected _ h := ⟨h, rfl⟩
  transport _ := rfl
  cut _ h := .inl ⟨h, rfl⟩
  kept _ _ := ⟨rfl, rfl, rfl⟩
  heartbeat _ := .inl rfl
  peer _ := rfl
  throughput _ := rfl

theorem tidy_stopResponder : Tidy stopResponder where
  closed _ h := h
  connected _ h := ⟨h, rfl⟩
  transport _ := rfl
  cut _ h := .inl ⟨h, rfl⟩
  kept _ _ := ⟨rfl, rfl, rfl⟩
  heartbeat _ := .inl rfl
  peer _ := rfl
  throughput _ := rfl

theorem tidy_disconnect : Tidy (setConnected false) where
  closed _ h := h
  connected _ h := nomatch h
  transport _ := rfl
  cut _ h := .inl ⟨h, rfl⟩
  kept _ _ := ⟨rfl, rfl, rfl⟩
  heartbeat _ := .inl rfl
  peer _ := rfl
  throughput _ := rfl

end

section

variable (settings : Settings) (sizes : Nat → Prop) (dials : Prop)

theorem routine_update {f : Session → Session} (h : Tidy f) :
    Routine settings sizes dials (fun _ => True) (update f) := .request (.inl h) fun _ _ => trivial

theorem routine_modify {f : Session → Session} (h : Tidy f) :
    Routine settings sizes dials (fun _ => True) (modify f) :=
  .andThen (routine_update settings sizes dials h) fun _ => .pure trivial

theorem routine_modifyPeer {f : PeerState → PeerState}
    (h : ∀ p : PeerState, p.Counts → (f p).Counts) :
    Routine settings sizes dials (fun _ => True) (modifyPeer f) :=
  .ask h fun _ => .pure trivial

theorem routine_peerState : Routine settings sizes dials (fun _ => True) peerState :=
  .request (fun _ h => h) fun _ _ => trivial

theorem routine_shut : Routine settings sizes dials (fun _ => True) shut := by
  refine .andThen (routine_update _ _ _ tidy_close) fun before => .ite ?_ (.pure trivial)
  refine .andThen ?_ fun _ => .ite ?_ (.pure trivial)
  · cases before.writer with
    | none => exact .pure trivial
    | some link => exact .request trivial fun _ _ => trivial
  · cases before.reader with
    | none => exact .pure trivial
    | some link => exact .request trivial fun _ _ => trivial

theorem routine_receiveExactly (link : LinkId) {count : Nat} (h : 1 ≤ count) (wait : Wait) :
    Routine settings sizes dials (OnSuccess fun b => b.length = count)
      (receiveExactly link count wait).run := by
  refine .bind_run (P := fun received => ∀ b, received = Received.bytes b → b.length = count)
    (r := liftM (receive link count wait)) ?_ fun received hr => ?_
  · refine ⟨h, fun received _ hr => .ok fun b hb => ?_⟩
    subst hb
    exact hr
  · cases received with
    | bytes b => exact .pure (.ok (hr b rfl))
    | ended | cut | late => exact .pure (.error _)

def Fitting (payload : Bytes) : Prop := 1 ≤ payload.length ∧ payload.length + 1 < 5 * 1024 * 1024

theorem routine_receiveFrame (transport : Nat) (deadline : Option Instant) :
    Routine settings sizes dials (OnSuccess fun frame => Fitting frame.payload)
      (receiveFrame transport deadline).run := by
  refine .bind_run (P := fun _ => True) (r := liftM state) ⟨.inl tidy_id, fun _ _ _ => .ok trivial⟩
    fun s _ => ?_
  cases s.reader with
  | none => exact .pure (.error _)
  | some link =>
    refine .bind_run (routine_receiveExactly _ _ _ link (by decide) _) fun length _ => ?_
    dsimp only
    split
    · exact .pure (.error _)
    · next hadmits =>
      rw [Bool.not_eq_true, Bool.not_eq_false'] at hadmits
      obtain ⟨hleast, hmost⟩ := (Frame.admits_iff _).mp hadmits
      refine .bind_run (routine_receiveExactly _ _ _ link (by decide) _) fun tag _ => ?_
      refine .bind_run (routine_receiveExactly _ _ _ link (by omega) _) fun payload hp => ?_
      exact .pure (.ok ⟨by dsimp only; omega, by dsimp only; omega⟩)

theorem routine_readFrame (deadline : Option Instant) :
    Routine settings sizes dials (OnSuccess fun frame => Fitting frame.payload)
      (readFrame deadline) := by
  refine .ask trivial fun before => .ask trivial fun turn => ?_
  have hend (result : Except ReadFault Frame) (h : OnSuccess (fun f => Fitting f.payload) result) :
      Routine settings sizes dials (OnSuccess fun frame => Fitting frame.payload)
        (do modify (endReading before.readingCount); return result) :=
    .andThen (routine_modify _ _ _ (tidy_endReading _)) fun _ => .pure h
  refine .ite ?_ (hend _ (.error _))
  exact .bind ((routine_receiveFrame _ _ _ _ _).mono hend)

theorem routine_readMessage (deadline : Option Instant) :
    Routine settings sizes dials (fun frame? => ∀ frame ∈ frame?, Fitting frame.payload)
      (readMessage deadline) := by
  have hnone : ∀ frame ∈ (none : Option Frame), Fitting frame.payload := fun _ h => nomatch h
  refine .ask (.inl tidy_id) fun s => .ite (.pure hnone) ?_
  refine .bind ((routine_readFrame _ _ _ deadline).mono fun result hresult => ?_)
  rcases result with fault | frame
  · cases fault with
    | broken => exact .andThen (routine_shut _ _ _) fun _ => .pure hnone
    | gone | late => exact .pure hnone
  · refine .pure fun frame' h => ?_
    cases h
    exact hresult frame rfl

theorem routine_send {m : Message} (h : Own settings sizes m) :
    Routine settings sizes dials (fun _ => True) (send m) := by
  refine .ask (.inl tidy_id) fun s => .ite (.pure trivial) (.andThen ?_ fun sent => ?_)
  · cases s.writer with
    | some link => exact .request (.inl ⟨m, h, rfl⟩) fun _ _ => trivial
    | none => exact .pure trivial
  · exact .ite (.andThen (routine_shut _ _ _) fun _ => .pure trivial) (.pure trivial)

theorem routine_sendReset : Routine settings sizes dials (fun _ => True) sendReset :=
  routine_send _ _ _ (.syncRequest _)

theorem routine_sendCatchUp : Routine settings sizes dials (fun _ => True) sendCatchUp :=
  .ask trivial fun _ => routine_send _ _ _ (.request _)

theorem routine_sendHandshake :
    Routine settings sizes dials (fun _ => True) (sendHandshake settings) := by
  refine .ask (fun _ h => h.advanceGeneration) fun before => ?_
  iterate 7 refine .ask trivial fun _ => ?_
  exact routine_send _ _ _ (.handshake rfl rfl rfl)

theorem routine_sendRange (first last : UInt32) :
    Routine settings sizes dials (fun _ => True) (sendRange first last) := by
  unfold sendRange
  split
  · exact .pure trivial
  · exact .andThen (routine_modifyPeer _ _ _ fun _ h => h) fun _ =>
      routine_send _ _ _ (.syncRequest _)

theorem routine_sendRangeFrom (first : UInt32) (last? : Option UInt32) :
    Routine settings sizes dials (fun _ => True) (sendRangeFrom settings first last?) := by
  cases last? with
  | some last => exact routine_sendRange _ _ _ first last
  | none =>
    refine .andThen (routine_peerState _ _ _) fun peer => ?_
    cases peer.remoteHead with
    | none => exact .pure trivial
    | some remoteHead => exact .ite (routine_sendHandshake _ _ _) (routine_sendRange _ _ _ _ _)

theorem routine_sendSyncRequest (first? last? : Option UInt32) :
    Routine settings sizes dials (fun _ => True) (sendSyncRequest settings first? last?) := by
  cases first? with
  | some first => exact routine_sendRangeFrom _ _ _ first last?
  | none => exact .ask trivial fun _ => routine_sendRangeFrom _ _ _ _ last?

theorem routine_resync : Routine settings sizes dials (fun _ => True) (resync settings) :=
  .ask trivial fun _ => .ask trivial fun _ => routine_sendSyncRequest _ _ _ _ _

theorem routine_restart : Routine settings sizes dials (fun _ => True) restart :=
  .andThen (routine_sendReset _ _ _) fun _ => .ite (.pure trivial) (routine_sendCatchUp _ _ _)

theorem routine_afterRange (peer : PeerState) (num : UInt32) :
    Routine settings sizes dials (fun _ => True) (afterRange settings peer num) := by
  refine .ite (.pure trivial) (.ite (routine_sendSyncRequest _ _ _ _ _) ?_)
  refine .andThen (routine_sendHandshake _ _ _) fun _ => .ite (.pure trivial) ?_
  exact .andThen (routine_modifyPeer _ _ _ fun _ h => h) fun _ => routine_sendCatchUp _ _ _

theorem routine_afterBlock (num : UInt32) {size : Nat} (h : sizes size) :
    Routine settings sizes dials (fun _ => True) (afterBlock settings num size) := by
  refine .andThen (routine_peerState _ _ _) fun peer => .ask trivial fun now => ?_
  refine .ask (.block now num peer.remoteHead h) fun _ => .ite ?_ (routine_afterRange _ _ _ _ _)
  exact .andThen (routine_sendHandshake _ _ _) fun _ =>
    .ite (.pure trivial) (routine_afterRange _ _ _ _ _)

theorem routine_offerBlock (header : Header) {raw : Bytes} (h : sizes raw.length) :
    Routine settings sizes dials (fun _ => True) (offerBlock settings header raw) := by
  refine .ask trivial fun now => .ask h fun result => ?_
  rcases result with fault | text
  · cases fault with
    | unlinkable => exact routine_restart _ _ _
    | _ => exact .ite (.pure trivial) (.ask trivial fun _ => .pure trivial)
  · exact .ask trivial fun _ => routine_afterBlock _ _ _ _ h

theorem routine_handleBlock {raw : Bytes} (h : sizes raw.length) :
    Routine settings sizes dials (fun _ => True) (handleBlock settings raw) := by
  unfold handleBlock
  split
  · exact .pure trivial
  · refine .ask trivial fun headNum => .ite ?_ ?_
    · exact .ask trivial fun _ => .ite (.pure trivial) (routine_offerBlock _ _ _ _ h)
    · exact .ite (routine_restart _ _ _) (routine_offerBlock _ _ _ _ h)

theorem routine_respondOnce (next last : UInt32) (transport responder : Nat) :
    Routine settings sizes dials (fun _ => True) (respondOnce next last transport responder) := by
  refine .ask (.inl tidy_id) fun s => .ite (.pure trivial) ?_
  refine .ask trivial fun stopping => .ite (.pure trivial) (.bind (.request trivial ?_))
  intro raw? hraw
  cases raw? with
  | none => exact .pure trivial
  | some raw =>
    exact .andThen (routine_send _ _ _ (.signedBlock (hraw raw rfl))) fun _ =>
      .ite (.pure trivial) (.ite (.pure trivial) (.pure trivial))

theorem routine_handleSyncRequest (range : BlockRange) :
    Routine settings sizes dials (fun _ => True) (handleSyncRequest range) := by
  refine .ite (routine_modify _ _ _ tidy_stopResponder) ?_
  exact .andThen (routine_update _ _ _ tidy_startResponder) fun before =>
    .ask trivial fun _ => .pure trivial

theorem routine_handleTime (m : TimeStamps) :
    Routine settings sizes dials (fun _ => True) (handleTime m) := by
  refine .ask trivial fun now => .ite (.pure trivial) (.ite (routine_send _ _ _ (.time _)) ?_)
  refine .andThen (routine_modifyPeer _ _ _ fun p h => ?_) fun _ => .pure trivial
  split
  · exact h
  · exact h

theorem routine_estimateLatency :
    Routine settings sizes dials (fun _ => True) estimateLatency := by
  refine .ask trivial fun now => .andThen (routine_send _ _ _ (.time _)) fun _ => ?_
  refine .ite (.pure trivial) (.ask trivial fun start => ?_)
  refine .andThen ((routine_readMessage _ _ _ _).mono fun _ _ => trivial) fun frame? => ?_
  split
  · exact .pure trivial
  · split
    · refine .ite (.pure trivial) (.ask trivial fun _ => ?_)
      exact .andThen (routine_modifyPeer _ _ _ fun _ h => h) fun _ => .pure trivial
    · exact .pure trivial

theorem routine_beat (transport : Nat) :
    Routine settings sizes dials (fun _ => True) (beat settings transport) := by
  refine .ask trivial fun start => .ask trivial fun due => .ite (.pure trivial) ?_
  refine .ask (.inl tidy_id) fun s => .ite (.pure trivial) (.ask trivial fun now => ?_)
  refine .andThen (routine_modifyPeer _ _ _ fun _ h => h) fun _ => ?_
  refine .andThen (routine_send _ _ _ (.time _)) fun _ => .ite (.pure trivial) ?_
  exact .andThen (routine_sendHandshake _ _ _) fun _ => .ite (.pure trivial) (.pure trivial)

theorem routine_runOnce (a : Activity) :
    Routine settings sizes dials (fun _ => True) (runOnce settings a) := by
  cases a with
  | heartbeat transport => exact routine_beat _ _ _ transport
  | respond next last transport responder =>
    exact routine_respondOnce _ _ _ next last transport responder

theorem routine_handleHandshake (m : Handshake) :
    Routine settings sizes dials (fun _ => True) (handleHandshake settings m) := by
  refine .andThen (routine_modifyPeer _ _ _ fun _ h => h) fun _ => ?_
  iterate 3 refine .ask trivial fun _ => ?_
  refine .ite (routine_sendSyncRequest _ _ _ _ _) (.ite (.pure trivial) ?_)
  refine .ite (routine_sendCatchUp _ _ _) (.ite ?_ (.ite ?_ (.pure trivial)))
  · exact routine_send _ _ _ (.notice (Nat.zero_le 2) (Nat.le_succ 1))
  · exact .ask trivial fun _ => routine_send _ _ _ (.notice (Nat.zero_le 2) (Nat.le_refl 2))

theorem routine_handleNotice (m : Notice) :
    Routine settings sizes dials (fun _ => True) (handleNotice settings m) := by
  unfold handleNotice
  split
  · exact .pure trivial
  · exact .pure trivial
  · refine .ite (.ask trivial fun _ => ?_) (routine_sendCatchUp _ _ _)
    exact .andThen (routine_send _ _ _ (.goAway _)) fun _ =>
      .andThen (routine_shut _ _ _) fun _ => .pure trivial
  · refine .ask trivial fun headNum => .ite (.pure trivial) ?_
    exact .andThen (routine_sendReset _ _ _) fun _ =>
      .ite (.pure trivial) (routine_sendSyncRequest _ _ _ _ _)

theorem routine_dispatch {m : Message} (h : ∀ raw, m = .signedBlock raw → sizes raw.length) :
    Routine settings sizes dials (fun _ => True) (dispatch settings m) := by
  cases m with
  | handshake m => exact routine_handleHandshake _ _ _ m
  | goAway m =>
    exact .ask trivial fun _ => .andThen (routine_shut _ _ _) fun _ => .pure trivial
  | time m => exact .andThen (routine_handleTime _ _ _ m) fun _ => .pure trivial
  | notice m => exact routine_handleNotice _ _ _ m
  | syncRequest range =>
    exact .andThen (routine_handleSyncRequest _ _ _ range) fun _ => .pure trivial
  | signedBlock raw => exact routine_handleBlock _ _ _ (h raw rfl)
  | chainSize | request | transaction => exact .pure trivial

theorem routine_handleFrame (hsizes : ∀ payload, Fitting payload → sizes payload.length)
    {frame : Frame} (hf : Fitting frame.payload) :
    Routine settings sizes dials (fun _ => True) (handleFrame settings frame) := by
  refine .ask trivial fun stopping => .ite (.pure trivial) ?_
  split
  · next m hm =>
    refine routine_dispatch _ _ _ fun raw hraw => ?_
    rw [hraw] at hm
    rw [Message.raw_of_ofPayload hm]
    exact hsizes _ hf
  · exact .pure trivial
  · exact .andThen (routine_shut _ _ _) fun _ => .pure trivial

theorem routine_receiveOnce (hsizes : ∀ payload, Fitting payload → sizes payload.length) :
    Routine settings sizes dials (fun _ => True) (receiveOnce settings) := by
  refine .ask trivial fun stopping => .ite (.pure trivial) ?_
  refine .bind ((routine_readMessage _ _ _ none).mono fun frame? hframe => ?_)
  cases frame? with
  | none => exact .pure trivial
  | some frame => exact routine_handleFrame _ _ _ hsizes (hframe frame rfl)

theorem routine_greet : Routine settings sizes dials (fun _ => True) (greet settings) := by
  refine .andThen (routine_modifyPeer _ _ _ fun _ h => h) fun _ => ?_
  exact .andThen (routine_sendReset _ _ _) fun _ => routine_sendHandshake _ _ _

end

def Courteous {α : Type} (p : ExceptT Socks5.Fault (Program Stream.interface) α) : Prop :=
  p.run.Ensures
    (fun (_ : Unit) (op : Stream.Op) =>
      match op with
      | .send bytes => Proxied bytes
      | .receive count => 1 ≤ count)
    (fun _ _ _ _ => True) (fun _ _ => True) ()

section

variable {α β : Type}

theorem Courteous.bind {p : ExceptT Socks5.Fault (Program Stream.interface) α}
    {f : α → ExceptT Socks5.Fault (Program Stream.interface) β} (hp : Courteous p)
    (hf : ∀ a, Courteous (f a)) : Courteous (p >>= f) := by
  refine Program.Ensures.bind (hp.mono fun result _ _ => ?_)
  cases result with
  | ok a => exact hf a
  | error fault => trivial

theorem courteous_send {bytes : Bytes} (h : Proxied bytes) : Courteous (Socks5.send bytes) := by
  refine .bind (p := liftM (Program.request (I := Stream.interface) (.send bytes)))
    ⟨h, fun _ _ _ => trivial⟩ fun sent => ?_
  split <;> trivial

theorem courteous_receive {count : Nat} (h : 1 ≤ count) (atEnd : Socks5.Fault) :
    Courteous (Socks5.receive count atEnd) := by
  refine .bind (p := liftM (Program.request (I := Stream.interface) (.receive count)))
    ⟨h, fun _ _ _ => trivial⟩ fun answer => ?_
  cases answer <;> trivial

theorem courteous_boundLength (addressType : UInt8) :
    Courteous (Socks5.boundLength addressType) := by
  unfold Socks5.boundLength
  split
  · trivial
  · exact .bind (courteous_receive (by decide) _) fun _ => trivial

theorem courteous_exchange (target : Ipv4) (port : UInt16) :
    Courteous (Socks5.exchange target port) := by
  refine .bind (courteous_send .greeting) fun _ => ?_
  refine .bind (courteous_receive (by decide) _) fun method => ?_
  dsimp only
  split
  · trivial
  · refine .bind (courteous_send (.connect target port)) fun _ => ?_
    refine .bind (courteous_receive (by decide) _) fun head => ?_
    refine .bind (courteous_boundLength _) fun length => ?_
    refine .bind (courteous_receive (by omega) _) fun _ => ?_
    split <;> trivial

end

section

variable (settings : Settings) (sizes : Nat → Prop) (target : Address)

theorem routine_handshake (ip : Ipv4) (port : UInt16) (link : LinkId) (deadline : Instant) :
    Routine settings sizes True (fun _ => True)
      ((Socks5.handshake ip port).embed (overLink link deadline)) := by
  refine .embed ((courteous_exchange ip port).matched (R := fun _ _ => True) trivial ?_ ?_ ?_)
  · intro _ _ op _ hop
    cases op with
    | send bytes => exact .inr ⟨trivial, hop⟩
    | receive count => exact hop
  · exact fun _ _ _ _ _ _ _ _ => ⟨(), trivial, trivial⟩
  · exact fun _ _ _ _ _ => trivial

theorem routine_openTunnel (proxy : Address) (deadline : Instant) :
    Routine settings sizes True (fun _ => True) (openTunnel proxy target deadline) := by
  unfold openTunnel
  split
  · exact .pure trivial
  · refine .ask trivial fun dialed => ?_
    cases dialed with
    | refused | stopped => exact .pure trivial
    | opened link =>
      refine .andThen (routine_handshake _ _ _ _ _ _) fun result => ?_
      cases result with
      | ok _ => exact .pure trivial
      | error fault => exact .ask trivial fun _ => .ask trivial fun _ => .pure trivial

theorem routine_openLink :
    Routine settings sizes True (fun _ => True) (openLink settings target) := by
  refine .ask trivial fun now => .ite (.ask trivial fun dialed => ?_) ?_
  · cases dialed <;> exact .pure trivial
  split
  · split
    · exact routine_openTunnel _ _ _ _ _
    · exact .pure trivial
  · refine .ask trivial fun dialed => ?_
    cases dialed <;> exact .pure trivial

theorem routine_install (link : LinkId) :
    Routine settings sizes True (fun _ => True) (install link) := by
  refine .ask (.inr ⟨trivial, .attach link⟩) fun before => .andThen ?_ fun _ => ?_
  · cases before.writer with
    | none => exact .pure trivial
    | some link => exact .request trivial fun _ _ => trivial
  · cases before.reader with
    | none => exact .pure trivial
    | some link => exact .request trivial fun _ _ => trivial

theorem routine_reset (dials : Prop) :
    Routine settings sizes dials (fun _ => True) reset := by
  refine .andThen (routine_modify _ _ _ tidy_disconnect) fun _ => ?_
  refine .andThen (routine_modifyPeer _ _ _ fun p _ => p.counts_reset) fun _ => ?_
  exact .request .clear fun _ _ => trivial

theorem routine_startHeartbeat :
    Routine settings sizes True (fun _ => True) startHeartbeat := by
  refine .ask (.inl tidy_id) fun s => .ask trivial fun task => ?_
  refine .ask (.inr ⟨trivial, .heartbeat task⟩) fun before => ?_
  cases before.heartbeat with
  | none => exact .pure trivial
  | some old => exact .request trivial fun _ _ => trivial

theorem routine_connect :
    Routine settings sizes True (fun _ => True) (connect settings target) := by
  have hone : Routine settings sizes True (fun _ => True) (connectOnce settings target) := by
    refine .ask (.inl tidy_id) fun s => .ite (.pure trivial) ?_
    refine .andThen (routine_shut _ _ _) fun _ => .andThen (routine_reset _ _ _) fun _ => ?_
    refine .andThen (routine_openLink _ _ _) fun link? => ?_
    cases link? with
    | none => exact .pure trivial
    | some link =>
      refine .andThen (routine_install _ _ link) fun _ => ?_
      refine .andThen (routine_estimateLatency _ _ _) fun ok => .ite ?_ ?_
      · exact .andThen (routine_shut _ _ _) fun _ => .pure trivial
      · refine .ask (.inr ⟨trivial, .connected⟩) fun _ => ?_
        exact .andThen (routine_startHeartbeat _ _) fun _ => .pure trivial
  exact .ask trivial fun _ => .andThen hone fun _ => .ask trivial fun _ => .pure trivial

end

end BlockSync.Session

import BlockSync.Proofs.Program.Within
import BlockSync.Proofs.Session.Routine

/-! What holds of the programs of a session because it holds of their parts. A discipline holds of
ordinary operations, of the sending of handshakes and of whatever is put together from programs of
which it holds. So it holds of all that a session does, if it also holds of offering blocks and of
keeping the time, where these come in. Dialing is not followed here. -/

namespace BlockSync.Session

open BlockSync.Session.Action

structure Carries (asks : Op → Prop) : Prop where
  look : asks (.update id)
  close : asks (.update close)
  hangUp : ∀ link, asks (.hangUp link)
  ignore : ∀ link, asks (.ignore link)

structure Listens (asks : Op → Prop) : Prop extends Carries asks where
  startReading : asks .startReading
  awaitTurn : ∀ reading deadline, asks (.awaitTurn reading deadline)
  receive : ∀ link count wait, asks (.receive link count wait)
  endReading : ∀ reading, asks (.update (endReading reading))

namespace Carries

variable {asks : Op → Prop} (h : Carries asks)
include h

theorem mono {asks' : Op → Prop} (hasks : ∀ op, asks op → asks' op) : Carries asks' where
  look := hasks _ h.look
  close := hasks _ h.close
  hangUp link := hasks _ (h.hangUp link)
  ignore link := hasks _ (h.ignore link)

theorem shut : shut.Within asks fun _ _ => True := by
  refine .ask h.close fun before => .ite (.bind ?_ fun _ => .ite ?_ trivial) trivial
  · cases before.writer with
    | none => trivial
    | some link => exact ⟨h.hangUp link, fun _ _ => trivial⟩
  · cases before.reader with
    | none => trivial
    | some link => exact ⟨h.ignore link, fun _ _ => trivial⟩

theorem send {m : Message} (hsend : ∀ link, asks (.send link m.frame)) :
    (send m).Within asks fun _ _ => True := by
  refine .ask h.look fun s => .ite trivial (.bind ?_ fun sent => ?_)
  · cases s.writer with
    | some link => exact ⟨hsend link, fun _ _ => trivial⟩
    | none => trivial
  · exact .ite (.bind h.shut fun _ => trivial) trivial

end Carries

namespace Listens

variable {asks : Op → Prop} (h : Listens asks)
include h

theorem receiveExactly (link : LinkId) (count : Nat) (wait : Wait) :
    (receiveExactly link count wait).run.Within asks fun _ _ => True := by
  refine .bind_run (p := liftM (Action.receive link count wait))
    ⟨h.receive link count wait, fun _ _ => trivial⟩ fun answer => ?_
  cases answer <;> trivial

theorem receiveFrame (transport : Nat) (deadline : Option Instant) :
    (receiveFrame transport deadline).run.Within asks fun _ _ => True := by
  refine .bind_run (p := liftM state) ⟨h.look, fun _ _ => trivial⟩ fun s => ?_
  cases s.reader with
  | none => trivial
  | some link =>
    refine .bind_run (h.receiveExactly link 4 _) fun length => ?_
    dsimp only
    split
    · trivial
    · refine .bind_run (h.receiveExactly link 1 _) fun tag => ?_
      exact .bind_run (h.receiveExactly link _ _) fun payload => trivial

theorem readFrame (deadline : Option Instant) :
    (readFrame deadline).Within asks fun _ _ => True := by
  refine .ask h.startReading fun before => .ask (h.awaitTurn _ _) fun turn => ?_
  have hend (result : Except ReadFault Frame) :
      Program.Within asks (fun _ _ => True)
        (do modify (Session.endReading before.readingCount); return result) :=
    ⟨h.endReading _, fun _ _ => trivial⟩
  exact .ite (.bind (h.receiveFrame _ _) hend) (hend _)

theorem readMessage (deadline : Option Instant) :
    (readMessage deadline).Within asks fun _ _ => True := by
  refine .ask h.look fun s => .ite trivial (.bind (h.readFrame deadline) fun result => ?_)
  rcases result with fault | frame
  · cases fault with
    | broken => exact .bind h.toCarries.shut fun _ => trivial
    | _ => trivial
  · trivial

end Listens

/-- A change of what is known of the peer that has nothing to do with time or with the count of
handshakes. -/
structure Discreet (f : PeerState → PeerState) : Prop where
  probe : ∀ p, (f p).probe = p.probe
  latency : ∀ p, (f p).latency = p.latency
  generation : ∀ p, (f p).generation = p.generation

/-- Operations that neither wait, tell the time nor number handshakes, and of which nothing but the
session takes notice. -/
def Op.IsOrdinary : Op → Prop
  | .update f => Tidy f
  | .updatePeer f => Discreet f
  | .send _ frame => ∃ m : Message, m.kind ≠ .time ∧ m.kind ≠ .handshake ∧ frame = m.frame
  | .push _ _ | .stop | .announce _ | .spawn (.heartbeat _) | .abort _ => False
  | .receive _ _ _ | .awaitTurn _ _ | .pause _ _ | .dial _ _ | .lockDial | .unlockDial => False
  | _ => True

def Op.IsClose : Op → Prop
  | .update f => f = Session.close
  | _ => False

structure Discipline (settings : Settings) where
  Holds : {α : Type} → Action α → Prop
  pure : ∀ {α : Type} (a : α), Holds (Pure.pure a)
  bind : ∀ {α β : Type} {p : Action α} {f : α → Action β},
    Holds p → (∀ a, Holds (f a)) → Holds (p >>= f)
  request : ∀ {op : Op}, op.IsOrdinary → Holds (Program.request (I := interface) op)
  sendHandshake : Holds (Session.sendHandshake settings)

structure Discipline.Offering {settings : Settings} (d : Discipline settings) : Prop where
  push : ∀ raw wantStatistics, d.Holds (push raw wantStatistics)
  stop : d.Holds stop

/-- A discipline of those who close the session after they announced that the peer is to be left. -/
structure Discipline.Leaving {settings : Settings} (d : Discipline settings) : Prop where
  announce : ∀ (m : GoAway) {p : Action Bool}, p.Reaches Op.IsClose → d.Holds p →
    d.Holds (announce m >>= fun _ => p)

structure Discipline.Timing {settings : Settings} (d : Discipline settings) : Prop where
  send : ∀ m, d.Holds (Session.send (.time m))
  modifyPeer : ∀ f : PeerState → PeerState, (∀ p, (f p).generation = p.generation) →
    d.Holds (modifyPeer f)

structure Discipline.Waiting {settings : Settings} (d : Discipline settings) : Prop where
  readMessage : ∀ deadline, d.Holds (Session.readMessage deadline)
  pause : ∀ until' transport, d.Holds (pause until' transport)

theorem discreet_id : Discreet id := ⟨fun _ => rfl, fun _ => rfl, fun _ => rfl⟩

theorem discreet_setRange (range : Option BlockRange) : Discreet (PeerState.setRange range) :=
  ⟨fun _ => rfl, fun _ => rfl, fun _ => rfl⟩

theorem discreet_setHandshake (m : Handshake) : Discreet (PeerState.setHandshake m) :=
  ⟨fun _ => rfl, fun _ => rfl, fun _ => rfl⟩

theorem reaches_shut : Program.Reaches Op.IsClose shut := .inl rfl

theorem carries_ordinary : Carries Op.IsOrdinary where
  look := tidy_id
  close := tidy_close
  hangUp _ := trivial
  ignore _ := trivial

namespace Discipline

variable {settings : Settings} (d : Discipline settings) {α β : Type}

theorem ask {o : Op} {f : interface.Answer o → Action β} (h : o.IsOrdinary)
    (hf : ∀ r, d.Holds (f r)) : d.Holds (Program.request (I := interface) o >>= f) :=
  d.bind (d.request h) hf

theorem ite {c : Prop} [Decidable c] {p q : Action α} (hp : d.Holds p) (hq : d.Holds q) :
    d.Holds (if c then p else q) := by
  split
  · exact hp
  · exact hq

theorem of_within {p : Action α} (h : p.Within Op.IsOrdinary fun _ _ => True) : d.Holds p := by
  induction p with
  | done a => exact d.pure a
  | ask op next ih => exact d.ask h.1 fun r => ih r (h.2 r trivial)

theorem modify {f : Session → Session} (h : Tidy f) : d.Holds (modify f) :=
  d.ask h fun _ => d.pure ()

theorem modifyPeer {f : PeerState → PeerState} (h : Discreet f) : d.Holds (modifyPeer f) :=
  d.ask h fun _ => d.pure ()

theorem chain (q : Chain.Query) : d.Holds (chain q) := d.request trivial

theorem shut : d.Holds shut := d.of_within carries_ordinary.shut

theorem send {m : Message} (htime : m.kind ≠ .time) (hhandshake : m.kind ≠ .handshake) :
    d.Holds (send m) :=
  d.of_within (carries_ordinary.send fun _ => ⟨m, htime, hhandshake, rfl⟩)

theorem sendReset : d.Holds sendReset := d.send nofun nofun

theorem sendCatchUp : d.Holds sendCatchUp := d.bind (d.chain _) fun _ => d.send nofun nofun

theorem sendRange (first last : UInt32) : d.Holds (sendRange first last) := by
  unfold Session.sendRange
  split
  · exact d.pure true
  · exact d.bind (d.modifyPeer (discreet_setRange _)) fun _ => d.send nofun nofun

theorem sendRangeFrom (first : UInt32) (last? : Option UInt32) :
    d.Holds (sendRangeFrom settings first last?) := by
  cases last? with
  | some last => exact d.sendRange first last
  | none =>
    refine d.ask discreet_id fun peer => ?_
    cases peer.remoteHead with
    | none => exact d.pure true
    | some remoteHead => exact d.ite d.sendHandshake (d.sendRange _ _)

theorem sendSyncRequest (first? last? : Option UInt32) :
    d.Holds (sendSyncRequest settings first? last?) := by
  cases first? with
  | some first => exact d.sendRangeFrom first last?
  | none => exact d.bind (d.chain _) fun _ => d.sendRangeFrom _ last?

theorem resync : d.Holds (resync settings) :=
  d.bind (d.chain _) fun _ => d.bind (d.chain _) fun _ => d.sendSyncRequest _ _

theorem greet : d.Holds (greet settings) :=
  d.bind (d.modifyPeer (discreet_setRange _)) fun _ =>
    d.bind d.sendReset fun _ => d.sendHandshake

theorem restart : d.Holds restart :=
  d.bind d.sendReset fun _ => d.ite (d.pure false) d.sendCatchUp

theorem afterRange (peer : PeerState) (num : UInt32) :
    d.Holds (afterRange settings peer num) := by
  refine d.ite (d.pure true) (d.ite (d.sendSyncRequest none none) ?_)
  refine d.bind d.sendHandshake fun _ => d.ite (d.pure false) ?_
  exact d.bind (d.modifyPeer (discreet_setRange _)) fun _ => d.sendCatchUp

theorem afterBlock (num : UInt32) (size : Nat) : d.Holds (afterBlock settings num size) := by
  refine d.ask discreet_id fun peer => d.ask trivial fun now => d.ask trivial fun _ => ?_
  refine d.ite ?_ (d.afterRange peer num)
  exact d.bind d.sendHandshake fun _ => d.ite (d.pure false) (d.afterRange peer num)

theorem offerBlock (ho : d.Offering) (header : Header) (raw : Bytes) :
    d.Holds (offerBlock settings header raw) := by
  refine d.ask trivial fun now => d.bind (ho.push raw _) fun result => ?_
  rcases result with fault | text
  · cases fault with
    | unlinkable => exact d.restart
    | _ => exact d.ite (d.pure true) (d.bind ho.stop fun _ => d.pure false)
  · exact d.ask (o := .rest) trivial fun _ => d.afterBlock _ _

theorem handleBlock (ho : d.Offering) (raw : Bytes) : d.Holds (handleBlock settings raw) := by
  unfold Session.handleBlock
  split
  · exact d.pure false
  next header _ =>
  have hoffer := d.offerBlock ho header raw
  refine d.bind (d.chain _) fun headNum => d.ite ?_ (d.ite d.restart hoffer)
  exact d.bind (d.chain _) fun known => d.ite (d.pure true) hoffer

theorem handleSyncRequest (range : BlockRange) : d.Holds (handleSyncRequest range) := by
  refine d.ite (d.modify tidy_stopResponder) (d.ask tidy_startResponder fun before => ?_)
  exact d.ask (o := .spawn _) trivial fun _ => d.pure ()

theorem handleHandshake (m : Handshake) : d.Holds (handleHandshake settings m) := by
  refine d.bind (d.modifyPeer (discreet_setHandshake m)) fun _ => ?_
  iterate 3 refine d.bind (d.chain _) fun _ => ?_
  refine d.ite (d.sendSyncRequest none none) (d.ite (d.pure true) ?_)
  refine d.ite d.sendCatchUp (d.ite (d.send nofun nofun) (d.ite ?_ (d.pure true)))
  exact d.bind (d.chain _) fun _ => d.send nofun nofun

theorem handleNotice (hl : d.Leaving) (m : Notice) : d.Holds (handleNotice settings m) := by
  unfold Session.handleNotice
  split
  · exact d.pure true
  · exact d.pure true
  · refine d.ite (hl.announce farewell ?_ ?_) d.sendCatchUp
    · exact .bind_of_rest fun _ => reaches_shut.bind _
    · exact d.bind (d.send nofun nofun) fun _ => d.bind d.shut fun _ => d.pure false
  · refine d.bind (d.chain _) fun headNum => d.ite (d.pure true) ?_
    exact d.bind d.sendReset fun _ => d.ite (d.pure false) (d.sendSyncRequest _ _)

theorem dispatch_of_ne (hl : d.Leaving) {m : Message} (h : m.kind ≠ .time)
    (hb : ∀ raw, m ≠ .signedBlock raw) : d.Holds (Session.dispatch settings m) := by
  cases m with
  | time m => exact absurd rfl h
  | signedBlock raw => exact absurd rfl (hb raw)
  | handshake m => exact d.handleHandshake m
  | goAway m =>
    exact hl.announce m (reaches_shut.bind _) (d.bind d.shut fun _ => d.pure false)
  | notice m => exact d.handleNotice hl m
  | syncRequest range => exact d.bind (d.handleSyncRequest range) fun _ => d.pure true
  | chainSize | request | transaction => exact d.pure true

theorem dispatch (ho : d.Offering) (hl : d.Leaving) {m : Message} (h : m.kind ≠ .time) :
    d.Holds (Session.dispatch settings m) := by
  cases m with
  | signedBlock raw => exact d.handleBlock ho raw
  | _ => exact d.dispatch_of_ne hl h nofun

theorem handleFrame {frame : Frame}
    (h : ∀ m, Message.ofPayload frame.tag frame.payload = .ok m →
      d.Holds (Session.dispatch settings m)) :
    d.Holds (handleFrame settings frame) := by
  refine d.ask (o := .isStopping) trivial fun stopping => d.ite (d.pure false) ?_
  cases hread : Message.ofPayload frame.tag frame.payload with
  | ok m => exact h m hread
  | error fault =>
    cases fault with
    | unknownTag => exact d.pure true
    | _ => exact d.bind d.shut fun _ => d.pure false

theorem respondOnce (next last : UInt32) (transport responder : Nat) :
    d.Holds (respondOnce next last transport responder) := by
  refine d.ask tidy_id fun s => d.ite (d.pure none) ?_
  refine d.ask (o := .isStopping) trivial fun stopping => d.ite (d.pure none) ?_
  refine d.bind (d.chain _) fun raw? => ?_
  cases raw? with
  | none => exact d.pure none
  | some raw =>
    exact d.bind (d.send nofun nofun) fun _ =>
      d.ite (d.pure none) (d.ite (d.pure none) (d.pure _))

variable {d} (ht : d.Timing)
include ht

theorem Timing.handleTime (m : TimeStamps) : d.Holds (handleTime m) := by
  refine d.ask trivial fun now => d.ite (d.pure false) (d.ite (ht.send _) ?_)
  refine d.bind (ht.modifyPeer _ fun p => ?_) fun _ => d.pure true
  split <;> rfl

theorem Timing.dispatch (ho : d.Offering) (hl : d.Leaving) (m : Message) :
    d.Holds (Session.dispatch settings m) := by
  cases m with
  | time m => exact d.bind (ht.handleTime m) fun _ => d.pure true
  | _ => exact d.dispatch ho hl nofun

variable (hw : d.Waiting)
include hw

theorem Timing.estimateLatency : d.Holds estimateLatency := by
  refine d.ask trivial fun now => d.bind (ht.send _) fun _ => ?_
  refine d.ite (d.pure false) (d.ask trivial fun start => ?_)
  refine d.bind (hw.readMessage _) fun frame? => ?_
  split
  · exact d.pure false
  · split
    · refine d.ite (d.pure false) (d.ask trivial fun _ => ?_)
      exact d.bind (ht.modifyPeer _ fun _ => rfl) fun _ => d.pure true
    · exact d.pure false

theorem Timing.beat (transport : Nat) : d.Holds (beat settings transport) := by
  refine d.ask trivial fun start => d.bind (hw.pause _ _) fun due => d.ite (d.pure none) ?_
  refine d.ask tidy_id fun s => d.ite (d.pure none) (d.ask trivial fun now => ?_)
  refine d.bind (ht.modifyPeer _ fun _ => rfl) fun _ => d.bind (ht.send _) fun _ => ?_
  refine d.ite (d.pure none) (d.bind d.sendHandshake fun _ => ?_)
  exact d.ite (d.pure none) (d.pure _)

theorem Timing.runOnce (a : Activity) : d.Holds (runOnce settings a) := by
  cases a with
  | heartbeat transport => exact ht.beat hw transport
  | respond next last transport responder => exact d.respondOnce next last transport responder

theorem Timing.receiveOnce (ho : d.Offering) (hl : d.Leaving) :
    d.Holds (receiveOnce settings) := by
  refine d.ask trivial fun stopping => d.ite (d.pure false) ?_
  refine d.bind (hw.readMessage none) fun frame? => ?_
  cases frame? with
  | none => exact d.pure false
  | some frame => exact d.handleFrame fun m _ => ht.dispatch ho hl m

end Discipline

end BlockSync.Session

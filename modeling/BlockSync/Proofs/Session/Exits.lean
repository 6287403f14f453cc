import BlockSync.Proofs.Session.Handling

/-! Why a round of the receive loop is the last one. The loop ends with a session that is closed,
with a shutdown, or with a block of which the header does not decode; it goes on only with a whole
frame behind it. Every stream, every chain and every failed write is among the answers. -/

namespace BlockSync.Session

open BlockSync.Session.Action

/-- Whether a deed wrote nothing, and left what is known of the peer and the flags as they were. -/
structure Deed.Inert (d : Deed) : Prop where
  silent : ∀ link frame, d.op ≠ .send link frame
  peer : ∀ s : Session, (s.after d.op).peer = s.peer
  connected : ∀ s : Session, (s.after d.op).connected = s.connected
  closed : ∀ s : Session, (s.after d.op).closed = s.closed

/-- Where a round stands that reads: with octets of the transport that it began with, no trace of
them yet, and a session that nobody closed but an activity in trouble. -/
structure Attentive (transport : Nat) (taken : Bytes) (s : Scene) (ds : List Deed) : Prop where
  equipped : Equipped s.session
  transport : s.session.transport = transport
  taken : octets ds = taken
  inert : ∀ d ∈ ds, d.Inert
  closed : s.session.closed = true → s.Troubled

def Obtained {α : Type} (holds : α → Bytes → Prop) (transport : Nat) (taken : Bytes)
    (result : Except ReadFault α) (s : Scene) (ds : List Deed) : Prop :=
  match result with
  | .ok a => ∃ more, holds a more ∧ Attentive transport (taken ++ more) s ds
  | .error .broken => Equipped s.session
  | .error _ => Equipped s.session ∧ s.Over

section

variable {transport : Nat} {taken : Bytes} {s u : Scene} {ds : List Deed}

theorem Attentive.concat {o : Op} {r : interface.Answer o}
    (h : Attentive transport taken s ds) (hu : s.Drifts u) (ho : o.IsTidy)
    (hinert : (⟨o, r⟩ : Deed).Inert) :
    Attentive transport (taken ++ (⟨o, r⟩ : Deed).octets) (u.after o) (ds ++ [⟨o, r⟩]) := by
  constructor
  · rw [u.session_after]
    exact ho.equipped hu.equipped
  · rw [u.session_after, ho.transport, hu.transport, h.transport]
  · rw [octets_concat, h.taken]
  · intro d hd
    rcases List.mem_append.mp hd with hd | hd
    · exact h.inert d hd
    · rw [List.mem_singleton.mp hd]
      exact hinert
  · rw [u.session_after, hinert.closed, Scene.Troubled, u.asides_after]
    intro hclosed
    rcases hu.blamed hclosed with hs | htrouble
    · exact hu.troubled (h.closed hs)
    · exact htrouble

theorem Attentive.pass {o : Op} {r : interface.Answer o} (h : Attentive transport taken s ds)
    (hu : s.Drifts u) (ho : o.IsMild) (hinert : (⟨o, r⟩ : Deed).Inert) :
    Attentive transport taken (u.after o) (ds ++ [⟨o, r⟩]) := by
  have hnext := h.concat hu ho.isTidy hinert
  rwa [ho.octets, List.append_nil] at hnext

theorem inert_update {f : Session → Session} {before : Session} (hpeer : ∀ s, (f s).peer = s.peer)
    (hconnected : ∀ s, (f s).connected = s.connected) (hclosed : ∀ s, (f s).closed = s.closed) :
    (⟨.update f, before⟩ : Deed).Inert := ⟨nofun, hpeer, hconnected, hclosed⟩

theorem inert_state (before : Session) : (⟨.update id, before⟩ : Deed).Inert :=
  inert_update (fun _ => rfl) (fun _ => rfl) fun _ => rfl

theorem watched_receiveExactly (h : Attentive transport taken s ds) (link : LinkId) (count : Nat) :
    Watched (Obtained (fun b more => b.length = count ∧ more = b) transport taken)
      (receiveExactly link count { transport := some transport }).run s ds := by
  refine Watched.ask (o := .receive link count _) trivial fun u received hu hr => ?_
  cases received with
  | bytes b =>
    have hinert : (⟨.receive link count { transport := some transport }, .bytes b⟩ : Deed).Inert :=
      ⟨nofun, fun _ => rfl, fun _ => rfl, fun _ => rfl⟩
    have hnext := h.concat hu (o := .receive link count _) trivial hinert
    exact Watched.pure ⟨b, ⟨hr, rfl⟩, hnext⟩
  | ended => exact Watched.pure hu.equipped
  | cut =>
    refine Watched.pure ⟨hu.equipped, ?_⟩
    rcases hr with hstopping | ⟨_, ⟨⟩, hcurrent⟩
    · exact .inr hstopping
    · -- The transport is the one that the reading began with, so it was given up.
      rw [Session.isCurrent, hu.transport, h.transport, beq_self_eq_true, Bool.true_and,
        Bool.not_eq_false'] at hcurrent
      exact .inl (hu.equipped.closed_of (.inl hcurrent))
  | late => cases hr

theorem watched_receiveFrame (h : Attentive transport taken s ds) :
    Watched (Obtained (fun frame more => Frame.Splits more [frame] []) transport taken)
      (receiveFrame transport none).run s ds := by
  refine Watched.bind_run (q := liftM state)
    (.ask (o := .update id) tidy_id fun u before hu hbefore => .pure ?_)
  change before = u.session at hbefore
  subst hbefore
  have hseen := h.pass (r := u.session) hu (o := .update id) ⟨tidy_id, fun _ => rfl⟩
    (inert_state u.session)
  change Watched _ (ExceptT.run _) _ _
  cases hreader : u.session.reader with
  | none =>
    exact Watched.pure ⟨hu.equipped, .inl (hu.equipped.closed_of (.inr hreader))⟩
  | some link =>
    refine .bind_run ((watched_receiveExactly hseen link 4).mono ?_)
    rintro (fault | length) t ds₁ hlength
    · cases fault <;> exact hlength
    obtain ⟨_, ⟨hfour, rfl⟩, ht⟩ := hlength
    dsimp only
    split
    · exact Watched.pure ht.equipped
    next hadmits =>
    rw [Bool.not_eq_true, Bool.not_eq_false'] at hadmits
    refine .bind_run ((watched_receiveExactly ht link 1).mono ?_)
    rintro (fault | tag) v ds₂ htag
    · cases fault <;> exact htag
    obtain ⟨_, ⟨hone, rfl⟩, hv⟩ := htag
    refine .bind_run ((watched_receiveExactly hv link _).mono ?_)
    rintro (fault | payload) w ds₃ hpayload
    · cases fault <;> exact hpayload
    obtain ⟨_, ⟨hrest, rfl⟩, hw⟩ := hpayload
    refine Watched.pure ⟨_, Frame.splits_of_parts hfour hadmits hone hrest, ?_⟩
    rwa [List.append_assoc, List.append_assoc] at hw

theorem watched_readFrame (h : Attentive transport taken s ds) :
    Watched (Obtained (fun frame more => Frame.Splits more [frame] []) transport taken)
      (readFrame none) s ds := by
  refine .ask (o := .startReading) trivial fun u before hu hbefore => ?_
  change before = u.session at hbefore
  subst hbefore
  have hstarted := h.pass (r := u.session) hu (o := .startReading) trivial
    ⟨nofun, fun _ => rfl, fun _ => rfl, fun _ => rfl⟩
  refine .ask (o := .awaitTurn u.session.readingCount none) trivial fun v turn hv hturn => ?_
  have hmine : turn = true := hturn.resolve_right nofun
  subst hmine
  have hwaited := hstarted.pass (r := true) hv (o := .awaitTurn u.session.readingCount none) trivial
    ⟨nofun, fun _ => rfl, fun _ => rfl, fun _ => rfl⟩
  rw [if_pos rfl, hu.transport, h.transport]
  refine .bind ((watched_receiveFrame hwaited).mono fun result t ds₁ ht => .bind ?_)
  refine .ask (o := .update (endReading u.session.readingCount)) (tidy_endReading _)
    fun w _ hw _ => .pure (.pure ?_)
  have hended : Equipped (w.after (.update (endReading u.session.readingCount))).session :=
    (tidy_endReading _).equipped hw.equipped
  rcases result with fault | frame
  · cases fault with
    | broken => exact hended
    | gone | late => exact ⟨hended, hw.over ht.2⟩
  · obtain ⟨more, hsplits, hattentive⟩ := ht
    refine ⟨more, hsplits, hattentive.pass hw ⟨tidy_endReading _, fun _ => rfl⟩ ?_⟩
    exact inert_update (fun _ => rfl) (fun _ => rfl) fun _ => rfl

theorem watched_readMessage (s : Scene) :
    Watched (fun frame? t ds' =>
      match frame? with
      | some frame => ∃ transport taken, Frame.Splits taken [frame] [] ∧
          Attentive transport taken t ds'
      | none => t.Over) (readMessage none) s [] := by
  refine .ask (o := .update id) tidy_id fun u before hu hbefore => ?_
  change before = u.session at hbefore
  subst hbefore
  refine .ite (fun hclosed => .pure (.inl hclosed)) fun hopen => ?_
  rw [Bool.not_eq_true] at hopen
  have hseen : Attentive u.session.transport [] (u.after (.update id))
      ([] ++ [⟨.update id, u.session⟩]) := by
    refine ⟨hu.equipped, rfl, rfl, fun d hd => ?_, fun hclosed => ?_⟩
    · rw [List.mem_singleton.mp hd]
      exact inert_state u.session
    · change u.session.closed = true at hclosed
      rw [hopen] at hclosed
      cases hclosed
  refine .bind ((watched_readFrame hseen).mono fun result t ds₁ ht => ?_)
  rcases result with fault | frame
  · cases fault with
    | broken =>
      refine .bind ((watched_shut lasting_over fun v hv => ?_).mono fun _ w _ hw => .pure hw.2)
      exact ⟨tidy_close.equipped hv.equipped, .inl (closed_close v.session)⟩
    | gone | late => exact .pure ht.2
  · obtain ⟨more, hsplits, hattentive⟩ := ht
    exact .pure ⟨_, more, hsplits, hattentive⟩

end

/-- What goes with going on: a whole frame was read, no shutdown was requested when the round turned
to it, and none since but from elsewhere; and the session is open, unless an activity or an answer
to a probe could not be written. -/
structure Onward (s : Scene) (ds : List Deed) : Prop where
  consumed : ∃ frame reading handling, ds = reading ++ ⟨.isStopping, false⟩ :: handling ∧
    Frame.Splits (octets reading) [frame] [] ∧ octets handling = []
  stopping : s.stopping = true → s.interrupted = true
  closed : s.session.closed = true →
    s.Troubled ∨ ∃ stamps link, .lost link (Message.time stamps).frame ∈ ds

/-- A round that read a block of which the header does not decode, and did nothing else. -/
inductive Undecoded (ds : List Deed) : Prop
  | intro {frame raw fault} : Frame.Splits (octets ds) [frame] [] →
      Message.ofPayload frame.tag frame.payload = .ok (.signedBlock raw) →
      Header.ofBlock raw = .error fault → (∀ d ∈ ds, d.Inert) → Undecoded ds

def Reports (go : Bool) (s : Scene) (ds : List Deed) : Prop :=
  if go then Onward s ds else s.session.closed = true ∨ s.stopping = true ∨ Undecoded ds

section

variable {settings : Settings} {s t : Scene} {ds : List Deed} {frame : Frame}

theorem Unhurt.onward {reading : List Deed} (hsplits : Frame.Splits (octets reading) [frame] [])
    (h : Unhurt IsTime (reading ++ [⟨.isStopping, false⟩]) s ds) : Onward s ds := by
  obtain ⟨handling, rfl, hnothing⟩ := h.handling
  refine ⟨⟨frame, reading, handling, ?_, hsplits, hnothing⟩, h.stopping, fun hclosed => ?_⟩
  · rw [List.append_assoc]
    rfl
  · refine (h.closed hclosed).imp_right ?_
    rintro ⟨_, link, ⟨stamps, rfl⟩, hlost⟩
    exact ⟨stamps, link, hlost⟩

theorem Scene.Over.reports (h : s.Over) : Reports false s ds := h.imp_right .inl

/-- A report stands, whatever happens beside the round. -/
theorem Reports.drifts {go : Bool} (h : Reports go s ds) (ht : s.Drifts t) : Reports go t ds := by
  cases go with
  | false =>
    rcases h with hclosed | hstopping | hundecoded
    · exact .inl (ht.closed hclosed)
    · exact .inr (.inl (ht.stopping hstopping))
    · exact .inr (.inr hundecoded)
  | true =>
    obtain ⟨hconsumed, hstopping, hclosed⟩ := h
    exact ⟨hconsumed, ht.interrupted_of_stopping hstopping, ht.blame hclosed⟩

theorem Frank.reports {p : Action Bool} (hp : Frank p) {reading : List Deed}
    (hsplits : Frame.Splits (octets reading) [frame] [])
    (h : Unhurt IsTime (reading ++ [⟨.isStopping, false⟩]) s ds) : Watched Reports p s ds := by
  refine (hp _ s ds h).mono fun go t ds' ht => ?_
  cases go with
  | true => exact Unhurt.onward hsplits ht
  | false => exact ht.reports

theorem watched_handleFrame {transport : Nat} {taken : Bytes} (settings : Settings)
    (h : Attentive transport taken s ds) (hsplits : Frame.Splits taken [frame] []) :
    Watched Reports (handleFrame settings frame) s ds := by
  refine .ask (o := .isStopping) trivial fun u stopping hu hstopping => ?_
  change stopping = u.stopping at hstopping
  cases stopping with
  | true => exact .pure (.inr (.inl hstopping.symm))
  | false =>
    rw [if_neg Bool.false_ne_true]
    have hread : Frame.Splits (octets ds) [frame] [] := h.taken ▸ hsplits
    have hpassed := h.pass (r := false) hu (o := .isStopping) trivial
      ⟨nofun, fun _ => rfl, fun _ => rfl, fun _ => rfl⟩
    -- From here on the round is at the frame: nothing more is read, and no shutdown is on.
    have hunhurt : Unhurt IsTime (ds ++ [⟨.isStopping, false⟩]) (u.after .isStopping)
        (ds ++ [⟨.isStopping, false⟩]) := by
      refine ⟨hpassed.equipped, ⟨[], (List.append_nil _).symm, rfl⟩,
        fun hclosed => .inl (hpassed.closed hclosed), fun hs => ?_⟩
      change u.stopping = true at hs
      rw [← hstopping] at hs
      cases hs
    split
    · next m hm =>
      by_cases hblock : ∀ raw, m = .signedBlock raw → ∃ header, Header.ofBlock raw = .ok header
      · exact (frank_dispatch settings hblock).reports hread hunhurt
      · push Not at hblock
        obtain ⟨raw, rfl, hraw⟩ := hblock
        cases hd : Header.ofBlock raw with
        | ok header => exact absurd hd (hraw header)
        | error fault =>
          change Watched Reports (handleBlock settings raw) _ _
          rw [handleBlock, hd]
          refine .pure (.inr (.inr (.intro ?_ hm hd hpassed.inert)))
          rw [hpassed.taken]
          exact hsplits
    · exact Frank.goOn.reports hread hunhurt
    · exact frank_leave.reports hread hunhurt

theorem watched_handleMessage (settings : Settings) (s : Scene) :
    Watched Reports (handleMessage settings) s [] := by
  refine .bind ((watched_readMessage s).mono fun frame? t ds' ht => ?_)
  cases frame? with
  | none => exact .pure ht.reports
  | some frame =>
    obtain ⟨transport, taken, hsplits, hattentive⟩ := ht
    exact watched_handleFrame settings hattentive hsplits

theorem Scene.Orderly.fresh (h : s.Orderly) : s.fresh.Orderly :=
  ⟨h.equipped, h.calls, fun a ha => h.asides a (List.mem_filter.mp ha).1⟩

/-- Along a round, what is left of it comes to its report. -/
theorem Round.watched {start : Scene} {p : Action Bool} (hstart : start.Orderly)
    (h : Round settings start p ds s) : s.Orderly ∧ Watched Reports p s ds := by
  induction h with
  | begin => exact ⟨hstart.fresh, watched_handleMessage settings _⟩
  | @ask op next ds s r _ hr ih =>
    obtain ⟨hs, htidy, hnext⟩ := ih
    have hequipped : Equipped (s.session.after op) := Op.IsTidy.equipped htidy hs.equipped
    exact ⟨hs.after hequipped, hnext r _ ⟨s, .refl hs.equipped, hr, rfl⟩⟩
  | beside _ hb ih =>
    obtain ⟨hs, hwatched⟩ := ih
    obtain ⟨hdrifts, ht⟩ := hb.orderly hs
    exact ⟨ht, hwatched.drifts hdrifts fun go hgo => hgo.drifts hdrifts⟩

end

def proceed (answers : Scene → (op : Op) → interface.Answer op) :
    Action Bool → List Deed → Scene → Bool × List Deed × Scene
  | .done go, ds, s => (go, ds, s)
  | .ask op next, ds, s =>
    proceed answers (next (answers s op)) (ds ++ [⟨op, answers s op⟩]) (s.after op)

theorem Round.proceed {settings : Settings} {start s : Scene} {p : Action Bool} {ds : List Deed}
    {answers : Scene → (op : Op) → interface.Answer op}
    (hanswers : ∀ (s : Scene) op, s.Allows op (answers s op)) (h : Round settings start p ds s) :
    Round settings start (.done (proceed answers p ds s).1) (proceed answers p ds s).2.1
      (proceed answers p ds s).2.2 := by
  induction p generalizing ds s with
  | done go => exact h
  | ask op next ih => exact ih _ (h.ask (hanswers s op))

def frameWorld (frame : Frame) (s : Scene) : (op : Op) → interface.Answer op
  | .isStopping => s.stopping
  | .receive _ count _ => partOf frame count
  | op => promptWorld s.session op

theorem allows_frameWorld (frame : Frame) (s : Scene) (op : Op) :
    s.Allows op (frameWorld frame s op) := by
  cases op with
  | receive link count wait =>
    change s.Allows (.receive link count wait) (partOf frame count)
    rcases partOf_eq frame count with ⟨b, hlength, heq⟩ | heq <;> rw [heq]
    · exact hlength
    · trivial
  | awaitTurn => exact .inl rfl
  | isStopping | update | startReading | updatePeer => rfl
  | _ => trivial

end BlockSync.Session

import BlockSync.Proofs.Session.Scene

/-! What the answer of a handler tells the receive loop. Activities go on beside the round, a
shutdown may be requested between any two of its operations, and operations may answer anything. A
handler says that the loop is to end only where the session is closed or a shutdown was requested;
and where it says to go on, the session is open unless there is somebody else to blame. -/

namespace BlockSync.Session

open BlockSync.Session.Action

/-- The octets that were read, all in all. -/
def octets (ds : List Deed) : Bytes := ds.flatMap Deed.octets

theorem octets_append (ds ds' : List Deed) : octets (ds ++ ds') = octets ds ++ octets ds' :=
  List.flatMap_append

theorem octets_concat (ds : List Deed) (d : Deed) : octets (ds ++ [d]) = octets ds ++ d.octets := by
  rw [octets_append, octets, octets, List.flatMap_singleton]

namespace Scene

/-- What an operation of the loop may find, and what it makes of the scene. -/
def Takes (x : Scene × List Deed) (op : Op) (r : interface.Answer op)
    (y : Scene × List Deed) : Prop :=
  ∃ u, x.1.Drifts u ∧ u.Allows op r ∧ y = (u.after op, x.2 ++ [⟨op, r⟩])

def Over (s : Scene) : Prop := s.session.closed = true ∨ s.stopping = true

theorem Drifts.over {s t : Scene} (h : s.Drifts t) (hs : s.Over) : t.Over :=
  hs.imp h.closed h.stopping

end Scene

/-- From a scene on, while activities go on beside it, a part of the loop changes the session in
tidy ways only, and ends as described. -/
def Watched {α : Type} (post : α → Scene → List Deed → Prop) (p : Action α) (s : Scene)
    (ds : List Deed) : Prop :=
  p.Ensures (fun _ op => Op.IsTidy op) Scene.Takes (fun a x => post a x.1 x.2) (s, ds)

section

variable {α β ε : Type} {post : α → Scene → List Deed → Prop} {post' : β → Scene → List Deed → Prop}
  {p q : Action α} {s t : Scene} {ds : List Deed}

theorem Watched.pure {a : α} (h : post a s ds) : Watched post (Pure.pure a) s ds := h

theorem Watched.bind {f : α → Action β}
    (h : Watched (fun a t ds' => Watched post' (f a) t ds') p s ds) : Watched post' (p >>= f) s ds :=
  Program.Ensures.bind h

theorem Watched.mono {post' : α → Scene → List Deed → Prop} (h : Watched post p s ds)
    (hpost : ∀ a t ds', post a t ds' → post' a t ds') : Watched post' p s ds :=
  Program.Ensures.mono h fun a x => hpost a x.1 x.2

theorem Watched.ask {o : Op} {f : interface.Answer o → Action β} (ho : o.IsTidy)
    (hf : ∀ u r, s.Drifts u → u.Allows o r →
      Watched post' (f r) (u.after o) (ds ++ [⟨o, r⟩])) :
    Watched post' (Program.request (I := interface) o >>= f) s ds := by
  refine ⟨ho, ?_⟩
  rintro r _ ⟨u, hu, hr, rfl⟩
  exact hf u r hu hr

theorem Watched.ite {c : Prop} [Decidable c] (hp : c → Watched post p s ds)
    (hq : ¬ c → Watched post q s ds) : Watched post (if c then p else q) s ds :=
  Program.Ensures.ite hp hq

theorem Watched.drifts (h : Watched post p s ds) (ht : s.Drifts t)
    (hpost : ∀ a, post a s ds → post a t ds) : Watched post p t ds := by
  cases p with
  | done a => exact hpost a h
  | ask op next =>
    refine ⟨h.1, ?_⟩
    rintro r _ ⟨u, hu, hr, rfl⟩
    exact h.2 r _ ⟨u, ht.trans hu, hr, rfl⟩

end

theorem Watched.bind_run {ε α β : Type} {q : ExceptT ε Action α} {g : α → ExceptT ε Action β}
    {post : Except ε β → Scene → List Deed → Prop} {s : Scene} {ds : List Deed}
    (h : Watched (fun result t ds' =>
      match result with
      | .ok a => Watched post (g a).run t ds'
      | .error e => post (.error e) t ds') q.run s ds) :
    Watched post (q >>= g).run s ds := by
  refine Program.Ensures.bind_run (Program.Ensures.mono h fun result x hx => ?_)
  cases result with
  | ok a => exact hx
  | error e => exact hx

def Op.IsMild : Op → Prop
  | .update f => Tidy f ∧ ∀ s, (f s).closed = s.closed
  | .receive _ _ _ | .stop => False
  | _ => True

theorem Op.IsMild.isTidy {op : Op} (h : op.IsMild) : op.IsTidy := by
  cases op with
  | update f => exact h.1
  | _ => trivial

theorem Op.IsMild.closed {op : Op} (h : op.IsMild) (s : Session) :
    (s.after op).closed = s.closed := by
  cases op with
  | update f => exact h.2 s
  | _ => rfl

theorem Op.IsMild.stopping {op : Op} (h : op.IsMild) (s : Scene) :
    (s.after op).stopping = s.stopping := by
  refine Scene.stopping_after_of_ne ?_ s
  rintro rfl
  exact h

theorem Op.IsMild.octets {op : Op} (h : op.IsMild) (r : interface.Answer op) :
    (⟨op, r⟩ : Deed).octets = [] := by
  cases op with
  | receive => exact h.elim
  | _ => rfl

def Mild {α : Type} (p : Action α) : Prop :=
  p.Ensures (fun (_ : Unit) op => Op.IsMild op) (fun _ _ _ _ => True) (fun _ _ => True) ()

def Lasting (I : Scene → List Deed → Prop) : Prop :=
  ∀ s ds u op (r : interface.Answer op), I s ds → s.Drifts u → op.IsMild →
    I (u.after op) (ds ++ [⟨op, r⟩])

section

variable {α β : Type} {p q : Action α} {I : Scene → List Deed → Prop} {s : Scene}
  {ds : List Deed}

theorem Mild.pure (a : α) : Mild (Pure.pure a) := trivial

theorem Mild.request {o : Op} (h : o.IsMild) : Mild (Program.request (I := interface) o) :=
  ⟨h, fun _ _ _ => trivial⟩

theorem Mild.andThen {f : α → Action β} (hp : Mild p) (hf : ∀ a, Mild (f a)) : Mild (p >>= f) :=
  Program.Ensures.bind (Program.Ensures.mono hp fun a _ _ => hf a)

theorem Mild.ite {c : Prop} [Decidable c] (hp : Mild p) (hq : Mild q) :
    Mild (if c then p else q) := Program.Ensures.ite (fun _ => hp) fun _ => hq

theorem Mild.watched (hp : Mild p) (hI : Lasting I) (h : I s ds) :
    Watched (fun _ t ds' => I t ds') p s ds := by
  refine Program.Ensures.matched (R := fun (_ : Unit) x => I x.1 x.2) hp h ?_ ?_ ?_
  · exact fun _ _ _ _ hop => hop.isTidy
  · rintro _ ⟨t, ds'⟩ op r _ ht hop ⟨u, hu, -, rfl⟩
    exact ⟨(), trivial, hI t ds' u op r ht hu hop⟩
  · exact fun _ _ _ hx _ => hx

theorem mild_modify {f : Session → Session} (hf : Tidy f) (hclosed : ∀ s, (f s).closed = s.closed) :
    Mild (modify f) := .andThen (.request (o := .update f) ⟨hf, hclosed⟩) fun _ => .pure _

theorem mild_modifyPeer (f : PeerState → PeerState) : Mild (modifyPeer f) :=
  .andThen (.request (o := .updatePeer f) trivial) fun _ => .pure _

theorem mild_peerState : Mild peerState := .request (o := .updatePeer id) trivial

theorem mild_chain (q : Chain.Query) : Mild (Action.chain q) := .request (o := .chain q) trivial

theorem mild_buildHandshake (settings : Settings) : Mild (buildHandshake settings) := by
  refine .andThen (.request (o := .updatePeer _) trivial) fun before => ?_
  iterate 7 refine .andThen (.request trivial) fun _ => ?_
  exact .pure _

theorem mild_handleSyncRequest (range : BlockRange) : Mild (handleSyncRequest range) := by
  refine .ite (mild_modify tidy_stopResponder fun _ => rfl) ?_
  refine .andThen (.request (o := .update _) ⟨tidy_startResponder, fun _ => rfl⟩) fun before => ?_
  exact .andThen (.request (o := .spawn _) trivial) fun _ => .pure _

theorem watched_shut (hI : Lasting I)
    (hclose : ∀ u, s.Drifts u → I (u.after (.update close)) (ds ++ [⟨.update close, u.session⟩])) :
    Watched (fun _ t ds' => I t ds') shut s ds := by
  refine .ask (o := .update close) tidy_close fun u before hu hbefore => ?_
  change before = u.session at hbefore
  subst hbefore
  refine Mild.watched (.ite (.andThen ?_ fun _ => .ite ?_ (.pure _)) (.pure _)) hI (hclose u hu)
  · cases u.session.writer with
    | none => exact .pure _
    | some link => exact .request (o := .hangUp link) trivial
  · cases u.session.reader with
    | none => exact .pure _
    | some link => exact .request (o := .ignore link) trivial

end

/-- Where a round stands that goes on: since its first deeds nothing was read, and if the session is
closed, an activity is in trouble or an excused message was lost. -/
structure Unhurt (excused : Message → Prop) (reading : List Deed) (s : Scene) (ds : List Deed) :
    Prop where
  equipped : Equipped s.session
  handling : ∃ handling, ds = reading ++ handling ∧ octets handling = []
  closed : s.session.closed = true →
    s.Troubled ∨ ∃ m link, excused m ∧ .lost link m.frame ∈ ds
  stopping : s.stopping = true → s.interrupted = true

section

variable {excused excused' : Message → Prop} {reading ds : List Deed} {s u : Scene}

/-- One more operation of the round, of which it is known what it means for the session. -/
theorem Unhurt.concat {op : Op} {r : interface.Answer op} (h : Unhurt excused reading s ds)
    (hu : s.Drifts u) (hop : op.IsTidy) (hne : op ≠ .stop) (hread : (⟨op, r⟩ : Deed).octets = [])
    (hclosed : (u.session.after op).closed = true → u.session.closed = true ∨
      ∃ m link, excused m ∧ .lost link m.frame ∈ ds) :
    Unhurt excused reading (u.after op) (ds ++ [⟨op, r⟩]) := by
  obtain ⟨handling, hds, hnothing⟩ := h.handling
  have hmore {m : Message} {link : LinkId} (hlost : .lost link m.frame ∈ ds) :
      .lost link m.frame ∈ ds ++ [⟨op, r⟩] := List.mem_append_left _ hlost
  have hasides : (u.after op).asides = u.asides := u.asides_after op
  constructor
  · rw [u.session_after]
    exact hop.equipped hu.equipped
  · refine ⟨handling ++ [⟨op, r⟩], by rw [hds, List.append_assoc], ?_⟩
    rw [octets_concat, hnothing, hread]
    rfl
  · rw [u.session_after, Scene.Troubled, hasides]
    intro hafter
    rcases hclosed hafter with hbefore | ⟨m, link, hm, hlost⟩
    · refine (hu.blame h.closed hbefore).imp_right ?_
      rintro ⟨m, link, hm, hlost⟩
      exact ⟨m, link, hm, hmore hlost⟩
    · exact .inr ⟨m, link, hm, hmore hlost⟩
  · rw [Scene.stopping_after_of_ne hne, u.interrupted_after]
    exact hu.interrupted_of_stopping h.stopping

theorem lasting_unhurt : Lasting (Unhurt excused reading) := by
  intro s ds u op r h hu hop
  refine h.concat hu hop.isTidy ?_ (hop.octets r) fun hclosed => ?_
  · rintro rfl
    exact hop
  · rw [hop.closed] at hclosed
    exact .inl hclosed

theorem Unhurt.mono (h : Unhurt excused reading s ds) (hexcused : ∀ m, excused m → excused' m) :
    Unhurt excused' reading s ds := by
  refine ⟨h.equipped, h.handling, fun hclosed => (h.closed hclosed).imp_right ?_, h.stopping⟩
  rintro ⟨m, link, hm, hlost⟩
  exact ⟨m, link, hexcused m hm, hlost⟩

theorem lasting_over : Lasting fun s _ => Equipped s.session ∧ s.Over := by
  rintro s ds u op r ⟨-, hover⟩ hu hop
  have hover' : u.Over := hu.over hover
  refine ⟨?_, ?_⟩
  · rw [u.session_after]
    exact hop.isTidy.equipped hu.equipped
  · unfold Scene.Over at hover' ⊢
    rwa [u.session_after, hop.closed, hop.stopping]

theorem watched_leave (s : Scene) (ds : List Deed) :
    Watched (fun go t _ => go = false ∧ t.Over) (do shut; return false) s ds := by
  refine .bind ((watched_shut lasting_over fun u hu => ?_).mono fun _ t _ ht => ?_)
  · refine ⟨tidy_close.equipped hu.equipped, .inl ?_⟩
    exact closed_close u.session
  · exact .pure ⟨rfl, ht.2⟩

theorem watched_send (m : Message) (h : Unhurt excused reading s ds) :
    Watched (fun sent t ds' => Unhurt (fun m' => excused m' ∨ m' = m) reading t ds' ∧
      (sent = true → Unhurt excused reading t ds') ∧
      (sent = false → t.session.closed = true)) (send m) s ds := by
  refine .ask (o := .update id) tidy_id fun u before hu hbefore => ?_
  change before = u.session at hbefore
  subst hbefore
  have hseen : Unhurt excused reading u (ds ++ [⟨.update id, u.session⟩]) :=
    lasting_unhurt s ds u (.update id) u.session h hu ⟨tidy_id, fun _ => rfl⟩
  refine .ite (fun hclosed => .pure ⟨hseen.mono fun _ => .inl, nofun, fun _ => hclosed⟩) ?_
  intro hopen
  rw [Bool.not_eq_true] at hopen
  obtain ⟨-, -, link, hwriter⟩ := hu.equipped hopen
  rw [hwriter]
  refine .ask (o := .send link m.frame) trivial fun v sent hv _ => ?_
  have hwrote := lasting_unhurt _ _ v (.send link m.frame) sent hseen hv trivial
  cases sent with
  | true => exact .pure ⟨hwrote.mono fun _ => .inl, fun _ => hwrote, nofun⟩
  | false =>
    -- The lost message is the excuse for closing the session.
    have hlost : Deed.lost link m.frame ∈
        ds ++ [⟨.update id, u.session⟩] ++ [Deed.lost link m.frame] :=
      List.mem_append_right _ (List.mem_singleton_self _)
    have hlasting : Lasting fun t ds' =>
        Unhurt (fun m' => excused m' ∨ m' = m) reading t ds' ∧ t.session.closed = true := by
      rintro t ds' w op r ⟨ht, hclosed⟩ hw hop
      refine ⟨lasting_unhurt t ds' w op r ht hw hop, ?_⟩
      rw [w.session_after, hop.closed]
      exact hw.closed hclosed
    refine .bind ((watched_shut hlasting fun w hw => ⟨?_, closed_close w.session⟩).mono ?_)
    · exact (hwrote.mono fun _ => .inl).concat hw tidy_close nofun rfl fun _ =>
        .inr ⟨m, link, .inr rfl, hlost⟩
    · rintro _ t ds' ⟨ht, hclosed⟩
      exact .pure ⟨ht, nofun, fun _ => hclosed⟩

end

def IsTime (m : Message) : Prop := ∃ stamps, m = .time stamps

/-- Whether the answer of a handler is what the loop takes it for: to go on with an open session, or
to end. -/
def Frank (p : Action Bool) : Prop :=
  ∀ reading s ds, Unhurt IsTime reading s ds →
    Watched (fun go t ds' => if go then Unhurt IsTime reading t ds' else t.Over) p s ds

section

variable {α : Type} {p q : Action Bool}

theorem Frank.goOn : Frank (Pure.pure true) := fun _ _ _ h => .pure h

theorem Frank.after {p : Action α} {f : α → Action Bool} (hp : Mild p) (hf : ∀ a, Frank (f a)) :
    Frank (p >>= f) := fun reading _ _ h =>
  .bind ((hp.watched lasting_unhurt h).mono fun a t ds' ht => hf a reading t ds' ht)

theorem Frank.ask {o : Op} {f : interface.Answer o → Action Bool} (ho : o.IsMild)
    (hf : ∀ r, Frank (f r)) : Frank (Program.request (I := interface) o >>= f) :=
  .after (.request ho) hf

theorem Frank.ite {c : Prop} [Decidable c] (hp : Frank p) (hq : Frank q) :
    Frank (if c then p else q) := fun reading s ds h =>
  .ite (fun _ => hp reading s ds h) fun _ => hq reading s ds h

theorem Frank.orEnd {f : Bool → Action Bool} (hp : Frank p) (hend : f false = Pure.pure false)
    (hf : Frank (f true)) : Frank (p >>= f) := by
  intro reading s ds h
  refine .bind ((hp reading s ds h).mono fun go t ds' ht => ?_)
  cases go with
  | true => exact hf reading t ds' ht
  | false =>
    rw [hend]
    exact .pure ht

theorem frank_send (m : Message) : Frank (send m) := by
  intro reading s ds h
  refine (watched_send m h).mono ?_
  rintro sent t ds' ⟨-, hsent, hlost⟩
  cases sent with
  | true => exact hsent rfl
  | false => exact .inl (hlost rfl)

theorem frank_leave : Frank (do shut; return false) := by
  intro reading s ds h
  refine (watched_leave s ds).mono ?_
  rintro go t ds' ⟨rfl, hover⟩
  exact hover

theorem frank_halt : Frank (do stop; return false) := by
  intro reading s ds h
  refine .ask (o := .stop) trivial fun u _ _ _ => .pure ?_
  exact .inr rfl

theorem frank_sendReset : Frank sendReset := frank_send _

theorem frank_sendCatchUp : Frank sendCatchUp := .after (mild_chain _) fun _ => frank_send _

theorem frank_sendHandshake (settings : Settings) : Frank (sendHandshake settings) :=
  .after (mild_buildHandshake settings) fun _ => frank_send _

theorem frank_sendRange (first last : UInt32) : Frank (sendRange first last) := by
  unfold sendRange
  split
  · exact .goOn
  · exact .after (mild_modifyPeer _) fun _ => frank_send _

theorem frank_sendRangeFrom (settings : Settings) (first : UInt32) (last? : Option UInt32) :
    Frank (sendRangeFrom settings first last?) := by
  cases last? with
  | some last => exact frank_sendRange first last
  | none =>
    refine .after mild_peerState fun peer => ?_
    cases peer.remoteHead with
    | none => exact .goOn
    | some remoteHead => exact .ite (frank_sendHandshake settings) (frank_sendRange _ _)

theorem frank_sendSyncRequest (settings : Settings) (first? last? : Option UInt32) :
    Frank (sendSyncRequest settings first? last?) := by
  cases first? with
  | some first => exact frank_sendRangeFrom settings first last?
  | none => exact .after (mild_chain _) fun _ => frank_sendRangeFrom settings _ last?

theorem frank_restart : Frank restart := frank_sendReset.orEnd rfl frank_sendCatchUp

theorem frank_afterRange (settings : Settings) (peer : PeerState) (num : UInt32) :
    Frank (afterRange settings peer num) := by
  refine .ite .goOn (.ite (frank_sendSyncRequest settings _ _) ?_)
  refine (frank_sendHandshake settings).orEnd rfl ?_
  exact .after (mild_modifyPeer _) fun _ => frank_sendCatchUp

theorem frank_afterBlock (settings : Settings) (num : UInt32) (size : Nat) :
    Frank (afterBlock settings num size) := by
  refine .after mild_peerState fun peer => .ask (o := .instant) trivial fun now => ?_
  refine .ask (o := .measure _) trivial fun _ => .ite ?_ (frank_afterRange settings peer num)
  exact (frank_sendHandshake settings).orEnd rfl (frank_afterRange settings peer num)

theorem frank_offerBlock (settings : Settings) (header : Header) (raw : Bytes) :
    Frank (offerBlock settings header raw) := by
  refine .ask (o := .clock) trivial fun now => .ask (o := .push raw _) trivial fun result => ?_
  rcases result with fault | text
  · cases fault with
    | unlinkable => exact frank_restart
    | _ => exact .ite .goOn frank_halt
  · exact .ask (o := .rest) trivial fun _ => frank_afterBlock settings _ _

theorem frank_handleBlock (settings : Settings) {raw : Bytes} {header : Header}
    (h : Header.ofBlock raw = .ok header) : Frank (handleBlock settings raw) := by
  have ho := frank_offerBlock settings header raw
  unfold handleBlock
  rw [h]
  refine .after (mild_chain _) fun headNum => .ite ?_ (.ite frank_restart ho)
  exact .after (mild_chain _) fun known => .ite .goOn ho

theorem frank_handleHandshake (settings : Settings) (m : Handshake) :
    Frank (handleHandshake settings m) := by
  refine .after (mild_modifyPeer _) fun _ => ?_
  iterate 3 refine .after (mild_chain _) fun _ => ?_
  refine .ite (frank_sendSyncRequest settings _ _) (.ite .goOn ?_)
  refine .ite frank_sendCatchUp (.ite (frank_send _) (.ite ?_ .goOn))
  exact .after (mild_chain _) fun _ => frank_send _

theorem frank_handleNotice (settings : Settings) (m : Notice) :
    Frank (handleNotice settings m) := by
  unfold handleNotice
  split
  · exact .goOn
  · exact .goOn
  · refine .ite (.ask (o := .announce farewell) trivial fun _ => ?_) frank_sendCatchUp
    -- Whatever becomes of the farewell, the session is closed.
    intro reading s ds h
    refine .bind ((watched_send _ h).mono fun _ t ds' _ => (watched_leave t ds').mono ?_)
    rintro go u _ ⟨rfl, hover⟩
    exact hover
  · refine .after (mild_chain _) fun headNum => .ite .goOn ?_
    have hask := frank_sendSyncRequest settings (some (satAdd headNum 1)) (some m.blocks.pending)
    exact frank_sendReset.orEnd rfl hask

theorem frank_handleTime (m : TimeStamps) : Frank (do let _ ← handleTime m; return true) := by
  intro reading s ds h
  have htold := (Mild.request (o := .clock) trivial).watched lasting_unhurt h
  refine .bind (Watched.mono (.bind (htold.mono fun now t ds' ht => ?_))
    fun _ t ds' (ht : Unhurt IsTime reading t ds') => .pure ht)
  refine .ite (fun _ => .pure ht) fun _ => .ite (fun _ => ?_) fun _ => ?_
  · refine (watched_send _ ht).mono fun _ u ds'' hu => hu.1.mono fun m' hm' => ?_
    rcases hm' with hm' | rfl
    · exact hm'
    · exact ⟨_, rfl⟩
  · exact .bind (((mild_modifyPeer _).watched lasting_unhurt ht).mono fun _ u ds'' hu => .pure hu)

theorem frank_dispatch (settings : Settings) {m : Message}
    (h : ∀ raw, m = .signedBlock raw → ∃ header, Header.ofBlock raw = .ok header) :
    Frank (dispatch settings m) := by
  cases m with
  | handshake m => exact frank_handleHandshake settings m
  | goAway m => exact .ask (o := .announce m) trivial fun _ => frank_leave
  | time m => exact frank_handleTime m
  | notice m => exact frank_handleNotice settings m
  | syncRequest range => exact .after (mild_handleSyncRequest range) fun _ => .goOn
  | signedBlock raw =>
    obtain ⟨header, hd⟩ := h raw rfl
    exact frank_handleBlock settings hd
  | chainSize | request | transaction => exact .goOn

end

end BlockSync.Session

import BlockSync.Chain.Memory
import BlockSync.Proofs.Session.Reading
import BlockSync.Proofs.Session.Routine

/-! From one connection to the next. Whatever is called on a session, one call after the other, and
whatever the operations of the calls answer, a peer counts as usable only while a transport is open.
Connecting ends in one of two ways, and a closed session neither writes nor reads. -/

namespace BlockSync.Session

open BlockSync.Session.Action

/-- The session after an operation of its own. -/
def after : Op → Session → Session
  | .update f, s => f s
  | .updatePeer f, s => s.mapPeer f
  | .measure f, s => { s with throughput := f s.throughput }
  | .startReading, s => s.startReading
  | _, s => s

/-- What an operation may answer. The session answers for itself; everything else answers anything,
but octets come in the number that was asked for. -/
def Allows (s : Session) : (op : Op) → interface.Answer op → Prop
  | .update _, before | .startReading, before => before = s
  | .updatePeer _, before => before = s.peer
  | .receive _ count _, .bytes b => b.length = count
  | _, _ => True

inductive Traffic where
  | told (now : Int64)
  | wrote (frame : Bytes) (sent : Bool)
  | took (received : Received)

def traffic : (op : Op) → interface.Answer op → List Traffic
  | .clock, now => [.told now]
  | .send _ frame, sent => [.wrote frame sent]
  | .receive _ _ _, received => [.took received]
  | _, _ => []

/-- A program that comes to its end while nobody else is at the session. -/
inductive Played {α : Type} : Action α → Session → List Traffic → α → Session → Prop
  | done (a s) : Played (.done a) s [] a s
  | ask {op next s r log a s'} : s.Allows op r → Played (next r) (s.after op) log a s' →
      Played (.ask op next) s (traffic op r ++ log) a s'

inductive Call where
  | connect (target : Address)
  | attach (link : LinkId)
  | reset
  | close
  | send (m : Message)
  | read (deadline : Option Instant)
  | probe
  | greet
  | resync
  | dispatch (m : Message)
  | receive
  | run (a : Activity)

def Call.program (settings : Settings) : Call → Action Unit
  | .connect target => do let _ ← Session.connect settings target
  | .attach link => install link
  | .reset => Session.reset
  | .close => shut
  | .send m => do let _ ← Session.send m
  | .read deadline => do let _ ← readMessage deadline
  | .probe => do let _ ← estimateLatency
  | .greet => do let _ ← Session.greet settings
  | .resync => do let _ ← Session.resync settings
  | .dispatch m => do let _ ← Session.dispatch settings m
  | .receive => do let _ ← receiveOnce settings
  | .run a => do let _ ← runOnce settings a

/-- A session from its beginning on, with what is left of the current call, if there is one. -/
inductive Life (settings : Settings) : Option (Action Unit) → Session → Prop
  | new : Life settings none {}
  | call {s} (c : Call) : Life settings none s → Life settings (some (c.program settings)) s
  | ask {op next s r} : Life settings (some (.ask op next)) s → s.Allows op r →
      Life settings (some (next r)) (s.after op)
  | finish {s} : Life settings (some (.done ())) s → Life settings none s

/-- A peer counts as usable only while a transport is open. -/
def Sound (s : Session) : Prop := s.connected = true → s.closed = false

/-- Traffic that ends with a probe and its answer, and the time from the one to the other. -/
inductive Answered : List Traffic → Duration → Prop
  | intro {before : List Traffic} {sent now : Int64} {length : Bytes} {frame : Frame}
      {reply : TimeStamps} : Frame.Splits (length ++ frame.tag :: frame.payload) [frame] [] →
      Message.ofPayload frame.tag frame.payload = .ok (.time reply) → reply.isValid = true →
      reply.origin = sent →
      Answered (before ++ [.told sent, .wrote (Message.time (.probe sent)).frame true,
        .took (.bytes length), .took (.bytes [frame.tag]), .took (.bytes frame.payload),
        .told now]) (elapsed now sent)

/-- A session that is connected by an answer to its probe. -/
structure Up (log : List Traffic) (s : Session) : Prop where
  connected : s.connected = true
  closed : s.closed = false
  latency : Answered log s.peer.latency

/-- A session without a connection, and without what belonged to one. -/
structure Down (s : Session) : Prop where
  connected : s.connected = false
  closed : s.closed = true
  latency : s.peer.latency = 0
  lastRange : s.peer.lastRange = none
  probe : s.peer.probe = none
  generation : s.peer.generation = 1
  throughput : s.throughput = {}

/-- From a session and the traffic so far on, no operation of a program has the peer count as usable
without a transport, and the program ends as described. -/
def Steady {α : Type} (post : α → Session → List Traffic → Prop) (p : Action α) (s : Session)
    (log : List Traffic) : Prop :=
  p.Ensures (fun (t : Session × List Traffic) op => Sound t.1 → Sound (t.1.after op))
    (fun t op r t' => t.1.Allows op r ∧ t' = (t.1.after op, t.2 ++ traffic op r))
    (fun a t => post a t.1 t.2) (s, log)

section

variable {settings : Settings} {α β : Type} {post : α → Session → List Traffic → Prop}
  {post' : β → Session → List Traffic → Prop} {p : Action α} {s s' : Session}
  {log log' : List Traffic}

theorem Steady.played {a : α} (h : Steady post p s log) (hp : Played p s log' a s') :
    post a s' (log ++ log') := by
  induction hp generalizing log with
  | done a s =>
    rw [List.append_nil]
    exact h
  | ask hr _ ih =>
    rw [← List.append_assoc]
    exact ih (h.2 _ _ ⟨hr, rfl⟩)

theorem Steady.pure {a : α} (h : post a s log) : Steady post (Pure.pure a) s log := h

theorem Steady.bind {f : α → Action β}
    (h : Steady (fun a s log => Steady post' (f a) s log) p s log) :
    Steady post' (p >>= f) s log := Program.Ensures.bind h

theorem Steady.mono {post' : α → Session → List Traffic → Prop} (h : Steady post p s log)
    (hpost : ∀ a s log, post a s log → post' a s log) : Steady post' p s log :=
  Program.Ensures.mono h fun a t => hpost a t.1 t.2

theorem Steady.ask {o : Op} {f : interface.Answer o → Action β}
    (hop : Sound s → Sound (s.after o))
    (hf : ∀ r, s.Allows o r → Steady post' (f r) (s.after o) (log ++ traffic o r)) :
    Steady post' (Program.request (I := interface) o >>= f) s log := by
  refine ⟨hop, ?_⟩
  rintro r _ ⟨hr, rfl⟩
  exact hf r hr

theorem Steady.request {o : Op} {post : interface.Answer o → Session → List Traffic → Prop}
    (hop : Sound s → Sound (s.after o))
    (h : ∀ r, s.Allows o r → post r (s.after o) (log ++ traffic o r)) :
    Steady post (Program.request (I := interface) o) s log := by
  refine ⟨hop, ?_⟩
  rintro r _ ⟨hr, rfl⟩
  exact h r hr

end

theorem Steady.bind_run {ε α β : Type} {q : ExceptT ε Action α} {g : α → ExceptT ε Action β}
    {post : Except ε β → Session → List Traffic → Prop} {s : Session} {log : List Traffic}
    (h : Steady (fun result s log =>
      match result with
      | .ok a => Steady post (g a).run s log
      | .error e => post (.error e) s log) q.run s log) :
    Steady post (q >>= g).run s log := by
  refine Steady.bind (h.mono fun result s log hs => ?_)
  cases result with
  | ok a => exact hs
  | error e => exact hs

theorem Tidy.sound {f : Session → Session} (hf : Tidy f) {s : Session} (hs : Sound s) :
    Sound (f s) := by
  intro h
  obtain ⟨hconnected, hclosed⟩ := hf.connected s h
  rw [hclosed]
  exact hs hconnected

theorem sound_after_of_asks {settings : Settings} {sizes : Nat → Prop} {op : Op}
    (h : Routine.Asks settings sizes False op) {s : Session} (hs : Sound s) :
    Sound (s.after op) := by
  cases op with
  | update f =>
    rcases h with hf | hf
    · exact hf.sound hs
    · exact hf.1.elim
  | updatePeer | measure | startReading => exact hs
  | _ => exact hs

theorem gives_of_allows {s : Session} {op : Op} {r : interface.Answer op} (h : s.Allows op r) :
    Routine.Gives (fun _ => True) op r := by
  cases op with
  | receive link count wait =>
    cases r with
    | bytes b => exact h
    | ended | cut | late => trivial
  | chain q =>
    cases q with
    | blockAt num => exact fun _ _ => trivial
    | _ => trivial
  | _ => trivial

/-- What never dials keeps a sound session sound. -/
theorem Routine.steady {settings : Settings} {α : Type} {post : α → Prop} {p : Action α}
    (h : Routine settings (fun _ => True) False post p) (s : Session) (log : List Traffic) :
    Steady (fun _ _ _ => True) p s log := by
  refine Program.Ensures.matched (R := fun _ _ => True) h trivial ?_ ?_ ?_
  · exact fun _ t op _ hop hs => sound_after_of_asks hop hs
  · exact fun _ t op r t' _ _ hr => ⟨(), gives_of_allows hr.1, trivial⟩
  · exact fun _ _ _ _ _ => trivial

section

variable {s : Session} {log : List Traffic}

theorem steady_update {f : Session → Session} (hf : Sound s → Sound (f s)) :
    Steady (fun before t log' => before = s ∧ t = f s ∧ log' = log) (update f) s log := by
  refine Steady.request (o := .update f) hf ?_
  rintro _ rfl
  exact ⟨rfl, rfl, List.append_nil log⟩

theorem steady_state :
    Steady (fun before t log' => before = s ∧ t = s ∧ log' = log) state s log := steady_update id

theorem steady_modify {f : Session → Session} (hf : Sound s → Sound (f s)) :
    Steady (fun _ t log' => t = f s ∧ log' = log) (modify f) s log := by
  refine .bind ((steady_update hf).mono ?_)
  rintro _ _ _ ⟨-, rfl, rfl⟩
  exact .pure ⟨rfl, rfl⟩

theorem steady_modifyPeer (f : PeerState → PeerState) :
    Steady (fun _ t log' => t = s.mapPeer f ∧ log' = log) (modifyPeer f) s log :=
  .ask (fun h => h) fun _ _ => .pure ⟨rfl, List.append_nil log⟩

theorem steady_hangUp (link? : Option LinkId) :
    Steady (fun _ t log' => t = s ∧ log' = log) (link?.forM hangUp) s log := by
  cases link? with
  | none => exact .pure ⟨rfl, rfl⟩
  | some link => exact Steady.request (o := .hangUp link) id fun _ _ => ⟨rfl, List.append_nil log⟩

theorem steady_ignore (link? : Option LinkId) :
    Steady (fun _ t log' => t = s ∧ log' = log) (link?.forM ignore) s log := by
  cases link? with
  | none => exact .pure ⟨rfl, rfl⟩
  | some link => exact Steady.request (o := .ignore link) id fun _ _ => ⟨rfl, List.append_nil log⟩

theorem steady_shut : Steady (fun _ t log' => t = s.close ∧ log' = log) shut s log := by
  refine .bind ((steady_update tidy_close.sound).mono ?_)
  rintro before _ _ ⟨-, rfl, rfl⟩
  split
  · refine .bind ((steady_hangUp before.writer).mono ?_)
    rintro _ _ _ ⟨rfl, rfl⟩
    split
    · exact steady_ignore before.reader
    · exact .pure ⟨rfl, rfl⟩
  · exact .pure ⟨rfl, rfl⟩

theorem steady_putFrame (m : Message) (writer : Option LinkId) :
    Steady (fun sent t log' => t = s ∧ (sent = true → log' = log ++ [.wrote m.frame true]))
      (putFrame m writer) s log := by
  cases writer with
  | none => exact .pure ⟨rfl, fun h => nomatch h⟩
  | some link =>
    refine Steady.request (o := .send link m.frame) id fun sent _ => ⟨rfl, ?_⟩
    rintro rfl
    rfl

theorem steady_send (m : Message) :
    Steady (fun sent t log' =>
      if sent then t = s ∧ log' = log ++ [.wrote m.frame true] else t = s ∨ t = s.close) (send m) s
      log := by
  refine .bind (steady_state.mono ?_)
  rintro _ _ _ ⟨rfl, rfl, rfl⟩
  split
  · exact .pure (.inl rfl)
  refine .bind ((steady_putFrame m _).mono ?_)
  rintro sent _ _ ⟨rfl, hlog⟩
  cases sent with
  | true => exact .pure ⟨rfl, hlog rfl⟩
  | false =>
    refine .bind (steady_shut.mono ?_)
    rintro _ _ _ ⟨rfl, -⟩
    exact .pure (.inr rfl)

theorem steady_receiveExactly (link : LinkId) (count : Nat) (wait : Wait) :
    Steady (fun result t log' => t = s ∧
      ∀ b, result = .ok b → b.length = count ∧ log' = log ++ [.took (.bytes b)])
      (receiveExactly link count wait).run s log := by
  refine Steady.ask (o := .receive link count wait) id fun received hr => ?_
  cases received with
  | bytes b =>
    refine Steady.pure ⟨rfl, fun b' hb => ?_⟩
    cases hb
    exact ⟨hr, rfl⟩
  | ended | cut | late => exact Steady.pure ⟨rfl, fun _ hb => nomatch hb⟩

def Framed (frame : Frame) (log log' : List Traffic) : Prop :=
  ∃ length, Frame.Splits (length ++ frame.tag :: frame.payload) [frame] [] ∧
    log' = log ++ [.took (.bytes length), .took (.bytes [frame.tag]), .took (.bytes frame.payload)]

theorem steady_receiveFrame (transport : Nat) (deadline : Option Instant) :
    Steady (fun result t log' => t = s ∧ ∀ frame, result = .ok frame → Framed frame log log')
      (receiveFrame transport deadline).run s log := by
  refine Steady.bind_run (q := liftM state) (.ask id fun before _ => .pure ?_)
  change Steady _ (ExceptT.run _) s (log ++ [])
  rw [List.append_nil]
  cases before.reader with
  | none => exact Steady.pure ⟨rfl, fun _ hf => nomatch hf⟩
  | some link =>
    refine .bind_run ((steady_receiveExactly link 4 _).mono ?_)
    rintro (fault | length) _ log₁ ⟨rfl, hlength⟩
    · exact ⟨rfl, fun _ hf => nomatch hf⟩
    obtain ⟨hfour, rfl⟩ := hlength length rfl
    dsimp only
    split
    · exact Steady.pure ⟨rfl, fun _ hf => nomatch hf⟩
    next hadmits =>
    refine .bind_run ((steady_receiveExactly link 1 _).mono ?_)
    rintro (fault | tag) _ log₂ ⟨rfl, htag⟩
    · exact ⟨rfl, fun _ hf => nomatch hf⟩
    obtain ⟨hone, rfl⟩ := htag tag rfl
    refine .bind_run ((steady_receiveExactly link _ _).mono ?_)
    rintro (fault | payload) _ log₃ ⟨rfl, hpayload⟩
    · exact ⟨rfl, fun _ hf => nomatch hf⟩
    obtain ⟨hrest, rfl⟩ := hpayload payload rfl
    refine Steady.pure ⟨rfl, ?_⟩
    rintro _ ⟨rfl⟩
    rw [Bool.not_eq_true, Bool.not_eq_false'] at hadmits
    have hsplits := Frame.splits_of_parts hfour hadmits hone hrest
    obtain ⟨b, rfl⟩ := List.length_eq_one_iff.mp hone
    exact ⟨length, hsplits, by simp⟩

theorem steady_readFrame (deadline : Option Instant) :
    Steady (fun result t log' => t = s.afterReading ∧
      ∀ frame, result = .ok frame → Framed frame log log') (readFrame deadline) s log := by
  refine .ask id fun before hbefore => ?_
  change before = s at hbefore
  change Steady _ _ s.startReading (log ++ [])
  rw [hbefore, List.append_nil]
  refine .ask id fun turn _ => ?_
  change Steady _ _ s.startReading (log ++ [])
  rw [List.append_nil]
  have hend (result : Except ReadFault Frame) (log' : List Traffic)
      (h : ∀ frame, result = .ok frame → Framed frame log log') :
      Steady (fun result t log' => t = s.afterReading ∧
        ∀ frame, result = .ok frame → Framed frame log log')
        (do modify (endReading s.readingCount); return result) s.startReading log' := by
    refine .bind ((steady_modify (tidy_endReading _).sound).mono ?_)
    rintro _ _ _ ⟨rfl, rfl⟩
    exact .pure ⟨rfl, h⟩
  split
  · refine .bind ((steady_receiveFrame _ _).mono ?_)
    rintro result _ log' ⟨rfl, h⟩
    exact hend result log' h
  · exact hend _ log fun _ hf => nomatch hf

theorem steady_readMessage (hs : s.closed = false) (deadline : Option Instant) :
    Steady (fun frame? t log' => (t = s.afterReading ∨ t = s.afterReading.close) ∧
      ∀ frame ∈ frame?, t = s.afterReading ∧ Framed frame log log')
      (readMessage deadline) s log := by
  refine .bind (steady_state.mono ?_)
  rintro _ _ _ ⟨rfl, rfl, rfl⟩
  rw [if_neg (by rw [hs]; exact Bool.false_ne_true)]
  refine .bind ((steady_readFrame deadline).mono ?_)
  rintro (fault | frame) _ log' ⟨rfl, hframe⟩
  · cases fault with
    | broken =>
      refine .bind (steady_shut.mono ?_)
      rintro _ _ _ ⟨rfl, -⟩
      exact .pure ⟨.inr rfl, fun _ hf => nomatch hf⟩
    | gone | late => exact .pure ⟨.inl rfl, fun _ hf => nomatch hf⟩
  · refine .pure ⟨.inl rfl, ?_⟩
    rintro _ ⟨rfl⟩
    exact ⟨rfl, hframe frame rfl⟩

/-- What a failed probe leaves as it was: it has nobody count as usable, and measures nothing. -/
structure Spared (s t : Session) : Prop where
  connected : t.connected = true → s.connected = true
  peer : t.peer = s.peer
  throughput : t.throughput = s.throughput

theorem Tidy.spared {f : Session → Session} (hf : Tidy f) (s : Session) : Spared s (f s) :=
  ⟨fun h => (hf.connected s h).1, hf.peer s, hf.throughput s⟩

theorem Spared.trans {s t u : Session} (h : Spared s t) (h' : Spared t u) : Spared s u :=
  ⟨fun hu => h.connected (h'.connected hu), h'.peer.trans h.peer, h'.throughput.trans h.throughput⟩

theorem spared_afterReading (s : Session) : Spared s s.afterReading := ⟨id, rfl, rfl⟩

theorem steady_estimateLatency (hs : s.closed = false) :
    Steady (fun ok t log' =>
      if ok then ∃ l, Answered log' l ∧ t = s.afterReading.mapPeer (PeerState.setLatency l)
      else Spared s t) estimateLatency s log := by
  refine .ask id fun sent _ => ?_
  change Steady _ _ s (log ++ [.told sent])
  refine .bind ((steady_send (.time (.probe sent))).mono ?_)
  intro wrote t log₁ hwrote
  cases wrote with
  | false =>
    rcases hwrote with rfl | rfl
    · exact .pure (tidy_id.spared t)
    · exact .pure (tidy_close.spared s)
  | true =>
    obtain ⟨rfl, rfl⟩ := hwrote
    refine .ask id fun start _ => ?_
    change Steady _ _ t ((_ ++ _) ++ [])
    rw [List.append_nil]
    refine .bind ((steady_readMessage hs _).mono ?_)
    rintro (_ | frame) t' log₂ ⟨ht, hframe⟩
    · rcases ht with rfl | rfl
      · exact .pure (spared_afterReading t)
      · exact .pure ((spared_afterReading t).trans (tidy_close.spared _))
    · obtain ⟨rfl, length, hsplits, rfl⟩ := hframe frame rfl
      dsimp only
      split
      · next reply hreply =>
        split
        · exact .pure (spared_afterReading t)
        · next hmatch =>
          rw [Bool.or_eq_true, Bool.not_eq_true', decide_eq_true_eq, not_or, not_not,
            Bool.not_eq_false] at hmatch
          refine .ask id fun now _ => ?_
          refine .bind ((steady_modifyPeer _).mono ?_)
          rintro _ _ _ ⟨rfl, rfl⟩
          refine .pure ⟨_, ?_, rfl⟩
          have hanswered : Answered (log ++ [.told sent,
              .wrote (Message.time (.probe sent)).frame true, .took (.bytes length),
              .took (.bytes [frame.tag]), .took (.bytes frame.payload), .told now])
              (elapsed now sent) := .intro hsplits hreply hmatch.1 hmatch.2
          rw [hmatch.2]
          change Answered (_ ++ [.told now]) (elapsed now sent)
          simpa only [List.append_assoc, List.cons_append, List.nil_append] using hanswered
      · exact .pure (spared_afterReading t)

theorem steady_dial (address : Address) (secure : Bool) :
    Steady (fun _ t _ => t = s) (dial address secure) s log :=
  Steady.request (o := .dial address secure) id fun _ _ => rfl

theorem steady_exchange (ip : Ipv4) (port : UInt16) (link : LinkId) (deadline : Instant) :
    Steady (fun _ t _ => t = s) ((Socks5.handshake ip port).embed (overLink link deadline)) s
      log := by
  refine .embed ((courteous_exchange ip port).matched (R := fun _ t => t.1 = s) rfl ?_ ?_ ?_)
  · intro _ t op _ _
    cases op <;> exact id
  · rintro _ t op r _ ht _ ⟨r', -, -, rfl⟩
    cases op <;> exact ⟨(), trivial, ht⟩
  · exact fun _ _ _ ht _ => ht

theorem steady_openTunnel (proxy target : Address) (deadline : Instant) :
    Steady (fun _ t _ => t = s) (openTunnel proxy target deadline) s log := by
  unfold openTunnel
  split
  · exact .pure rfl
  · refine .bind ((steady_dial proxy false).mono ?_)
    rintro (link | - | -) _ _ rfl
    · refine .bind ((steady_exchange _ _ _ _).mono ?_)
      rintro (fault | ⟨⟩) _ _ rfl
      · exact .ask id fun _ _ => .ask id fun _ _ => .pure rfl
      · exact .pure rfl
    · exact .pure rfl
    · exact .pure rfl

theorem steady_openLink (settings : Settings) (target : Address) :
    Steady (fun _ t _ => t = s) (openLink settings target) s log := by
  refine .ask id fun now _ => ?_
  split
  · refine .bind ((steady_dial target true).mono ?_)
    rintro (link | - | -) _ _ rfl <;> exact .pure rfl
  · split
    · split
      · exact steady_openTunnel _ _ _
      · exact .pure rfl
    · refine .bind ((steady_dial target false).mono ?_)
      rintro (link | - | -) _ _ rfl <;> exact .pure rfl

theorem steady_reset :
    Steady (fun _ t _ => t = { s with connected := false, peer := s.peer.reset, throughput := {} })
      reset s log := by
  refine .bind ((steady_modify tidy_disconnect.sound).mono ?_)
  rintro _ _ _ ⟨rfl, -⟩
  refine .bind ((steady_modifyPeer _).mono ?_)
  rintro _ _ _ ⟨rfl, -⟩
  exact Steady.request (o := .measure fun _ => {}) id fun _ _ => rfl

theorem steady_install (link : LinkId) :
    Steady (fun _ t _ => t = s.attach link) (install link) s log := by
  refine .bind ((steady_update fun _ _ => rfl).mono ?_)
  rintro before _ _ ⟨-, rfl, -⟩
  refine .bind ((steady_hangUp before.writer).mono ?_)
  rintro _ _ _ ⟨rfl, -⟩
  exact (steady_ignore before.reader).mono fun _ _ _ h => h.1

theorem steady_startHeartbeat :
    Steady (fun _ t log' => log' = log ∧ ∃ task, t = { s with heartbeat := task }) startHeartbeat s
      log := by
  refine .bind (steady_state.mono ?_)
  rintro _ _ _ ⟨rfl, rfl, rfl⟩
  refine .ask id fun task _ => ?_
  refine .bind ((steady_update (f := fun s => { s with heartbeat := some task }) id).mono ?_)
  rintro before _ _ ⟨-, rfl, rfl⟩
  change Steady _ _ _ (_ ++ [])
  rw [List.append_nil]
  cases before.heartbeat with
  | none => exact .pure ⟨rfl, _, rfl⟩
  | some old => exact Steady.request (o := .abort old) id fun _ _ => ⟨List.append_nil _, _, rfl⟩

structure Connected (s : Session) (connected : Bool) (t : Session) (log : List Traffic) : Prop where
  up : connected = true → Up log t
  down : connected = false → Down t
  lastHandshake : t.peer.lastHandshake = s.peer.lastHandshake

theorem steady_connectOnce (settings : Settings) (target : Address) :
    Steady (fun connected t log' => s.connected = false → Connected s connected t log')
      (connectOnce settings target) s log := by
  refine .bind (steady_state.mono ?_)
  rintro _ _ _ ⟨rfl, rfl, rfl⟩
  split
  · next hs => exact .pure fun h => by rw [h] at hs; cases hs
  next s _ _ =>
  refine .bind (steady_shut.mono ?_)
  rintro _ _ _ ⟨rfl, -⟩
  refine .bind (steady_reset.mono ?_)
  rintro _ t log₁ ht
  have hpeer : t.peer = s.peer.reset := by rw [ht, tidy_close.peer]
  have hconnected : t.connected = false := by rw [ht]
  have hclosed : t.closed = true := by rw [ht]; exact closed_close s
  have hthroughput : t.throughput = {} := by rw [ht]
  -- Whatever a failed attempt did, a closed session is left with nothing of a connection.
  have hdown {u : Session} {log : List Traffic} (hu : Spared t u) (hc : u.closed = true) :
      Connected s false u log := by
    have hpeer' : u.peer = s.peer.reset := hu.peer.trans hpeer
    refine ⟨(nomatch ·), fun _ => ?_, by rw [hpeer']; rfl⟩
    constructor
    · cases h : u.connected with
      | false => rfl
      | true => rw [hu.connected h] at hconnected; cases hconnected
    · exact hc
    · rw [hpeer']; rfl
    · rw [hpeer']; rfl
    · rw [hpeer']; rfl
    · rw [hpeer']; rfl
    · exact hu.throughput.trans hthroughput
  refine .bind ((steady_openLink settings target).mono ?_)
  rintro (_ | link) t log₂ rfl
  · exact .pure fun _ => hdown ⟨id, rfl, rfl⟩ hclosed
  refine .bind ((steady_install link).mono ?_)
  rintro _ _ log₃ rfl
  have hattached : Spared t (t.attach link) := ⟨id, rfl, rfl⟩
  refine .bind ((steady_estimateLatency rfl).mono ?_)
  intro ok u log₄ hok
  cases ok with
  | false =>
    refine .bind (steady_shut.mono ?_)
    rintro _ _ _ ⟨rfl, -⟩
    exact .pure fun _ => hdown (hattached.trans (hok.trans (tidy_close.spared u))) (closed_close u)
  | true =>
    obtain ⟨latency, hanswered, rfl⟩ := hok
    refine .bind ((steady_modify fun _ _ => rfl).mono ?_)
    rintro _ _ _ ⟨rfl, rfl⟩
    refine .bind (steady_startHeartbeat.mono ?_)
    rintro _ _ _ ⟨rfl, task, rfl⟩
    refine .pure fun _ => ⟨fun _ => ⟨rfl, rfl, hanswered⟩, (nomatch ·), ?_⟩
    change t.peer.lastHandshake = s.peer.lastHandshake
    rw [hpeer]
    rfl

theorem steady_connect (settings : Settings) (target : Address) :
    Steady (fun connected t log' => s.connected = false → Connected s connected t log')
      (connect settings target) s log := by
  refine .ask id fun _ _ => .bind ((steady_connectOnce settings target).mono ?_)
  intro connected t log' h
  refine .ask id fun _ _ => .pure ?_
  change s.connected = false → Connected s connected t (log' ++ [])
  rw [List.append_nil]
  exact h

theorem steady_call (settings : Settings) (c : Call) :
    Steady (fun _ _ _ => True) (c.program settings) s log := by
  have hroutine {α : Type} {post : α → Prop} {p : Action α}
      (h : Routine settings (fun _ => True) False post p) :
      Steady (fun _ _ _ => True) (do let _ ← p) s log :=
    .bind ((h.steady s log).mono fun _ _ _ _ => .pure trivial)
  cases c with
  | connect target =>
    exact .bind ((steady_connect settings target).mono fun _ _ _ _ => .pure trivial)
  | attach link => exact (steady_install link).mono fun _ _ _ _ => trivial
  | reset => exact steady_reset.mono fun _ _ _ _ => trivial
  | close => exact steady_shut.mono fun _ _ _ _ => trivial
  | send m => exact .bind ((steady_send m).mono fun _ _ _ _ => .pure trivial)
  | read deadline => exact hroutine (routine_readMessage _ _ _ deadline)
  | probe => exact hroutine (routine_estimateLatency _ _ _)
  | greet => exact hroutine (routine_greet _ _ _)
  | resync => exact hroutine (routine_resync _ _ _)
  | dispatch m => exact hroutine (routine_dispatch _ _ _ fun _ _ => trivial)
  | receive => exact hroutine (routine_receiveOnce _ _ _ fun _ _ => trivial)
  | run a => exact hroutine (routine_runOnce _ _ _ a)

end

section

variable {settings : Settings} {s : Session}

theorem life_steady {p? : Option (Action Unit)} (h : Life settings p? s) :
    Sound s ∧ ∀ p ∈ p?, ∃ log, Steady (fun _ _ _ => True) p s log := by
  induction h with
  | new => exact ⟨(nomatch ·), fun _ hp => nomatch hp⟩
  | call c _ ih =>
    refine ⟨ih.1, ?_⟩
    rintro _ ⟨rfl⟩
    exact ⟨[], steady_call settings c⟩
  | ask _ hr ih =>
    obtain ⟨log, hask, hnext⟩ := ih.2 _ rfl
    refine ⟨hask ih.1, ?_⟩
    rintro _ ⟨rfl⟩
    exact ⟨_, hnext _ _ ⟨hr, rfl⟩⟩
  | finish _ ih => exact ⟨ih.1, fun _ hp => nomatch hp⟩

theorem played_state {α : Type} {f : Session → Action α} {a b : α} {t : Session}
    {log : List Traffic} (h : f s = Pure.pure a) :
    Played (state >>= f) s log b t ↔ log = [] ∧ b = a ∧ t = s := by
  have hsteady : Steady (fun b t log => log = [] ∧ b = a ∧ t = s) (state >>= f) s [] := by
    refine .bind (steady_state.mono ?_)
    rintro _ _ _ ⟨rfl, rfl, rfl⟩
    rw [h]
    exact .pure ⟨rfl, rfl, rfl⟩
  constructor
  · exact fun hp => hsteady.played hp
  · rintro ⟨rfl, rfl, rfl⟩
    have hrest : Played (f t) t [] b t := by
      rw [h]
      exact .done b t
    have hask : Played (state >>= f) t (traffic (.update id) t ++ []) b t := .ask rfl hrest
    exact hask

/-- Wherever a session stands in its life: the peer counts as usable only while a transport is open;
while the session is closed, sending writes nothing and reading reads nothing; and connecting a
session that is not connected leaves it connected by an answer to its probe, or without a connection
and what belonged to one. -/
theorem connection_lifecycle {p? : Option (Action Unit)} (h : Life settings p? s) :
    (s.connected = true → s.closed = false) ∧
    (s.closed = true → ∀ log t,
      (∀ m sent, Played (send m) s log sent t ↔ log = [] ∧ sent = false ∧ t = s) ∧
      (∀ deadline frame?, Played (readMessage deadline) s log frame? t ↔
        log = [] ∧ frame? = none ∧ t = s)) ∧
    (s.connected = false → ∀ target log connected t,
      Played (connect settings target) s log connected t →
      (connected = true ↔ Up log t) ∧ (connected = false ↔ Down t) ∧
        t.peer.lastHandshake = s.peer.lastHandshake) := by
  refine ⟨(life_steady h).1, ?_, ?_⟩
  · intro hs log t
    constructor
    · intro m sent
      exact played_state (if_pos hs)
    · intro deadline frame?
      exact played_state (if_pos hs)
  · intro hs target log connected t hp
    have hsteady : Steady (fun connected t log => s.connected = false → Connected s connected t log)
        (connect settings target) s [] := steady_connect settings target
    have hout : Connected s connected t log := hsteady.played hp hs
    have hexclusive : Up log t → Down t → False := by
      intro hup hdown
      have hopen := hup.closed
      rw [hdown.closed] at hopen
      cases hopen
    refine ⟨⟨hout.up, fun hup => ?_⟩, ⟨hout.down, fun hdown => ?_⟩, hout.lastHandshake⟩
    · cases connected with
      | true => rfl
      | false => exact (hexclusive hup (hout.down rfl)).elim
    · cases connected with
      | true => exact (hexclusive (hout.up rfl) hdown).elim
      | false => rfl

def play {α : Type} (answers : Session → (op : Op) → interface.Answer op) :
    Action α → Session → List Traffic × α × Session
  | .done a, s => ([], a, s)
  | .ask op next, s =>
    let rest := play answers (next (answers s op)) (s.after op)
    (traffic op (answers s op) ++ rest.1, rest.2)

theorem played_play {α : Type} {answers : Session → (op : Op) → interface.Answer op}
    (h : ∀ (s : Session) op, s.Allows op (answers s op)) (p : Action α) (s : Session) :
    Played p s (play answers p s).1 (play answers p s).2.1 (play answers p s).2.2 := by
  induction p generalizing s with
  | done a => exact .done a s
  | ask op next ih => exact .ask (h s op) (ih _ _)

def partOf (frame : Frame) (count : Nat) : Received :=
  if count = 4 then .bytes (Wire.write (UInt32.ofNat (frame.payload.length + 1)))
  else if count = 1 then .bytes [frame.tag]
  else if count = frame.payload.length then .bytes frame.payload
  else .ended

theorem partOf_eq (frame : Frame) (count : Nat) :
    (∃ b : Bytes, b.length = count ∧ partOf frame count = .bytes b) ∨
      partOf frame count = .ended := by
  unfold partOf
  split
  · next h =>
    subst h
    exact .inl ⟨_, Wire.length_write_uint32 _, rfl⟩
  · split
    · next h => exact .inl ⟨[frame.tag], h.symm, rfl⟩
    · split
      · next h => exact .inl ⟨frame.payload, h.symm, rfl⟩
      · exact .inr rfl

def promptAnswer : Frame :=
  ⟨MessageKind.time.tag, (Message.time { origin := 1, receive := 4, transmit := 5 }).payload⟩

def promptWorld (s : Session) : (op : Op) → interface.Answer op
  | .clock => if s.readingCount = 0 then 1 else 8
  | .instant => 0
  | .nonce => Octets.zero 32
  | .chain q => (Chain.Memory.ofSnapshot (Octets.zero 32) 0 (Octets.zero 32)).answer q
  | .push _ _ => .ok none
  | .update _ | .startReading => s
  | .updatePeer _ => s.peer
  | .receive _ count _ => partOf promptAnswer count
  | .send _ _ | .awaitTurn _ _ | .pause _ _ => true
  | .isStopping => false
  | .spawn _ => 0
  | .dial _ _ => .opened 0
  | .measure _ | .hangUp _ | .ignore _ | .announce _ | .stop | .abort _ | .rest | .lockDial
  | .unlockDial => ()

theorem allows_promptWorld (s : Session) (op : Op) : s.Allows op (promptWorld s op) := by
  cases op with
  | receive link count wait =>
    change s.Allows (.receive link count wait) (partOf promptAnswer count)
    rcases partOf_eq promptAnswer count with ⟨b, hlength, heq⟩ | heq <;> rw [heq]
    · exact hlength
    · trivial
  | update | startReading | updatePeer => rfl
  | _ => trivial

theorem connection_lifecycle_of_prompt_answer :
    let target : Address := ⟨"10.0.0.1", 9876⟩
    let run := play promptWorld (connect {} target) {}
    Life {} none {} ∧ Played (connect {} target) {} run.1 run.2.1 run.2.2 ∧ Up run.1 run.2.2 ∧
      run.2.2.peer.latency = 7 := by
  intro target run
  have hp : Played (connect {} target) {} run.1 run.2.1 run.2.2 :=
    played_play allows_promptWorld _ _
  have hconnected : run.2.1 = true := by decide +kernel
  have hresult := ((connection_lifecycle .new).2.2 rfl _ _ _ _ hp).1.mp hconnected
  exact ⟨.new, hp, hresult, by decide +kernel⟩

end

end BlockSync.Session

import BlockSync.Proofs.Session.Fatal
import BlockSync.Proofs.Session.Lifecycle

/-! A session with everything that goes on at it. Calls, rounds of the activities beside the
receiving, and one round of the receive loop each go on by one operation at a time, in any order,
and peers, links, clocks and the chain answer anything. An open session has its transport, and an
activity closes the session only after a frame of its own could not be written. -/

namespace BlockSync.Session

open BlockSync.Session.Action

namespace Deed

/-- A frame that could not be written. -/
def lost (link : LinkId) (frame : Bytes) : Deed := ⟨.send link frame, false⟩

def octets : Deed → Bytes
  | ⟨.receive _ _ _, .bytes b⟩ => b
  | _ => []

end Deed

structure Aside where
  program : Action (Option Activity)
  deeds : List Deed := []

namespace Aside

def isBusy : Aside → Bool
  | ⟨.done _, _⟩ => false
  | _ => true

def Failed (a : Aside) : Prop := ∃ link frame, .lost link frame ∈ a.deeds

end Aside

structure Scene where
  session : Session := {}
  stopping : Bool := false
  /-- Whether a shutdown was requested from elsewhere since the receive loop's round began. -/
  interrupted : Bool := false
  calls : List (Action Unit) := []
  asides : List Aside := []

namespace Scene

/-- What an operation may answer. A wait for octets is not given up without a reason. -/
def Allows (s : Scene) : (op : Op) → interface.Answer op → Prop
  | .isStopping, stopping => stopping = s.stopping
  | .receive _ _ wait, .cut =>
    s.stopping = true ∨ ∃ transport, wait.transport = some transport ∧
      s.session.isCurrent transport = false
  | .receive _ _ wait, .late => wait.deadline.isSome = true
  | .awaitTurn _ deadline, turn => turn = true ∨ deadline.isSome = true
  | op, r => s.session.Allows op r

def after (s : Scene) : Op → Scene
  | .stop => { s with stopping := true }
  | op => { s with session := s.session.after op }

def Troubled (s : Scene) : Prop := ∃ a ∈ s.asides, a.Failed

def fresh (s : Scene) : Scene :=
  { s with interrupted := false, asides := s.asides.filter Aside.isBusy }

end Scene

/-- What happens beside the calls: a round of an activity begins or goes on, or a shutdown is
requested. -/
inductive Beside (settings : Settings) (s : Scene) : Scene → Prop
  | begin (a : Activity) : Beside settings s { s with asides := ⟨runOnce settings a, []⟩ :: s.asides }
  | go {before rest op next ds r} : s.asides = before ++ ⟨.ask op next, ds⟩ :: rest →
      s.Allows op r →
      Beside settings s
        { s.after op with asides := before ++ ⟨next r, ds ++ [⟨op, r⟩]⟩ :: rest }
  | interrupt : Beside settings s { s with stopping := true, interrupted := true }

/-- What a session and all that goes on at it can come to. -/
inductive Scene.Reached (settings : Settings) : Scene → Prop
  | new : Reached settings {}
  | beside {s t} : Reached settings s → Beside settings s t → Reached settings t
  | call {s} (c : Call) : Reached settings s →
      Reached settings { s with calls := c.program settings :: s.calls }
  | ask {s before rest op next r} : Reached settings s → s.calls = before ++ .ask op next :: rest →
      s.Allows op r →
      Reached settings { s.after op with calls := before ++ next r :: rest }

/-- A round of the receive loop while no calls go on: what is left of it, and what it did. -/
inductive Round (settings : Settings) (start : Scene) : Action Bool → List Deed → Scene → Prop
  | begin : Round settings start (handleMessage settings) [] start.fresh
  | ask {op next ds s r} : Round settings start (.ask op next) ds s → s.Allows op r →
      Round settings start (next r) (ds ++ [⟨op, r⟩]) (s.after op)
  | beside {p ds s t} : Round settings start p ds s → Beside settings s t →
      Round settings start p ds t

/-- An open session has a transport that is not given up, with both its ends. -/
def Equipped (s : Session) : Prop :=
  s.closed = false → s.cut = false ∧ s.reader ≠ none ∧ ∃ link, s.writer = some link

section

variable {s : Session} {f : Session → Session}

theorem Equipped.closed_of (h : Equipped s) (hmissing : s.cut = true ∨ s.reader = none) :
    s.closed = true := by
  by_contra hopen
  rw [Bool.not_eq_true] at hopen
  obtain ⟨hcut, hreader, -⟩ := h hopen
  rcases hmissing with hmissing | hmissing
  · rw [hcut] at hmissing
    cases hmissing
  · exact hreader hmissing

theorem Tidy.equipped (hf : Tidy f) (h : Equipped s) : Equipped (f s) := by
  intro hopen
  obtain ⟨hcut, hreader, hwriter⟩ := hf.kept s hopen
  rw [hcut, hreader, hwriter]
  refine h ?_
  cases hs : s.closed with
  | false => rfl
  | true =>
    rw [hf.closed s hs] at hopen
    cases hopen

theorem Opening.equipped (hf : Opening f) (h : Equipped s) : Equipped (f s) := by
  cases hf with
  | attach link => exact fun _ => ⟨rfl, nofun, link, rfl⟩
  | connected => exact h
  | heartbeat task => exact h

end

def Decent.MayAsk : Op → Prop
  | .update f => Tidy f ∨ Opening f
  | _ => True

def Decent {α : Type} (p : Action α) : Prop :=
  p.Ensures (fun (_ : Unit) op => Decent.MayAsk op)
    (fun _ op r _ => Routine.Gives (fun _ => True) op r) (fun _ _ => True) ()

theorem Routine.decent {settings : Settings} {dials : Prop} {α : Type} {post : α → Prop}
    {p : Action α} (h : Routine settings (fun _ => True) dials post p) : Decent p := by
  refine Program.Ensures.matched (R := fun _ _ => True) h trivial ?_ ?_ ?_
  · intro _ _ op _ hop
    cases op with
    | update f => exact hop.imp_right And.right
    | _ => trivial
  · exact fun _ _ _ _ _ _ _ hr => ⟨(), hr, trivial⟩
  · exact fun _ _ _ _ _ => trivial

theorem Decent.andThen {α β : Type} {p : Action α} {f : α → Action β} (hp : Decent p)
    (hf : ∀ a, Decent (f a)) : Decent (p >>= f) :=
  Program.Ensures.bind (Program.Ensures.mono hp fun a _ _ => hf a)

theorem decent_send (m : Message) : Decent (send m) := by
  have hshut : Decent shut := (routine_shut {} _ False).decent
  refine .andThen (p := state) ⟨.inl tidy_id, fun _ _ _ => trivial⟩ fun s => ?_
  split
  · exact Program.Ensures.pure trivial
  refine .andThen ?_ fun sent => ?_
  · cases s.writer with
    | none => exact Program.Ensures.pure trivial
    | some link => exact ⟨trivial, fun _ _ _ => trivial⟩
  · split
    · exact hshut.andThen fun _ => Program.Ensures.pure trivial
    · exact Program.Ensures.pure trivial

theorem decent_call (settings : Settings) (c : Call) : Decent (c.program settings) := by
  have hcall {α : Type} {dials : Prop} {post : α → Prop} {p : Action α}
      (h : Routine settings (fun _ => True) dials post p) : Decent (do let _ ← p) :=
    h.decent.andThen fun _ => Program.Ensures.pure trivial
  cases c with
  | connect target => exact hcall (routine_connect _ _ target)
  | attach link => exact (routine_install settings _ link).decent
  | reset => exact (routine_reset settings _ False).decent
  | close => exact (routine_shut settings _ False).decent
  | send m => exact (decent_send m).andThen fun _ => Program.Ensures.pure trivial
  | read deadline => exact hcall (routine_readMessage _ _ False deadline)
  | probe => exact hcall (routine_estimateLatency _ _ False)
  | greet => exact hcall (routine_greet _ _ False)
  | resync => exact hcall (routine_resync _ _ False)
  | dispatch m => exact hcall (routine_dispatch _ _ False fun _ _ => trivial)
  | receive => exact hcall (routine_receiveOnce _ _ False fun _ _ => trivial)
  | run a => exact hcall (routine_runOnce _ _ False a)

namespace Scene

variable {s : Scene} {op : Op} {r : interface.Answer op}

theorem session_after (s : Scene) (op : Op) : (s.after op).session = s.session.after op := by
  cases op <;> rfl

theorem calls_after (s : Scene) (op : Op) : (s.after op).calls = s.calls := by
  cases op <;> rfl

theorem asides_after (s : Scene) (op : Op) : (s.after op).asides = s.asides := by
  cases op <;> rfl

theorem interrupted_after (s : Scene) (op : Op) : (s.after op).interrupted = s.interrupted := by
  cases op <;> rfl

theorem stopping_after_of_ne (h : op ≠ .stop) (s : Scene) :
    (s.after op).stopping = s.stopping := by
  cases op with
  | stop => exact absurd rfl h
  | _ => rfl

theorem Allows.session (h : s.Allows op r) : s.session.Allows op r := by
  cases op with
  | receive link count wait =>
    cases r with
    | bytes b => exact h
    | ended | cut | late => trivial
  | isStopping | awaitTurn => trivial
  | _ => exact h

end Scene

def Humble (ds : List Deed) : Op → Prop
  | .update f => Tidy f ∧ ((∃ link frame, .lost link frame ∈ ds) ∨ ∀ s, (f s).closed = s.closed)
  | .stop => False
  | _ => True

def Fair : (op : Op) → interface.Answer op → Prop
  | .update _, before => Equipped before
  | _, _ => True

/-- Whether an activity, after what it did so far, does nothing but what it may do. -/
def Modest {α : Type} (p : Action α) (ds : List Deed) : Prop :=
  p.Ensures Humble (fun ds op r ds' => Fair op r ∧ ds' = ds ++ [⟨op, r⟩]) (fun _ _ => True) ds

section

variable {α β : Type} {p : Action α} {f : α → Action β} {ds : List Deed}

theorem Modest.pure (a : α) (ds : List Deed) : Modest (Pure.pure a) ds :=
  Program.Ensures.pure trivial

theorem Modest.ask {o : Op} {f : interface.Answer o → Action α} (ho : Humble ds o)
    (hf : ∀ r, Fair o r → Modest (f r) (ds ++ [⟨o, r⟩])) :
    Modest (Program.request (I := interface) o >>= f) ds := by
  refine ⟨ho, ?_⟩
  rintro r _ ⟨hr, rfl⟩
  exact hf r hr

theorem Modest.andThen (hp : Modest p ds) (hf : ∀ a ds, Modest (f a) ds) : Modest (p >>= f) ds :=
  Program.Ensures.bind (Program.Ensures.mono hp fun a ds _ => hf a ds)

theorem modest_state {f : Session → Action α}
    (hf : ∀ s ds, Equipped s → Modest (f s) ds) (ds : List Deed) : Modest (state >>= f) ds :=
  .ask (o := .update id) ⟨tidy_id, .inr fun _ => rfl⟩ fun s hs => hf s _ hs

theorem modest_shut (h : ∃ link frame, .lost link frame ∈ ds) : Modest shut ds := by
  refine .ask (o := .update close) ⟨tidy_close, .inl h⟩ fun before _ => ?_
  split
  · refine .andThen ?_ fun _ ds => ?_
    · cases before.writer with
      | none => exact .pure _ _
      | some link => exact ⟨trivial, fun _ _ _ => trivial⟩
    · split
      · cases before.reader with
        | none => exact .pure _ _
        | some link => exact ⟨trivial, fun _ _ _ => trivial⟩
      · exact .pure _ _
  · exact .pure _ _

theorem modest_send (m : Message) (ds : List Deed) : Modest (send m) ds := by
  refine modest_state (fun before ds hbefore => ?_) ds
  split
  · exact .pure _ _
  next hopen =>
  rw [Bool.not_eq_true] at hopen
  obtain ⟨-, -, link, hwriter⟩ := hbefore hopen
  rw [hwriter]
  refine .ask (o := .send link m.frame) trivial fun sent _ => ?_
  cases sent with
  | true => exact .pure _ _
  | false =>
    have hlost : Deed.lost link m.frame ∈ ds ++ [Deed.lost link m.frame] :=
      List.mem_append_right _ (List.mem_singleton_self _)
    exact .andThen (modest_shut ⟨link, m.frame, hlost⟩) fun _ _ => .pure _ _

theorem modest_sendHandshake (settings : Settings) (ds : List Deed) :
    Modest (sendHandshake settings) ds := by
  refine .ask (o := .updatePeer _) trivial fun before _ => ?_
  iterate 7 refine .ask trivial fun _ _ => ?_
  exact modest_send _ _

theorem modest_respondOnce (next last : UInt32) (transport responder : Nat) (ds : List Deed) :
    Modest (respondOnce next last transport responder) ds := by
  refine modest_state (fun s ds _ => ?_) ds
  split
  · exact .pure _ _
  refine .ask trivial fun stopping _ => ?_
  split
  · exact .pure _ _
  refine .ask trivial fun raw? _ => ?_
  cases raw? with
  | none => exact .pure _ _
  | some raw =>
    refine .andThen (modest_send _ _) fun sent ds => ?_
    split
    · exact .pure _ _
    · split <;> exact .pure _ _

theorem modest_beat (settings : Settings) (transport : Nat) (ds : List Deed) :
    Modest (beat settings transport) ds := by
  refine .ask trivial fun start _ => .ask trivial fun due _ => ?_
  split
  · exact .pure _ _
  refine modest_state (fun s ds _ => ?_) _
  split
  · exact .pure _ _
  refine .ask trivial fun now _ => .andThen (p := modifyPeer _) ?_ fun _ ds => ?_
  · exact .ask (o := .updatePeer _) trivial fun _ _ => .pure _ _
  refine .andThen (modest_send _ _) fun sent ds => ?_
  split
  · exact .pure _ _
  refine .andThen (modest_sendHandshake _ _) fun sent ds => ?_
  split <;> exact .pure _ _

theorem modest_runOnce (settings : Settings) (a : Activity) (ds : List Deed) :
    Modest (runOnce settings a) ds := by
  cases a with
  | heartbeat transport => exact modest_beat settings transport ds
  | respond next last transport responder =>
    exact modest_respondOnce next last transport responder ds

end

def Op.IsTidy : Op → Prop
  | .update f => Tidy f
  | _ => True

section

variable {s : Session} {op : Op}

theorem Op.IsTidy.equipped (h : op.IsTidy) (hs : Equipped s) : Equipped (s.after op) := by
  cases op with
  | update f => exact Tidy.equipped h hs
  | _ => exact hs

theorem Op.IsTidy.transport (h : op.IsTidy) (s : Session) :
    (s.after op).transport = s.transport := by
  cases op with
  | update f => exact Tidy.transport h s
  | _ => rfl

theorem Op.IsTidy.closed (h : op.IsTidy) (hs : s.closed = true) :
    (s.after op).closed = true := by
  cases op with
  | update f => exact Tidy.closed h s hs
  | _ => exact hs

theorem Humble.isTidy {ds : List Deed} (h : Humble ds op) : op.IsTidy := by
  cases op with
  | update f => exact h.1
  | _ => trivial

theorem Humble.closed {ds : List Deed} (h : Humble ds op) (hs : (s.after op).closed = true) :
    s.closed = true ∨ ∃ link frame, .lost link frame ∈ ds := by
  cases op with
  | update f =>
    rcases h.2 with hlost | hsame
    · exact .inr hlost
    · exact .inl ((hsame s).symm.trans hs)
  | _ => exact .inl hs

end

namespace Scene

/-- What may have become of a scene through what happens beside the calls. -/
structure Drifts (s t : Scene) : Prop where
  equipped : Equipped t.session
  transport : t.session.transport = s.session.transport
  closed : s.session.closed = true → t.session.closed = true
  troubled : s.Troubled → t.Troubled
  /-- A session that was closed meanwhile was closed by an activity in trouble. -/
  blamed : t.session.closed = true → s.session.closed = true ∨ t.Troubled
  stopping : s.stopping = true → t.stopping = true
  interrupted : s.interrupted = true → t.interrupted = true
  /-- A shutdown that was requested meanwhile was requested from elsewhere. -/
  told : t.stopping = true → s.stopping = true ∨ t.interrupted = true

variable {settings : Settings} {s t u : Scene}

theorem Drifts.refl (h : Equipped s.session) : s.Drifts s :=
  ⟨h, rfl, id, id, .inl, id, id, .inl⟩

theorem Drifts.trans (h : s.Drifts t) (h' : t.Drifts u) : s.Drifts u where
  equipped := h'.equipped
  transport := h'.transport.trans h.transport
  closed hs := h'.closed (h.closed hs)
  troubled hs := h'.troubled (h.troubled hs)
  blamed hu := by
    rcases h'.blamed hu with ht | hu
    · exact (h.blamed ht).imp_right h'.troubled
    · exact .inr hu
  stopping hs := h'.stopping (h.stopping hs)
  interrupted hs := h'.interrupted (h.interrupted hs)
  told hu := by
    rcases h'.told hu with ht | hu
    · exact (h.told ht).imp_right h'.interrupted
    · exact .inr hu

theorem Drifts.blame {excuse : Prop} (h : s.Drifts t)
    (hs : s.session.closed = true → s.Troubled ∨ excuse) (ht : t.session.closed = true) :
    t.Troubled ∨ excuse := by
  rcases h.blamed ht with hclosed | htrouble
  · exact (hs hclosed).imp_left h.troubled
  · exact .inl htrouble

theorem Drifts.interrupted_of_stopping (h : s.Drifts t)
    (hs : s.stopping = true → s.interrupted = true) (ht : t.stopping = true) :
    t.interrupted = true := by
  rcases h.told ht with hstopping | hinterrupted
  · exact h.interrupted (hs hstopping)
  · exact hinterrupted

structure Orderly (s : Scene) : Prop where
  equipped : Equipped s.session
  calls : ∀ p ∈ s.calls, Decent p
  asides : ∀ a ∈ s.asides, Modest a.program a.deeds

theorem Orderly.after {op : Op} (h : s.Orderly) (hop : Equipped (s.session.after op)) :
    (s.after op).Orderly := by
  constructor
  · rwa [s.session_after]
  · rw [s.calls_after]
    exact h.calls
  · rw [s.asides_after]
    exact h.asides

theorem drifts_go {before rest : List Aside} {op : Op} {next : interface.Answer op → _}
    {ds : List Deed} {r : interface.Answer op} (hs : s.Orderly)
    (hat : s.asides = before ++ ⟨.ask op next, ds⟩ :: rest) (hop : Humble ds op) :
    s.Drifts { s.after op with asides := before ++ ⟨next r, ds ++ [⟨op, r⟩]⟩ :: rest } := by
  have hsession : (s.after op).session = s.session.after op := s.session_after op
  have hne : op ≠ .stop := by
    rintro rfl
    exact hop
  have hstopping : (s.after op).stopping = s.stopping := stopping_after_of_ne hne s
  have hinterrupted : (s.after op).interrupted = s.interrupted := s.interrupted_after op
  -- The activity at work has done all that it did, and one thing more.
  have hmember : (⟨next r, ds ++ [⟨op, r⟩]⟩ : Aside) ∈
      before ++ ⟨next r, ds ++ [⟨op, r⟩]⟩ :: rest :=
    List.mem_append_right _ List.mem_cons_self
  constructor
  · rw [hsession]
    exact hop.isTidy.equipped hs.equipped
  · rw [hsession]
    exact hop.isTidy.transport s.session
  · rw [hsession]
    exact hop.isTidy.closed
  · rintro ⟨a, ha, hfailed⟩
    rw [hat] at ha
    rcases List.mem_append.mp ha with ha | ha
    · exact ⟨a, List.mem_append_left _ ha, hfailed⟩
    rcases List.mem_cons.mp ha with rfl | ha
    · obtain ⟨link, frame, hlost⟩ := hfailed
      exact ⟨_, hmember, link, frame, List.mem_append_left _ hlost⟩
    · exact ⟨a, List.mem_append_right _ (List.mem_cons_of_mem _ ha), hfailed⟩
  · rw [hsession]
    intro hclosed
    refine (hop.closed hclosed).imp_right ?_
    rintro ⟨link, frame, hlost⟩
    exact ⟨_, hmember, link, frame, List.mem_append_left _ hlost⟩
  · rw [hstopping]
    exact id
  · rw [hinterrupted]
    exact id
  · rw [hstopping]
    exact .inl

end Scene

theorem Scene.Allows.fair {s : Scene} (hs : Equipped s.session) {op : Op}
    {r : interface.Answer op} (h : s.Allows op r) : Fair op r := by
  cases op with
  | update f =>
    rw [show r = s.session from h]
    exact hs
  | _ => trivial

theorem Beside.orderly {settings : Settings} {s t : Scene} (h : Beside settings s t)
    (hs : s.Orderly) : s.Drifts t ∧ t.Orderly := by
  cases h with
  | begin a =>
    refine ⟨⟨hs.equipped, rfl, id, ?_, .inl, id, id, .inl⟩, hs.equipped, hs.calls, ?_⟩
    · rintro ⟨b, hb, hfailed⟩
      exact ⟨b, List.mem_cons_of_mem _ hb, hfailed⟩
    · intro b hb
      rcases List.mem_cons.mp hb with rfl | hb
      · exact modest_runOnce settings a []
      · exact hs.asides b hb
  | @go before rest op next ds r hat hr =>
    have hmodest : Modest (.ask op next) ds :=
      hs.asides _ (hat ▸ List.mem_append_right _ List.mem_cons_self)
    -- Only the activity at work is another one now, and it stays modest with one deed more.
    have hdrifts := Scene.drifts_go (r := r) hs hat hmodest.1
    refine ⟨hdrifts, hdrifts.equipped, ?_, fun b hb => ?_⟩
    · rw [show (s.after op).calls = s.calls from s.calls_after op]
      exact hs.calls
    · rcases List.mem_append.mp hb with hb | hb
      · exact hs.asides b (hat ▸ List.mem_append_left _ hb)
      rcases List.mem_cons.mp hb with rfl | hb
      · exact hmodest.2 r _ ⟨hr.fair hs.equipped, rfl⟩
      · exact hs.asides b (hat ▸ List.mem_append_right _ (List.mem_cons_of_mem _ hb))
  | interrupt =>
    exact ⟨⟨hs.equipped, rfl, id, id, .inl, fun _ => rfl, fun _ => rfl, fun _ => .inr rfl⟩,
      hs.equipped, hs.calls, hs.asides⟩

theorem Scene.Reached.orderly {settings : Settings} {s : Scene} (h : Scene.Reached settings s) :
    s.Orderly := by
  induction h with
  | new =>
    exact ⟨nofun, fun p hp => absurd hp List.not_mem_nil, fun a ha => absurd ha List.not_mem_nil⟩
  | beside _ hb ih => exact (hb.orderly ih).2
  | call c _ ih =>
    refine ⟨ih.equipped, fun p hp => ?_, ih.asides⟩
    rcases List.mem_cons.mp hp with rfl | hp
    · exact decent_call settings c
    · exact ih.calls p hp
  | @ask s before rest op next r _ hat hr ih =>
    have hdecent : Decent (.ask op next) :=
      ih.calls _ (hat ▸ List.mem_append_right _ List.mem_cons_self)
    -- Calls may dial, so the session may come to another transport here.
    have hequipped : Equipped (s.session.after op) := by
      cases op with
      | update f => exact hdecent.1.elim (·.equipped ih.equipped) (·.equipped ih.equipped)
      | _ => exact ih.equipped
    have hafter := ih.after hequipped
    refine ⟨hafter.equipped, fun p hp => ?_, hafter.asides⟩
    rcases List.mem_append.mp hp with hp | hp
    · exact ih.calls p (hat ▸ List.mem_append_left _ hp)
    rcases List.mem_cons.mp hp with rfl | hp
    · exact hdecent.2 r () (gives_of_allows hr.session)
    · exact ih.calls p (hat ▸ List.mem_append_right _ (List.mem_cons_of_mem _ hp))

end BlockSync.Session

import BlockSync.Proofs.Session.Answering
import BlockSync.Proofs.Session.Scene

/-! What goes on at a session as far as the keeping of time is concerned. Heartbeats, readings and the
handling of messages are tasks of one operation after the other, and what each of them does about
time is a story of two moments at most. -/

namespace BlockSync

def TimeStamps.departure? (m : TimeStamps) : Option Int64 :=
  if m.origin = 0 then some m.transmit else none

/-- The departure that is given back by what is no probe. -/
def TimeStamps.return? (m : TimeStamps) : Option Int64 :=
  if m.origin = 0 then none else some m.origin

theorem Program.bind_assoc {I : Interface} {α β γ : Type} (p : Program I α) (f : α → Program I β)
    (g : β → Program I γ) : p >>= f >>= g = p >>= fun a => f a >>= g := by
  induction p with
  | done a => rfl
  | ask op next ih => exact congrArg (Program.ask op) (funext ih)

namespace Session

open BlockSync.Session.Action

inductive Moment where
  | heard (m : TimeStamps)
  | wrote (m : TimeStamps)
  | noted (departure : Int64)
  | compared (m : TimeStamps)
  /-- Others change the session, and leave the probe. -/
  | elsewhere
  /-- Others change the session, and no probe is waited for. -/
  | forgot
  deriving DecidableEq

abbrev History := List Moment

namespace History

def heard (h : History) : List TimeStamps :=
  h.filterMap fun
    | .heard m => some m
    | _ => none

def wrote (h : History) : List TimeStamps :=
  h.filterMap fun
    | .wrote m => some m
    | _ => none

def noted (h : History) : List Int64 :=
  h.filterMap fun
    | .noted departure => some departure
    | _ => none

/-- The departure of the latest probe, unless it was answered or forgotten. -/
def awaited : History → Option Int64
  | [] => none
  | .noted departure :: _ => some departure
  | .compared m :: h => if awaited h = some m.origin then none else awaited h
  | .forgot :: _ => none
  | _ :: h => awaited h

/-- The departures of the probes that were answered. -/
def settled : History → List Int64
  | [] => []
  | .compared m :: h => if awaited h = some m.origin then m.origin :: settled h else settled h
  | _ :: h => settled h

theorem awaited_compared (m : TimeStamps) (h : History) :
    awaited (.compared m :: h) = if awaited h = some m.origin then none else awaited h := rfl

theorem settled_compared (m : TimeStamps) (h : History) :
    settled (.compared m :: h) =
      if awaited h = some m.origin then m.origin :: settled h else settled h := rfl

end History

/-- What an operation is for the keeping of time, when the message at hand is one of time. -/
def Op.moment? (hand : Option TimeStamps) : Op → Option Moment
  | .send _ frame => (Frame.ofWritten frame).stamps?.map .wrote
  | .updatePeer f =>
    match (f PeerState.fresh).probe with
    | some probe => some (.noted probe.transmit)
    | none => hand.map .compared
  | _ => none

inductive Task where
  | listen
  | handle (frame : Frame)
  | beside (a : Activity)

def momentsOf (hand : Option TimeStamps) (ds : List Deed) : History :=
  ds.filterMap fun d => d.op.moment? hand

namespace Task

def following (go : Bool) : Option Task := if go then some .listen else none

/-- What a task does, and the task that follows it. -/
def program (settings : Settings) : Task → Action (Option Task)
  | .listen => do
    if ← isStopping then return none
    return (← readMessage none).map .handle
  | .handle frame => do return following (← handleFrame settings frame)
  | .beside a => do return (← runOnce settings a).map .beside

def hand : Task → Option TimeStamps
  | .handle frame => frame.stamps?
  | _ => none

def history (k : Task) (ds : List Deed) : History :=
  (k.hand.map .heard).toList ++ momentsOf k.hand ds

end Task

/-- What one task can be for the keeping of time. -/
inductive Story : History → Prop
  | nothing : Story []
  | hearing (m) : Story [.heard m]
  | answering {m : TimeStamps} (now) : m.IsProbe → Story [.heard m, .wrote (m.answer now)]
  | comparing {m : TimeStamps} : m.IsReply → Story [.heard m, .compared m]
  | noting (departure) : Story [.noted departure]
  | probing (departure) : Story [.noted departure, .wrote (.probe departure)]

section

variable {α β : Type} {p q : Action α} {ds : List Deed} {hand : Option TimeStamps}
  {P : History → Prop}

theorem momentsOf_eq (hand : Option TimeStamps) (ds : List Deed) :
    momentsOf hand ds = (marks ds).filterMap (Op.moment? hand) := by
  induction ds with
  | nil => rfl
  | cons d ds ih =>
    obtain ⟨op, r⟩ := d
    cases op with
    | send | updatePeer =>
      rw [momentsOf, List.filterMap_cons, marks, List.map_cons, List.filter_cons_of_pos rfl,
        List.filterMap_cons]
      rw [momentsOf, marks] at ih
      rw [ih]
    | _ => exact ih

theorem KeepsTime.moment?_eq {f : PeerState → PeerState} (h : KeepsTime f) :
    (Op.updatePeer f).moment? hand = hand.map .compared := by
  have hprobe : (f PeerState.fresh).probe = none := (h _).1
  rw [Op.moment?, hprobe]

theorem Op.IsTimeless.moment?_eq {op : Op} (h : op.IsTimeless) : op.moment? none = none := by
  cases op with
  | send link frame => exact congrArg (Option.map _) h
  | updatePeer f => exact KeepsTime.moment?_eq h
  | _ => rfl

theorem Trail.moments_nil (h : Trail p ds q) (hp : Timeless p) : momentsOf none ds = [] := by
  refine List.filterMap_eq_nil_iff.mpr fun d hd => ?_
  exact ((h.within hp).1 d hd).moment?_eq

def Recounts (P : History → Prop) (p : Action α) : Prop :=
  ∀ ds q, Trail p ds q → P (momentsOf none ds)

theorem Recounts.of_timeless (h : P []) (hp : Timeless p) : Recounts P p := by
  intro ds q hq
  rw [hq.moments_nil hp]
  exact h

theorem Recounts.ite {c : Prop} [Decidable c] {p' : Action α} (hp : Recounts P p)
    (hp' : Recounts P p') : Recounts P (if c then p else p') := by
  split
  · exact hp
  · exact hp'

theorem Recounts.pass {o : Op} {f : interface.Answer o → Action β} (h : P []) (ho : o.IsTimeless)
    (hf : ∀ r, Recounts P (f r)) : Recounts P (Program.request (I := interface) o >>= f) := by
  intro ds q hq
  rcases Trail.of_ask hq with ⟨rfl, -⟩ | ⟨r, ds, rfl, hrest⟩
  · exact h
  · have hds : momentsOf none (⟨o, r⟩ :: ds) = momentsOf none ds :=
      List.filterMap_cons_none ho.moment?_eq
    rw [hds]
    exact hf r ds q hrest

end

section

variable (settings : Settings) {ds : List Deed}

theorem recounts_probe {β : Type} {f : Bool → Action β} (departure : Int64)
    (hf : ∀ sent, Timeless (f sent)) :
    Recounts (fun h => h = [] ∨ h = [.wrote (.probe departure)])
      (send (.time (.probe departure)) >>= f) := by
  have hsend {ds : List Deed} {q : Action Bool} (h : Trail (send (.time (.probe departure))) ds q) :
      momentsOf none ds = [] ∨ momentsOf none ds = [.wrote (.probe departure)] := by
    rw [momentsOf_eq]
    rcases marks_send h with ⟨hnone, -⟩ | ⟨link, hmarks⟩
    · left
      rw [hnone]
      rfl
    · right
      rw [hmarks, List.filterMap_cons, Op.moment?, Frame.stamps?_time]
      rfl
  intro ds q hq
  rcases hq.of_bind with ⟨p', hp', -⟩ | ⟨ds₁, sent, ds₂, rfl, hds₁, hds₂⟩
  · exact hsend hp'
  · have hend := hds₂.moments_nil (hf sent)
    rw [momentsOf] at hend
    rw [momentsOf, List.filterMap_append, hend, List.append_nil]
    exact hsend hds₁

theorem recounts_beat (transport : Nat) : Recounts Story (beat settings transport) := by
  refine .pass .nothing (o := .instant) trivial fun start => ?_
  refine .pass .nothing (o := .pause _ _) trivial fun awake => ?_
  refine .ite (.of_timeless .nothing (.pure none)) ?_
  refine .pass .nothing (o := .update id) tidy_id fun s => ?_
  refine .ite (.of_timeless .nothing (.pure none)) ?_
  refine .pass .nothing (o := .clock) trivial fun now => ?_
  change Int64 at now
  intro ds q hq
  rcases Trail.of_ask (o := .updatePeer (PeerState.setProbe (some (.probe now)))) hq with
    ⟨rfl, -⟩ | ⟨before, ds, rfl, hrest⟩
  · exact .nothing
  have hend (sent : Bool) : Timeless (do
      if !sent then return none
      if !(← sendHandshake settings) then return none
      return some (Activity.heartbeat transport)) :=
    .ite (.pure none) (.bind (timeless_sendHandshake settings) fun _ =>
      .ite (.pure none) (.pure _))
  change Story (.noted now :: momentsOf none ds)
  rcases recounts_probe now hend ds q hrest with hds | hds
  · rw [hds]
    exact .noting now
  · rw [hds]
    exact .probing now

theorem story_handle {frame : Frame} {m : TimeStamps} {q : Action Bool}
    (hm : frame.stamps? = some m) (h : Trail (handleFrame settings frame) ds q) :
    Story (.heard m :: momentsOf (some m) ds) := by
  rw [momentsOf_eq]
  rcases marks_handleFrame hm h with
    ⟨hnone, -⟩ | ⟨now, -, ⟨hprobe, link, hmarks⟩ | ⟨hreply, hmarks⟩⟩
  · rw [hnone]
    exact .hearing m
  · rw [hmarks, List.filterMap_cons, Op.moment?, Frame.stamps?_time]
    exact .answering now hprobe
  · rw [hmarks]
    exact .comparing hreply

theorem timeless_listen : Timeless (Task.listen.program settings) := by
  refine .ask (o := .isStopping) trivial fun stopping => .ite (.pure none) ?_
  exact .bind (timeless_readMessage none) fun _ => .pure _

theorem Task.story (k : Task) {q : Action (Option Task)} (h : Trail (k.program settings) ds q) :
    Story (k.history ds) := by
  cases k with
  | listen =>
    change Story (momentsOf none ds)
    rw [h.moments_nil (timeless_listen settings)]
    exact .nothing
  | handle frame =>
    obtain ⟨p', hp', -⟩ := Trail.of_map (g := following) h
    cases hstamps : frame.stamps? with
    | none =>
      have hmoments := hp'.moments_nil (timeless_handleFrame settings hstamps)
      rw [history, hand, hstamps, hmoments]
      exact .nothing
    | some m =>
      rw [history, hand, hstamps]
      exact story_handle settings hstamps hp'
  | beside a =>
    obtain ⟨p', hp', -⟩ := Trail.of_map (g := Option.map Task.beside) h
    change Story (momentsOf none ds)
    cases a with
    | heartbeat transport => exact recounts_beat settings transport ds p' hp'
    | respond next last transport responder =>
      rw [hp'.moments_nil (timeless_respondOnce next last transport responder)]
      exact .nothing

def Op.SparesTime : Op → Prop
  | .update f => Tidy f
  | .updatePeer f => KeepsTime f
  | _ => True

theorem Op.IsTimeless.sparesTime {op : Op} (h : op.IsTimeless) : op.SparesTime := by
  cases op with
  | update | updatePeer => exact h
  | _ => trivial

theorem Timeless.sparesTime {α : Type} {p : Action α} (h : Timeless p) :
    p.Within Op.SparesTime fun _ _ => True :=
  Program.Within.mono h (fun _ ho => ho.sparesTime) fun _ _ h => h

theorem Op.SparesTime.isTidy {op : Op} (h : op.SparesTime) : op.IsTidy := by
  cases op with
  | update => exact h
  | _ => trivial

theorem carries_sparesTime : Carries Op.SparesTime :=
  carries_timeless.mono fun _ ho => ho.sparesTime

theorem carries_isTidy : Carries Op.IsTidy := carries_sparesTime.mono fun _ ho => ho.isTidy

theorem asks_beat {transport : Nat} {op : Op}
    {next : interface.Answer op → Action (Option Activity)}
    (h : Trail (beat settings transport) ds (.ask op next)) :
    op.SparesTime ∨
      ∃ now, ⟨.clock, now⟩ ∈ ds ∧ op = .updatePeer (PeerState.setProbe (some (.probe now))) := by
  rcases Trail.of_ask (o := .instant) h with ⟨-, heq⟩ | ⟨start, ds, rfl, h₁⟩
  · cases heq
    exact .inl trivial
  rcases Trail.of_ask (o := .pause _ _) h₁ with ⟨-, heq⟩ | ⟨awake, ds, rfl, h₂⟩
  · cases heq
    exact .inl trivial
  split at h₂
  · cases h₂.of_done.2
  rcases Trail.of_ask (o := .update id) h₂ with ⟨-, heq⟩ | ⟨s, ds, rfl, h₃⟩
  · cases heq
    exact .inl tidy_id
  split at h₃
  · cases h₃.of_done.2
  rcases Trail.of_ask (o := .clock) h₃ with ⟨-, heq⟩ | ⟨now, ds, rfl, h₄⟩
  · cases heq
    exact .inl trivial
  rcases Trail.of_ask (o := .updatePeer _) h₄ with ⟨-, heq⟩ | ⟨before, ds, rfl, h₅⟩
  · cases heq
    refine .inr ⟨now, ?_, rfl⟩
    iterate 3 refine List.mem_cons_of_mem _ ?_
    exact List.mem_cons_self
  -- After the probe was noted, only the handshake touches what is known of the peer.
  refine .inl (h₅.within ?_).2.1
  refine .bind (carries_sparesTime.send fun _ => trivial) fun sent => .ite trivial ?_
  exact .bind (timeless_sendHandshake settings).sparesTime fun _ => .ite trivial trivial

theorem tidy_handleTime (m : TimeStamps) :
    (handleTime m).Within Op.IsTidy fun _ _ => True := by
  refine .ask (I := interface) (o := .clock) trivial fun now => .ite trivial (.ite ?_ ?_)
  · exact carries_isTidy.send fun _ => trivial
  · exact ⟨trivial, fun _ _ => trivial⟩

def Task.Asks (k : Task) (ds : List Deed) : Op → Prop
  | .update f => Tidy f
  | .updatePeer f =>
    match k.hand with
    | some m => m.IsReply ∧ ∃ now, ⟨.clock, now⟩ ∈ ds ∧ f = settle m now
    | none => KeepsTime f ∨ (∃ transport, k = .beside (.heartbeat transport)) ∧
        ∃ now, ⟨.clock, now⟩ ∈ ds ∧ f = PeerState.setProbe (some (.probe now))
  | _ => True

theorem Op.SparesTime.asks {op : Op} {k : Task} (h : op.SparesTime) (hk : k.hand = none)
    (ds : List Deed) : k.Asks ds op := by
  cases op with
  | update => exact h
  | updatePeer f =>
    unfold Task.Asks
    rw [hk]
    exact .inl h
  | _ => trivial

theorem asks_of_hand_none {k : Task} {op : Op} {next : interface.Answer op → Action (Option Task)}
    (hk : k.hand = none) (h : Trail (k.program settings) ds (.ask op next)) : k.Asks ds op := by
  have hspares (hp : Timeless (k.program settings)) : k.Asks ds op :=
    Op.SparesTime.asks (h.within hp.sparesTime).2.1 hk ds
  cases k with
  | listen => exact hspares (timeless_listen settings)
  | handle frame => exact hspares (.bind (timeless_handleFrame settings hk) fun _ => .pure _)
  | beside a =>
    cases a with
    | respond next last transport responder =>
      exact hspares (.bind (timeless_respondOnce next last transport responder) fun _ => .pure _)
    | heartbeat transport =>
      obtain ⟨p', hp', hq⟩ := Trail.of_map (g := Option.map Task.beside) h
      cases p' with
      | done => cases hq
      | ask =>
        cases hq
        rcases asks_beat settings hp' with hop | ⟨now, hnow, rfl⟩
        · exact hop.asks hk ds
        · exact .inr ⟨⟨transport, rfl⟩, now, hnow, rfl⟩

theorem tidy_handleFrame {frame : Frame} {m : TimeStamps} (hm : frame.stamps? = some m) :
    (handleFrame settings frame).Within Op.IsTidy fun _ _ => True := by
  refine .ask (I := interface) (o := .isStopping) trivial fun stopping => .ite trivial ?_
  rw [Frame.ofPayload_of_message? (Frame.message?_of_stamps? hm)]
  exact .bind (tidy_handleTime m) fun _ => trivial

theorem Task.asks {k : Task} {op : Op} {next : interface.Answer op → Action (Option Task)}
    (h : Trail (k.program settings) ds (.ask op next)) (r : interface.Answer op) :
    k.Asks ds op := by
  cases hhand : k.hand with
  | none => exact asks_of_hand_none settings hhand h
  | some m =>
    cases k with
    | listen | beside => cases hhand
    | handle frame =>
      -- One deed further, what was asked for is among the marks of the handling.
      have hframe := h.concat r
      cases op with
      | update f =>
        have htidy : (Task.program settings (.handle frame)).Within Op.IsTidy fun _ _ => True :=
          .bind (tidy_handleFrame settings hhand) fun _ => trivial
        exact (h.within htidy).2.1
      | updatePeer f =>
        obtain ⟨p', hp', -⟩ := Trail.of_map (g := following) hframe
        have hlast : marks (ds ++ [⟨.updatePeer f, r⟩]) = marks ds ++ [.updatePeer f] := by
          rw [marks, List.map_append, List.filter_append]
          rfl
        have hmem : Op.updatePeer f ∈ marks (ds ++ [⟨.updatePeer f, r⟩]) := by
          rw [hlast]
          exact List.mem_append_right _ List.mem_cons_self
        unfold Task.Asks
        rw [hhand]
        rcases marks_handleFrame hhand hp' with
          ⟨hnone, -⟩ | ⟨now, hnow, ⟨-, link, hmarks⟩ | ⟨hreply, hmarks⟩⟩
        · rw [hnone] at hmem
          cases hmem
        · rw [hmarks] at hmem
          cases hmem with
          | tail _ hmem => cases hmem
        · rw [hmarks, List.mem_singleton] at hmem
          have hbefore : (⟨.clock, now⟩ : Deed) ∈ ds := by
            rcases List.mem_append.mp hnow with hnow | hnow
            · exact hnow
            · cases List.mem_singleton.mp hnow
          exact ⟨hreply, now, hbefore, Op.updatePeer.inj hmem⟩
      | _ => trivial

end

end Session

end BlockSync

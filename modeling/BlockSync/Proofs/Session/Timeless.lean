import BlockSync.Proofs.Session.Discipline
import BlockSync.Proofs.Session.Outlook

/-! What has nothing to do with time. Only heartbeats, and the handling of messages of that kind,
write time stamps or change what is known of probes and latency. -/

namespace BlockSync

/-- The time stamps of a frame that holds some. -/
def Frame.stamps? (f : Frame) : Option TimeStamps :=
  match f.message? with
  | some (.time m) => some m
  | _ => none

theorem Frame.message?_of_stamps? {f : Frame} {m : TimeStamps} (h : f.stamps? = some m) :
    f.message? = some (.time m) := by
  unfold stamps? at h
  split at h
  · next m' hm =>
    cases h
    exact hm
  · cases h

theorem Frame.stamps?_time (m : TimeStamps) :
    (Frame.ofWritten (Message.time m).frame).stamps? = some m := by
  have hfits : (Message.time m).Fits := trivial
  rw [stamps?, Message.message?_ofWritten hfits]

theorem Frame.stamps?_of_kind {m : Message} (h : m.kind ≠ .time) :
    (Frame.ofWritten m.frame).stamps? = none := by
  cases hstamps : (Frame.ofWritten m.frame).stamps? with
  | none => rfl
  | some stamps =>
    have hread := Frame.ofPayload_of_message? (Frame.message?_of_stamps? hstamps)
    rw [m.ofWritten_frame] at hread
    have htag := Message.ofTag_of_ofPayload hread
    rw [ofTag_tag] at htag
    exact absurd (Except.ok.inj htag) h

end BlockSync

namespace BlockSync.Session

open BlockSync.Session.Action

def KeepsTime (f : PeerState → PeerState) : Prop :=
  ∀ p, (f p).probe = p.probe ∧ (f p).latency = p.latency

def Op.IsTimeless : Op → Prop
  | .update f => Tidy f
  | .updatePeer f => KeepsTime f
  | .send _ frame => (Frame.ofWritten frame).stamps? = none
  | _ => True

def Timeless {α : Type} (p : Action α) : Prop := p.Within Op.IsTimeless fun _ _ => True

section

variable {α β : Type}

theorem Timeless.pure (a : α) : Timeless (Pure.pure a) := trivial

theorem Timeless.request {op : Op} (h : op.IsTimeless) :
    Timeless (Program.request (I := interface) op) := ⟨h, fun _ _ => trivial⟩

theorem Timeless.bind {p : Action α} {f : α → Action β} (hp : Timeless p)
    (hf : ∀ a, Timeless (f a)) : Timeless (p >>= f) := Program.Within.bind hp hf

theorem Timeless.ask {o : Op} {f : interface.Answer o → Action β} (h : o.IsTimeless)
    (hf : ∀ r, Timeless (f r)) : Timeless (Program.request (I := interface) o >>= f) :=
  Program.Within.ask h hf

theorem Timeless.ite {c : Prop} [Decidable c] {p q : Action α} (hp : Timeless p)
    (hq : Timeless q) : Timeless (if c then p else q) := Program.Within.ite hp hq

end

theorem keepsTime_advanceGeneration : KeepsTime PeerState.advanceGeneration :=
  fun _ => ⟨rfl, rfl⟩

theorem Op.IsOrdinary.isTimeless {op : Op} (h : op.IsOrdinary) : op.IsTimeless := by
  cases op with
  | update f => exact h
  | updatePeer f => exact fun p => ⟨h.probe p, h.latency p⟩
  | send link frame =>
    obtain ⟨m, htime, -, rfl⟩ := h
    exact Frame.stamps?_of_kind htime
  | _ => trivial

section

variable (settings : Settings)

theorem carries_timeless : Carries Op.IsTimeless :=
  carries_ordinary.mono fun _ => Op.IsOrdinary.isTimeless

theorem listens_timeless : Listens Op.IsTimeless where
  toCarries := carries_timeless
  startReading := trivial
  awaitTurn _ _ := trivial
  receive _ _ _ := trivial
  endReading reading := tidy_endReading reading

theorem timeless_readMessage (deadline : Option Instant) : Timeless (readMessage deadline) :=
  listens_timeless.readMessage deadline

theorem timeless_sendHandshake : Timeless (sendHandshake settings) := by
  refine .ask keepsTime_advanceGeneration fun _ => ?_
  iterate 7 refine .ask trivial fun _ => ?_
  exact carries_timeless.send fun _ => Frame.stamps?_of_kind nofun

def timelessness : Discipline settings where
  Holds := Timeless
  pure := .pure
  bind := .bind
  request h := .request h.isTimeless
  sendHandshake := timeless_sendHandshake settings

theorem offering_timelessness : (timelessness settings).Offering where
  push _ _ := .request trivial
  stop := .request trivial

theorem leaving_timelessness : (timelessness settings).Leaving where
  announce _ _ _ hp := .bind (.request trivial) fun _ => hp

theorem timeless_handleFrame {frame : Frame} (h : frame.stamps? = none) :
    Timeless (handleFrame settings frame) := by
  let d := timelessness settings
  refine d.handleFrame fun m hread =>
    d.dispatch (offering_timelessness settings) (leaving_timelessness settings) fun hkind => ?_
  cases m with
  | time stamps =>
    rw [Frame.stamps?, Frame.message?, hread] at h
    cases h
  | _ => cases hkind

theorem timeless_respondOnce (next last : UInt32) (transport responder : Nat) :
    Timeless (respondOnce next last transport responder) :=
  (timelessness {}).respondOnce next last transport responder

end

end BlockSync.Session

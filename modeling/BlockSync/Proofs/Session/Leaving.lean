import BlockSync.Proofs.Session.Discipline

/-! How a session ends for good. Whoever announces that the peer is to be left closes the session
next; what goes on beside the receiving announces nothing. -/

namespace BlockSync.Session

open BlockSync.Session.Action

def Op.IsAnnouncement : Op → Prop
  | .announce _ => True
  | _ => False

/-- Whether a program announces nothing. -/
def Mute {α : Type} (p : Action α) : Prop :=
  p.Within (fun op : Op => ¬ op.IsAnnouncement) fun _ _ => True

/-- Whether a program closes the session after each of its announcements. -/
def Faithful {α : Type} : Action α → Prop
  | .done _ => True
  | .ask op next => ∀ r, (op.IsAnnouncement → (next r).Reaches Op.IsClose) ∧ Faithful (next r)

section

variable {α β : Type} {p : Action α}

theorem Mute.bind {f : α → Action β} (hp : Mute p) (hf : ∀ a, Mute (f a)) : Mute (p >>= f) :=
  Program.Within.bind hp hf

theorem Mute.request {op : Op} (h : ¬ op.IsAnnouncement) :
    Mute (Program.request (I := interface) op) := ⟨h, fun _ _ => trivial⟩

theorem Mute.faithful (h : Mute p) : Faithful p := by
  induction p with
  | done a => trivial
  | ask op next ih => exact fun r => ⟨fun hop => absurd hop h.1, ih r (h.2 r trivial)⟩

theorem Faithful.bind {f : α → Action β} (hp : Faithful p) (hf : ∀ a, Faithful (f a)) :
    Faithful (p >>= f) := by
  induction p with
  | done a => exact hf a
  | ask op next ih => exact fun r => ⟨fun hop => ((hp r).1 hop).bind f, ih r (hp r).2⟩

end

theorem Op.IsOrdinary.not_isAnnouncement {op : Op} (h : op.IsOrdinary) : ¬ op.IsAnnouncement := by
  cases op with
  | announce m => exact h.elim
  | _ => exact id

theorem carries_mute : Carries fun op => ¬ op.IsAnnouncement :=
  carries_ordinary.mono fun _ => Op.IsOrdinary.not_isAnnouncement

theorem listens_mute : Listens fun op => ¬ op.IsAnnouncement where
  toCarries := carries_mute
  startReading := id
  awaitTurn _ _ := id
  receive _ _ _ := id
  endReading _ := id

theorem mute_send (m : Message) : Mute (send m) := carries_mute.send fun _ => id

section

variable (settings : Settings)

theorem mute_sendHandshake : Mute (sendHandshake settings) := by
  refine .bind ?_ fun m => mute_send (.handshake m)
  iterate 8 refine .bind (.request id) fun _ => ?_
  trivial

def muteness : Discipline settings where
  Holds := Mute
  pure _ := trivial
  bind := .bind
  request h := .request h.not_isAnnouncement
  sendHandshake := mute_sendHandshake settings

theorem timing_muteness : (muteness settings).Timing where
  send m := mute_send (.time m)
  modifyPeer _ _ := .bind (.request id) fun _ => trivial

theorem waiting_muteness : (muteness settings).Waiting where
  readMessage deadline := listens_mute.readMessage deadline
  pause _ _ := .request id

theorem mute_greet : Mute (greet settings) := (muteness settings).greet

theorem mute_runOnce (a : Activity) : Mute (runOnce settings a) :=
  (timing_muteness settings).runOnce (waiting_muteness settings) a

def faithfulness : Discipline settings where
  Holds := Faithful
  pure _ := trivial
  bind := .bind
  request h := (Mute.request h.not_isAnnouncement).faithful
  sendHandshake := (mute_sendHandshake settings).faithful

theorem offering_faithfulness : (faithfulness settings).Offering where
  push _ _ := (Mute.request id).faithful
  stop := (Mute.request id).faithful

theorem leaving_faithfulness : (faithfulness settings).Leaving where
  announce _ _ hclose hp := fun _ => ⟨fun _ => hclose, hp⟩

theorem timing_faithfulness : (faithfulness settings).Timing where
  send m := (mute_send (.time m)).faithful
  modifyPeer f h := ((timing_muteness settings).modifyPeer f h).faithful

theorem waiting_faithfulness : (faithfulness settings).Waiting where
  readMessage deadline := ((waiting_muteness settings).readMessage deadline).faithful
  pause _ _ := (Mute.request id).faithful

theorem faithful_receiveOnce : Faithful (receiveOnce settings) :=
  (timing_faithfulness settings).receiveOnce (waiting_faithfulness settings)
    (offering_faithfulness settings) (leaving_faithfulness settings)

end

end BlockSync.Session

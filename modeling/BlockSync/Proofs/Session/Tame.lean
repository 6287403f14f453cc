import BlockSync.Proofs.Session.Discipline

/-! Most of what a session does is tame: it pushes no block and requests no shutdown. -/

namespace BlockSync.Session

open BlockSync.Session.Action

def Quiet : Op → Prop
  | .stop | .push _ _ => False
  | _ => True

def Tame {α : Type} (p : Action α) : Prop := Program.Within Quiet (fun _ _ => True) p

section

variable {α β : Type}

theorem Tame.pure (a : α) : Tame (Pure.pure a) := trivial

theorem Tame.request {op : Op} (h : Quiet op) :
    Tame (Program.request (I := interface) op) := ⟨h, fun _ _ => trivial⟩

theorem Tame.bind {p : Action α} {f : α → Action β} (hp : Tame p)
    (hf : ∀ a, Tame (f a)) : Tame (p >>= f) := Program.Within.bind hp hf

end

theorem Op.IsOrdinary.quiet {op : Op} (h : op.IsOrdinary) : Quiet op := by
  cases op with
  | push | stop => exact h
  | _ => trivial

theorem carries_quiet : Carries Quiet := carries_ordinary.mono fun _ => Op.IsOrdinary.quiet

theorem listens_quiet : Listens Quiet where
  toCarries := carries_quiet
  startReading := trivial
  awaitTurn _ _ := trivial
  receive _ _ _ := trivial
  endReading _ := trivial

theorem tame_shut : Tame shut := carries_quiet.shut

theorem tame_readMessage (deadline : Option Instant) : Tame (readMessage deadline) :=
  listens_quiet.readMessage deadline

theorem tame_send (m : Message) : Tame (send m) := carries_quiet.send fun _ => trivial

variable (settings : Settings)

theorem tame_sendHandshake : Tame (sendHandshake settings) := by
  refine .bind ?_ fun _ => tame_send _
  refine .bind (.request trivial) fun _ => ?_
  iterate 7 refine .bind (.request trivial) fun _ => ?_
  exact .pure _

def tameness : Discipline settings where
  Holds := Tame
  pure := .pure
  bind := .bind
  request h := .request h.quiet
  sendHandshake := tame_sendHandshake settings

theorem leaving_tameness : (tameness settings).Leaving where
  announce _ _ _ hp := .bind (.request trivial) fun _ => hp

theorem timing_tameness : (tameness settings).Timing where
  send _ := tame_send _
  modifyPeer _ _ := .bind (.request trivial) fun _ => .pure ()

theorem waiting_tameness : (tameness settings).Waiting where
  readMessage := tame_readMessage
  pause _ _ := .request trivial

theorem tame_restart : Tame restart := (tameness {}).restart

theorem tame_afterBlock (num : UInt32) (size : Nat) : Tame (afterBlock settings num size) :=
  (tameness settings).afterBlock num size

theorem tame_handleSyncRequest (range : BlockRange) : Tame (handleSyncRequest range) :=
  (tameness {}).handleSyncRequest range

theorem tame_handleTime (m : TimeStamps) : Tame (handleTime m) := (timing_tameness {}).handleTime m

theorem tame_handleHandshake (m : Handshake) : Tame (handleHandshake settings m) :=
  (tameness settings).handleHandshake m

theorem tame_handleNotice (m : Notice) : Tame (handleNotice settings m) :=
  (tameness settings).handleNotice (leaving_tameness settings) m

theorem tame_greet : Tame (greet settings) := (tameness settings).greet

theorem tame_runOnce (a : Activity) : Tame (runOnce settings a) :=
  (timing_tameness settings).runOnce (waiting_tameness settings) a

end BlockSync.Session

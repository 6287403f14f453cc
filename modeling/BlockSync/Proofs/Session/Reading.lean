import BlockSync.Proofs.Wire.Splitting
import BlockSync.Session.Transport

/-! Reading frames when it is settled which octets are still to come before the peer's end. Each
operation of a reading then has one outcome, so a reading gives the first frame of those octets, or
closes the session. -/

namespace BlockSync.Session

open Wire (write)

/-- An operation of a reading: its answer, the session after it, and what is left unread. A reading
opens no closed session. -/
def foresee (link : LinkId) (s : Session) (unread : Bytes) :
    (op : Op) → Option (interface.Answer op × Session × Bytes)
  | .update f => if s.closed = true → (f s).closed = true then some (s, f s, unread) else none
  | .startReading => some (s, s.startReading, unread)
  | .awaitTurn reading none =>
    if s.readings.head? = some reading then some (true, s, unread) else none
  | .receive source count wait =>
    if source = link ∧ wait.deadline.isNone ∧ wait.transport.all s.isCurrent then
      if count ≤ unread.length then some (.bytes (unread.take count), s, unread.drop count)
      else some (.ended, s, [])
    else none
  | .hangUp _ | .ignore _ => some ((), s, unread)
  | _ => none

/-- A program that comes to its end, with what the session is then and what is left unread. -/
inductive Reads {α : Type} (link : LinkId) :
    Action α → Session → Bytes → α → Session → Bytes → Prop
  | done (a s unread) : Reads link (.done a) s unread a s unread
  | ask {op next s unread r s' unread' a s'' unread''} :
      foresee link s unread op = some (r, s', unread') →
      Reads link (next r) s' unread' a s'' unread'' →
      Reads link (.ask op next) s unread a s'' unread''

section

variable {α β ε : Type} {link : LinkId} {s s' s'' : Session} {unread unread' unread'' : Bytes}

theorem Reads.pure (a : α) (s : Session) (unread : Bytes) :
    Reads link (Pure.pure a) s unread a s unread := .done a s unread

theorem Reads.bind {p : Action α} {f : α → Action β} {a : α} {b : β}
    (hp : Reads link p s unread a s' unread') (hf : Reads link (f a) s' unread' b s'' unread'') :
    Reads link (p >>= f) s unread b s'' unread'' := by
  induction hp with
  | done => exact hf
  | ask ho _ ih => exact .ask ho (ih hf)

theorem Reads.request {op : Op} {r : interface.Answer op}
    (h : foresee link s unread op = some (r, s', unread')) :
    Reads link (Program.request (I := interface) op) s unread r s' unread' :=
  .ask h (.done r s' unread')

theorem Reads.bind_ok {p : ExceptT ε Action α} {f : α → ExceptT ε Action β} {a : α}
    {b : Except ε β} (hp : Reads link p.run s unread (.ok a) s' unread')
    (hf : Reads link (f a).run s' unread' b s'' unread'') :
    Reads link (p >>= f).run s unread b s'' unread'' := hp.bind hf

theorem Reads.bind_error {p : ExceptT ε Action α} {f : α → ExceptT ε Action β} {e : ε}
    (hp : Reads link p.run s unread (.error e) s' unread') :
    Reads link (p >>= f).run s unread (.error e) s' unread' := hp.bind (.pure _ _ _)

theorem reads_update {f : Session → Session} (h : s.closed = true → (f s).closed = true)
    (unread : Bytes) : Reads link (Action.update f) s unread s (f s) unread := .request (if_pos h)

theorem reads_state (s : Session) (unread : Bytes) :
    Reads link Action.state s unread s s unread := reads_update id unread

theorem foresee_closed {op : Op} {r : interface.Answer op}
    (h : foresee link s unread op = some (r, s', unread')) (hs : s.closed = true) :
    s'.closed = true := by
  cases op <;> simp only [foresee, reduceCtorEq] at h
  case update f =>
    split at h
    · rename_i hf
      cases h
      exact hf hs
    · cases h
  case startReading | hangUp | ignore =>
    cases h
    exact hs
  case receive source count wait =>
    split at h
    · split at h
      · cases h
        exact hs
      · cases h
        exact hs
    · cases h
  case awaitTurn reading deadline =>
    cases deadline with
    | none =>
      simp only at h
      split at h
      · cases h
        exact hs
      · cases h
    | some deadline => cases h

theorem Reads.closed {p : Action α} {a : α} (h : Reads link p s unread a s' unread')
    (hs : s.closed = true) : s'.closed = true := by
  induction h with
  | done => exact hs
  | ask ho _ ih => exact ih (foresee_closed ho hs)

theorem closed_close (s : Session) : s.close.closed = true := by
  unfold close
  split
  · assumption
  · rfl

theorem reads_shut (link : LinkId) (h : s.closed = false) (unread : Bytes) :
    Reads link shut s unread () s.close unread := by
  refine (reads_update (fun _ => closed_close s) unread).bind ?_
  rw [h]
  have hwriter : Reads link (s.writer.forM Action.hangUp) s.close unread () s.close unread := by
    cases s.writer with
    | none => exact .pure () _ _
    | some writer => exact .request rfl
  refine hwriter.bind ?_
  split
  · cases s.reader with
    | none => exact .pure () _ _
    | some reader => exact .request rfl
  · exact .pure () _ _

structure Ready (link : LinkId) (s : Session) : Prop where
  closed : s.closed = false
  cut : s.cut = false
  reader : s.reader = some link
  readings : s.readings = []

def patience (s : Session) : Wait := { transport := some s.transport }

theorem foresee_receive (link : LinkId) (h : s.cut = false) (count : Nat) (unread : Bytes) :
    foresee link s unread (.receive link count s.patience) =
      if count ≤ unread.length then some (.bytes (unread.take count), s, unread.drop count)
      else some (.ended, s, []) := by
  have hcurrent : s.isCurrent s.transport = true := by simp [isCurrent, h]
  exact if_pos ⟨rfl, rfl, hcurrent⟩

theorem reads_receiveExactly (link : LinkId) (h : s.cut = false) (part rest : Bytes) :
    Reads link (receiveExactly link part.length s.patience).run s (part ++ rest) (.ok part) s
      rest := by
  have hreceive := foresee_receive link h part.length (part ++ rest)
  rw [if_pos (by rw [List.length_append]; omega), List.take_left, List.drop_left] at hreceive
  exact .ask hreceive (.pure _ _ _)

theorem reads_receiveExactly_ended (link : LinkId) (h : s.cut = false) {count : Nat}
    {unread : Bytes} (hshort : unread.length < count) :
    Reads link (receiveExactly link count s.patience).run s unread (.error .broken) s [] := by
  have hreceive := foresee_receive link h count unread
  rw [if_neg (by omega)] at hreceive
  exact .ask hreceive (.pure _ _ _)

end

section

variable {link : LinkId} {s : Session} {unread left : Bytes} {f : Frame} {fs : List Frame}

def receiveRest (link : LinkId) (wait : Wait) (length : UInt32) :
    ExceptT ReadFault Action Frame := do
  if !Frame.admits length then throw .broken
  let tag ← receiveExactly link 1 wait
  let payload ← receiveExactly link (length.toNat - 1) wait
  return ⟨tag.headD 0, payload⟩

theorem reads_startFrame (hcut : s.cut = false) (hreader : s.reader = some link) (length : UInt32)
    (rest : Bytes) {result : Except ReadFault Frame} {rest' : Bytes}
    (h : Reads link (receiveRest link s.patience length).run s rest result s rest') :
    Reads link (receiveFrame s.transport none).run s (write length ++ rest) result s rest' := by
  have hstate : Reads link (liftM Action.state : ExceptT ReadFault Action Session).run s
      (write length ++ rest) (.ok s) s (write length ++ rest) :=
    (reads_state s _).bind (.pure _ _ _)
  have hlength := reads_receiveExactly link hcut (write length) rest
  rw [Wire.length_write_uint32] at hlength
  refine hstate.bind_ok ?_
  rw [hreader]
  refine hlength.bind_ok ?_
  rw [Wire.ofLittleEndian_write_uint32]
  exact h

theorem reads_receiveFrame (hcut : s.cut = false) (hreader : s.reader = some link)
    (h : Frame.Splits unread (f :: fs) left) :
    ∃ rest, Frame.Splits rest fs left ∧
      Reads link (receiveFrame s.transport none).run s unread (.ok f) s rest := by
  cases h with
  | @whole length tag payload rest _ _ hadmits hlen hrest =>
    have htag := reads_receiveExactly link hcut [tag] (payload ++ rest)
    have hpayload := reads_receiveExactly link hcut payload rest
    have hcount : length.toNat - 1 = payload.length := by omega
    refine ⟨rest, hrest, reads_startFrame hcut hreader length _ ?_⟩
    rw [receiveRest]
    simp only [hadmits, hcount, Bool.not_true, Bool.false_eq_true, if_false]
    exact htag.bind_ok (hpayload.bind_ok (.pure _ _ _))

theorem reads_receiveFrame_broken (hcut : s.cut = false) (hreader : s.reader = some link)
    (h : Frame.Splits unread [] left) :
    Reads link (receiveFrame s.transport none).run s unread (.error .broken) s left := by
  cases h with
  | @refused length _ hadmits =>
    refine reads_startFrame hcut hreader length _ ?_
    rw [receiveRest]
    simp only [hadmits, Bool.not_false, if_true]
    exact .bind_error (.pure _ _ _)
  | @broken length part hadmits hshort =>
    refine reads_startFrame hcut hreader length _ ?_
    rw [receiveRest]
    simp only [hadmits, Bool.not_true, Bool.false_eq_true, if_false]
    cases part with
    | nil => exact .bind_error (reads_receiveExactly_ended link hcut (by decide))
    | cons tag part =>
      have htag := reads_receiveExactly link hcut [tag] part
      rw [List.length_cons] at hshort
      exact htag.bind_ok (.bind_error (reads_receiveExactly_ended link hcut (by omega)))
  | ended hshort =>
    have hstate : Reads link (liftM Action.state : ExceptT ReadFault Action Session).run s
        unread (.ok s) s unread := (reads_state s _).bind (.pure _ _ _)
    refine hstate.bind_ok ?_
    rw [hreader]
    exact .bind_error (reads_receiveExactly_ended link hcut hshort)

end

def afterReading (s : Session) : Session := s.startReading.endReading s.readingCount

section

variable {link : LinkId} {s : Session} {unread unread' left : Bytes} {f : Frame} {fs : List Frame}

theorem reads_readFrame (h : Ready link s) {result : Except ReadFault Frame}
    (hresult : Reads link (receiveFrame s.transport none).run s.startReading unread result
      s.startReading unread') :
    Reads link (readFrame none) s unread result s.afterReading unread' := by
  have hturn : foresee link s.startReading unread (.awaitTurn s.readingCount none) =
      some (true, s.startReading, unread) := by
    refine if_pos ?_
    rw [startReading, h.readings]
    rfl
  have hbefore : Reads link Action.startReading s unread s s.startReading unread := .request rfl
  have hgo : Reads link (Action.awaitTurn s.readingCount none) s.startReading unread true
      s.startReading unread := .request hturn
  have hend : Reads link (Action.modify (endReading s.readingCount)) s.startReading unread' ()
      s.afterReading unread' := (reads_update (fun hs => hs) unread').bind (.pure _ _ _)
  exact hbefore.bind (hgo.bind (hresult.bind (hend.bind (.pure _ _ _))))

theorem Ready.afterReading (h : Ready link s) : Ready link s.afterReading := by
  constructor
  · exact h.closed
  · exact h.cut
  · exact h.reader
  · change (s.readings ++ [s.readingCount]).filter (· ≠ s.readingCount) = []
    rw [h.readings]
    simp

theorem reads_readMessage (h : Ready link s) (hsplits : Frame.Splits unread (f :: fs) left) :
    ∃ s' rest, Ready link s' ∧ Frame.Splits rest fs left ∧
      Reads link (readMessage none) s unread (some f) s' rest := by
  obtain ⟨rest, hrest, hframe⟩ :=
    reads_receiveFrame (s := s.startReading) h.cut h.reader hsplits
  refine ⟨s.afterReading, rest, h.afterReading, hrest, (reads_state s unread).bind ?_⟩
  rw [h.closed]
  exact (reads_readFrame h hframe).bind (.pure _ _ _)

theorem reads_readMessage_broken (h : Ready link s) (hsplits : Frame.Splits unread [] left) :
    ∃ s', s'.closed = true ∧ Reads link (readMessage none) s unread none s' left := by
  have hframe := reads_receiveFrame_broken (s := s.startReading) h.cut h.reader hsplits
  have hshut := reads_shut link h.afterReading.closed left
  refine ⟨s.afterReading.close, closed_close _, (reads_state s unread).bind ?_⟩
  rw [h.closed]
  exact (reads_readFrame h hframe).bind (hshut.bind (.pure _ _ _))

end

end BlockSync.Session

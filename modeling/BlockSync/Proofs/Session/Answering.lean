import BlockSync.Proofs.Session.Fatal
import BlockSync.Proofs.Session.Timeless

/-! How messages of time are handled, whatever the operations on the way answer. A probe is answered
by one message, an answer is compared with the probe that is waited for, and answers are not
answered. -/

namespace BlockSync

namespace TimeStamps

def IsProbe (m : TimeStamps) : Prop := m.isValid = true ∧ m.origin = 0
def IsReply (m : TimeStamps) : Prop := m.isValid = true ∧ m.origin ≠ 0

/-- The answer to a probe. -/
def answer (m : TimeStamps) (now : Int64) : TimeStamps :=
  { origin := m.transmit, receive := now, transmit := now }

theorem IsProbe.answer_origin {m : TimeStamps} (h : m.IsProbe) (now : Int64) :
    (m.answer now).origin ≠ 0 := by
  have hvalid := h.1
  rw [isValid, bne_iff_ne] at hvalid
  exact hvalid

end TimeStamps

namespace Session

open BlockSync.Session.Action

/-- What becomes of the memory of a peer that sent a message which is no probe. -/
def settle (m : TimeStamps) (now : Int64) (p : PeerState) : PeerState :=
  if p.probe.map (·.transmit) = some m.origin then
    (p.setLatency (elapsed now m.origin)).setProbe none
  else p

/-- The deeds of a program until something is left of it. -/
inductive Trail {α : Type} : Action α → List Deed → Action α → Prop
  | here (p) : Trail p [] p
  | ask {op next r ds q} : Trail (next r) ds q → Trail (.ask op next) (⟨op, r⟩ :: ds) q

section

variable {α β : Type} {p q : Action α} {ds : List Deed}

theorem Trail.concat {op : Op} {next : interface.Answer op → Action α}
    (h : Trail p ds (.ask op next)) (r : interface.Answer op) :
    Trail p (ds ++ [⟨op, r⟩]) (next r) := by
  generalize hq : Program.ask (I := interface) op next = q at h
  induction h with
  | here p =>
    subst hq
    exact .ask (.here _)
  | ask _ ih => exact .ask (ih hq)

theorem Trail.of_done {a : α} (h : Trail (.done a) ds q) : ds = [] ∧ q = .done a := by
  cases h
  exact ⟨rfl, rfl⟩

theorem Trail.of_ask {o : Op} {f : interface.Answer o → Action β} {q : Action β}
    (h : Trail (Program.request (I := interface) o >>= f) ds q) :
    (ds = [] ∧ q = Program.request (I := interface) o >>= f) ∨
      ∃ r ds', ds = ⟨o, r⟩ :: ds' ∧ Trail (f r) ds' q := by
  cases h with
  | here => exact .inl ⟨rfl, rfl⟩
  | ask h => exact .inr ⟨_, _, rfl, h⟩

theorem Trail.of_bind {f : α → Action β} {q : Action β} (h : Trail (p >>= f) ds q) :
    (∃ p', Trail p ds p' ∧ q = p' >>= f) ∨
      ∃ ds₁ a ds₂, ds = ds₁ ++ ds₂ ∧ Trail p ds₁ (.done a) ∧ Trail (f a) ds₂ q := by
  induction p generalizing ds with
  | done a => exact .inr ⟨[], a, ds, rfl, .here _, h⟩
  | ask op next ih =>
    cases h with
    | here => exact .inl ⟨_, .here _, rfl⟩
    | @ask _ _ r _ _ h =>
      rcases ih r h with ⟨p', hp', hq⟩ | ⟨ds₁, a, ds₂, rfl, hds₁, hds₂⟩
      · exact .inl ⟨p', .ask hp', hq⟩
      · exact .inr ⟨_, a, ds₂, rfl, .ask hds₁, hds₂⟩

theorem Trail.of_map {g : α → β} {q : Action β} (h : Trail (do return g (← p)) ds q) :
    ∃ p', Trail p ds p' ∧ q = do return g (← p') := by
  rcases Trail.of_bind (f := fun a => Pure.pure (g a)) h with
    ⟨p', hp', rfl⟩ | ⟨ds₁, a, ds₂, rfl, hds₁, hds₂⟩
  · exact ⟨p', hp', rfl⟩
  · obtain ⟨rfl, rfl⟩ := hds₂.of_done
    rw [List.append_nil]
    exact ⟨_, hds₁, rfl⟩

theorem done_of_map {g : α → β} {b : β} (h : (do return g (← p)) = (.done b : Action β)) :
    ∃ a, p = .done a := by
  cases p with
  | done a => exact ⟨a, rfl⟩
  | ask => cases h

theorem Trail.within {asks : Op → Prop} (h : Trail p ds q)
    (hp : p.Within asks fun _ _ => True) :
    (∀ d ∈ ds, asks d.op) ∧ q.Within asks fun _ _ => True := by
  induction h with
  | here => exact ⟨List.forall_mem_nil _, hp⟩
  | @ask op next r ds q _ ih =>
    obtain ⟨hds, hq⟩ := ih (hp.2 r trivial)
    exact ⟨List.forall_mem_cons.mpr ⟨hp.1, hds⟩, hq⟩

end

def Op.isMarked : Op → Bool
  | .send _ _ | .updatePeer _ => true
  | _ => false

def Op.frame? : Op → Option Bytes
  | .send _ frame => some frame
  | _ => none

def marks (ds : List Deed) : List Op := (ds.map Deed.op).filter Op.isMarked

def framesOf (ds : List Deed) : List Bytes := ds.filterMap fun d => d.op.frame?

/-- Whether the session was found without a transport to write to. -/
def Detached (ds : List Deed) : Prop :=
  ∃ before : Session, ⟨.update id, before⟩ ∈ ds ∧ (before.closed = true ∨ before.writer = none)

section

variable {α : Type} {p q : Action α} {ds : List Deed}

theorem framesOf_eq (ds : List Deed) : framesOf ds = (marks ds).filterMap Op.frame? := by
  induction ds with
  | nil => rfl
  | cons d ds ih =>
    obtain ⟨op, r⟩ := d
    cases op with
    | send link frame => exact congrArg (frame :: ·) ih
    | _ => exact ih

theorem Trail.marks_nil (h : Trail p ds q)
    (hp : p.Within (fun op : Op => op.isMarked = false) fun _ _ => True) : marks ds = [] := by
  rw [marks, List.filter_eq_nil_iff]
  intro op hop
  obtain ⟨d, hd, rfl⟩ := List.mem_map.mp hop
  rw [(h.within hp).1 d hd]
  exact Bool.false_ne_true

theorem carries_unmarked : Carries fun op => op.isMarked = false where
  look := rfl
  close := rfl
  hangUp _ := rfl
  ignore _ := rfl

end

def Reacts (m : TimeStamps) (ds : List Deed) : Prop :=
  ∃ now, ⟨.clock, now⟩ ∈ ds ∧
    (m.IsProbe ∧ (∃ link, marks ds = [.send link (Message.time (m.answer now)).frame]) ∨
      m.IsReply ∧ marks ds = [.updatePeer (settle m now)])

section

variable {settings : Settings} {m : TimeStamps} {frame : Frame} {ds : List Deed} {q : Action Bool}

theorem marks_send {m : Message} (h : Trail (send m) ds q) :
    marks ds = [] ∧ (∀ sent, q = .done sent → Detached ds) ∨
      ∃ link, marks ds = [.send link m.frame] := by
  rcases Trail.of_ask h with ⟨rfl, rfl⟩ | ⟨s, ds, rfl, hrest⟩
  · exact .inl ⟨rfl, fun _ hq => nomatch hq⟩
  change Session at s
  have hseen : (⟨.update id, s⟩ : Deed) ∈ ⟨.update id, s⟩ :: ds := List.mem_cons_self
  split at hrest
  · next hclosed =>
    obtain ⟨rfl, -⟩ := hrest.of_done
    exact .inl ⟨rfl, fun _ _ => ⟨s, hseen, .inl hclosed⟩⟩
  cases hwriter : s.writer with
  | none =>
    rw [hwriter] at hrest
    have hquiet : marks ds = [] :=
      hrest.marks_nil (Program.Within.bind (p := shut) carries_unmarked.shut fun _ => trivial)
    exact .inl ⟨hquiet, fun _ _ => ⟨s, hseen, .inr hwriter⟩⟩
  | some link =>
    rw [hwriter] at hrest
    rcases Trail.of_ask (o := .send link m.frame) hrest with
      ⟨rfl, rfl⟩ | ⟨sent, ds, rfl, hend⟩
    · exact .inl ⟨rfl, fun _ hq => nomatch hq⟩
    right
    refine ⟨link, ?_⟩
    have hquiet : marks ds = [] := by
      refine hend.marks_nil ?_
      split
      · exact .bind carries_unmarked.shut fun _ => trivial
      · trivial
    change .send link m.frame :: marks ds = _
    rw [hquiet]

theorem marks_handleTime (h : Trail (handleTime m) ds q) :
    marks ds = [] ∧ (∀ go, q = .done go → m.IsProbe → Detached ds) ∨ Reacts m ds := by
  rcases Trail.of_ask (o := .clock) h with ⟨rfl, rfl⟩ | ⟨now, ds, rfl, hrest⟩
  · exact .inl ⟨rfl, fun _ hq => nomatch hq⟩
  change Int64 at now
  split at hrest
  · next hinvalid =>
    obtain ⟨rfl, -⟩ := hrest.of_done
    refine .inl ⟨rfl, fun _ _ hprobe => ?_⟩
    rw [hprobe.1] at hinvalid
    cases hinvalid
  next hvalid =>
  rw [Bool.not_eq_true, Bool.not_eq_false'] at hvalid
  split at hrest
  · next horigin =>
    rcases marks_send hrest with ⟨hnone, hdetached⟩ | ⟨link, hmarks⟩
    · refine .inl ⟨hnone, fun go hgo _ => ?_⟩
      obtain ⟨before, hbefore, hmissing⟩ := hdetached go hgo
      exact ⟨before, List.mem_cons_of_mem _ hbefore, hmissing⟩
    · exact .inr ⟨now, List.mem_cons_self, .inl ⟨⟨hvalid, horigin⟩, link, hmarks⟩⟩
  · next horigin =>
    rcases Trail.of_ask (o := .updatePeer (settle m now)) hrest with
      ⟨rfl, rfl⟩ | ⟨before, ds, rfl, hend⟩
    · exact .inl ⟨rfl, fun _ hq => nomatch hq⟩
    obtain ⟨rfl, -⟩ := hend.of_done
    exact .inr ⟨now, List.mem_cons_self, .inr ⟨⟨hvalid, horigin⟩, rfl⟩⟩

theorem marks_handleFrame (hm : frame.stamps? = some m)
    (h : Trail (handleFrame settings frame) ds q) :
    marks ds = [] ∧ (∀ go, q = .done go → m.IsProbe → ⟨.isStopping, true⟩ ∈ ds ∨ Detached ds) ∨
      Reacts m ds := by
  rcases Trail.of_ask (o := .isStopping) h with ⟨rfl, rfl⟩ | ⟨stopping, ds, rfl, hrest⟩
  · exact .inl ⟨rfl, fun _ hq => nomatch hq⟩
  change Bool at stopping
  cases stopping with
  | true =>
    obtain ⟨rfl, -⟩ := hrest.of_done
    exact .inl ⟨rfl, fun _ _ _ => .inl List.mem_cons_self⟩
  | false =>
    have hread := Frame.ofPayload_of_message? (Frame.message?_of_stamps? hm)
    rw [if_neg Bool.false_ne_true, hread] at hrest
    obtain ⟨p', hp', hq⟩ := Trail.of_map (g := fun _ => true) hrest
    rcases marks_handleTime hp' with ⟨hnone, hdetached⟩ | ⟨now, hnow, hmarks⟩
    · refine .inl ⟨hnone, fun go hgo hprobe => ?_⟩
      obtain ⟨go', hgo'⟩ := done_of_map (hq.symm.trans hgo)
      obtain ⟨before, hbefore, hmissing⟩ := hdetached go' hgo' hprobe
      exact .inr ⟨before, List.mem_cons_of_mem _ hbefore, hmissing⟩
    · exact .inr ⟨now, List.mem_cons_of_mem _ hnow, hmarks⟩

/-- A probe is answered by one frame, unless a shutdown was requested or there is nothing to write
to. Nothing else is answered. -/
theorem framesOf_handleFrame (hm : frame.stamps? = some m)
    (h : Trail (handleFrame settings frame) ds q) :
    framesOf ds = [] ∧ (∀ go, q = .done go → m.IsProbe → ⟨.isStopping, true⟩ ∈ ds ∨ Detached ds) ∨
      m.IsProbe ∧ ∃ now, ⟨.clock, now⟩ ∈ ds ∧
        framesOf ds = [(Message.time (m.answer now)).frame] := by
  rw [framesOf_eq]
  rcases marks_handleFrame hm h with
    ⟨hnone, hwhy⟩ | ⟨now, hnow, ⟨hprobe, link, hmarks⟩ | ⟨hreply, hmarks⟩⟩
  · rw [hnone]
    exact .inl ⟨rfl, hwhy⟩
  · rw [hmarks]
    exact .inr ⟨hprobe, now, hnow, rfl⟩
  · rw [hmarks]
    exact .inl ⟨rfl, fun _ _ hprobe => absurd hprobe.2 hreply.2⟩

theorem framesOf_handle_answer (hm : m.IsProbe) (now : Int64)
    (h : Trail (handleFrame settings (Frame.ofWritten (Message.time (m.answer now)).frame)) ds q) :
    framesOf ds = [] := by
  rcases framesOf_handleFrame (Frame.stamps?_time _) h with ⟨hnone, -⟩ | ⟨hprobe, -⟩
  · exact hnone
  · exact absurd hprobe.2 (hm.answer_origin now)

end

end Session

end BlockSync

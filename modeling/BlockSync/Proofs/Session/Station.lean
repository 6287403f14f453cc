import BlockSync.Proofs.Session.Exits
import BlockSync.Proofs.Session.Probes
import Mathlib.Data.List.Perm.Subperm

/-! The keeping of time at a session. Heartbeats, readings and the handling of messages go on one
operation at a time, any number of them in any order, and others at the session may come in between.
What happens along a run is put together from the stories of its tasks. -/

namespace BlockSync.Session

open BlockSync.Session.Action

structure Station where
  session : Session := {}
  tasks : List (Task × List Deed) := []

/-- One operation of a task, or a turn from one task to the next. -/
inductive Station.Step (settings : Settings) (s : Station) : Option Moment → Station → Prop
  | listen : Step settings s none { s with tasks := (.listen, []) :: s.tasks }
  | begin (a : Activity) : Step settings s none { s with tasks := (.beside a, []) :: s.tasks }
  | go {before rest k ds op next r} : s.tasks = before ++ (k, ds) :: rest →
      Trail (k.program settings) ds (.ask op next) → s.session.Allows op r →
      Step settings s (op.moment? k.hand)
        { session := s.session.after op, tasks := before ++ (k, ds ++ [⟨op, r⟩]) :: rest }
  | pass {before rest k ds k'} : s.tasks = before ++ (k, ds) :: rest →
      Trail (k.program settings) ds (.done (some k')) →
      Step settings s (k'.hand.map .heard) { s with tasks := before ++ (k', []) :: rest }
  | drop {before rest task} : s.tasks = before ++ task :: rest →
      Step settings s none { s with tasks := before ++ rest }
  | elsewhere (t : Session) : t.peer.probe = s.session.peer.probe →
      Step settings s (some .elsewhere) { s with session := t }
  | forget (t : Session) : t.peer.probe = none →
      Step settings s (some .forgot) { s with session := t }

inductive Station.Run (settings : Settings) : History → Station → Prop
  | new : Run settings [] {}
  | step {h s moment? t} : Run settings h s → Step settings s moment? t →
      Run settings (moment?.toList ++ h) t

/-- The tasks of a run, those that are over too, and what others did. -/
structure Told (settings : Settings) (h : History) (tasks : List (Task × List Deed))
    (others : History) : Prop where
  trails : ∀ x ∈ tasks, ∃ q, Trail (x.1.program settings) x.2 q
  outside : ∀ x ∈ others, x = .elsewhere ∨ x = .forgot
  perm : h.Perm (tasks.flatMap (fun x => x.1.history x.2) ++ others)

/-- Each answer that was written belongs to a probe of its own that was heard, and each probe that
was written to one that was noted. -/
structure History.Balanced (h : History) : Prop where
  answers : (h.wrote.filterMap TimeStamps.return?).Subperm (h.heard.filterMap TimeStamps.departure?)
  probes : (h.wrote.filterMap TimeStamps.departure?).Subperm h.noted

section

variable {settings : Settings} {h others : History} {tasks tasks' rest : List (Task × List Deed)}

theorem Story.balanced (hs : Story h) : h.Balanced := by
  cases hs with
  | nothing | hearing | noting | comparing => exact ⟨List.nil_subperm, List.nil_subperm⟩
  | @answering m now hm =>
    have hanswer : [m.answer now].filterMap TimeStamps.return? = [m.transmit] :=
      List.filterMap_cons_some (if_neg (hm.answer_origin now))
    have hprobe : [m].filterMap TimeStamps.departure? = [m.transmit] :=
      List.filterMap_cons_some (if_pos hm.2)
    have hnone : [m.answer now].filterMap TimeStamps.departure? = [] :=
      List.filterMap_cons_none (if_neg (hm.answer_origin now))
    constructor
    · change ([m.answer now].filterMap _).Subperm ([m].filterMap _)
      rw [hanswer, hprobe]
    · change ([m.answer now].filterMap _).Subperm _
      rw [hnone]
      exact List.nil_subperm
  | probing departure => exact ⟨List.nil_subperm, List.Subperm.refl _⟩

theorem Told.subperm {spent earned : Moment → Option Int64} (ht : Told settings h tasks others)
    (hstory : ∀ l, Story l → (l.filterMap spent).Subperm (l.filterMap earned))
    (helsewhere : spent .elsewhere = none) (hforgot : spent .forgot = none) :
    (h.filterMap spent).Subperm (h.filterMap earned) := by
  have htasks (l : List (Task × List Deed))
      (hl : ∀ x ∈ l, ∃ q, Trail (x.1.program settings) x.2 q) :
      ((l.flatMap fun x => x.1.history x.2).filterMap spent).Subperm
        ((l.flatMap fun x => x.1.history x.2).filterMap earned) := by
    induction l with
    | nil => exact List.nil_subperm
    | cons x l ih =>
      obtain ⟨⟨q, hq⟩, hrest⟩ := List.forall_mem_cons.mp hl
      rw [List.flatMap_cons, List.filterMap_append, List.filterMap_append]
      exact (hstory _ (Task.story settings x.1 hq)).append (ih hrest)
  have hothers : others.filterMap spent = [] := by
    refine List.filterMap_eq_nil_iff.mpr fun x hx => ?_
    rcases ht.outside x hx with rfl | rfl
    · exact helsewhere
    · exact hforgot
  have hspent := ht.perm.filterMap spent
  have hearned := ht.perm.filterMap earned
  rw [List.filterMap_append] at hspent hearned
  rw [hothers, List.append_nil] at hspent
  refine hspent.subperm.trans ((htasks tasks ht.trails).trans ?_)
  exact (List.sublist_append_left _ _).subperm.trans hearned.symm.subperm

theorem Told.balanced (ht : Told settings h tasks others) : h.Balanced := by
  constructor
  · rw [History.wrote, History.heard, List.filterMap_filterMap, List.filterMap_filterMap]
    refine ht.subperm (fun l hl => ?_) rfl rfl
    have hbalanced := hl.balanced.answers
    rwa [History.wrote, History.heard, List.filterMap_filterMap, List.filterMap_filterMap]
      at hbalanced
  · rw [History.wrote, List.filterMap_filterMap]
    refine ht.subperm (fun l hl => ?_) rfl rfl
    have hbalanced := hl.balanced.probes
    rwa [History.wrote, List.filterMap_filterMap] at hbalanced

theorem Told.reorder (ht : Told settings h tasks others) (htasks : tasks'.Perm tasks) :
    Told settings h tasks' others where
  trails x hx := ht.trails x (htasks.subset hx)
  outside := ht.outside
  perm := ht.perm.trans ((htasks.flatMap_right _).symm.append_right others)

theorem Told.begin (ht : Told settings h tasks others) (k : Task)
    (htasks : tasks'.Perm ((k, []) :: tasks)) :
    Told settings ((k.hand.map .heard).toList ++ h) tasks' others := by
  refine Told.reorder ⟨?_, ht.outside, ?_⟩ htasks
  · exact List.forall_mem_cons.mpr ⟨⟨_, .here _⟩, ht.trails⟩
  · rw [List.flatMap_cons, Task.history, List.append_assoc, List.append_assoc]
    exact ht.perm.append_left _

theorem Told.go {k : Task} {ds : List Deed} {d : Deed} {q : Action (Option Task)}
    (ht : Told settings h tasks others) (hd : Trail (k.program settings) (ds ++ [d]) q)
    (htasks : tasks.Perm ((k, ds) :: rest)) (htasks' : tasks'.Perm ((k, ds ++ [d]) :: rest)) :
    Told settings ((d.op.moment? k.hand).toList ++ h) tasks' others := by
  have hbefore := ht.reorder htasks.symm
  refine Told.reorder ⟨?_, ht.outside, ?_⟩ htasks'
  · exact List.forall_mem_cons.mpr ⟨⟨q, hd⟩, (List.forall_mem_cons.mp hbefore.trails).2⟩
  · have hlast : k.history (ds ++ [d]) = k.history ds ++ (d.op.moment? k.hand).toList := by
      rw [Task.history, momentsOf, List.filterMap_append, ← List.append_assoc, List.filterMap_cons]
      cases d.op.moment? k.hand <;> rfl
    rw [List.flatMap_cons, hlast, List.append_assoc, List.append_assoc]
    refine (hbefore.perm.append_left _).trans ?_
    rw [List.flatMap_cons, List.append_assoc]
    exact List.perm_append_comm_assoc _ _ _

end

theorem settle_probe (m : TimeStamps) (now : Int64) (p : PeerState) :
    (settle m now p).probe.map (·.transmit) =
      if p.probe.map (·.transmit) = some m.origin then none else p.probe.map (·.transmit) := by
  unfold settle
  split
  · rfl
  · rfl

namespace Station

def Effect (s t : Station) : Option Moment → Prop
  | some (.noted departure) => ∃ transport ds, (.beside (.heartbeat transport), ds) ∈ s.tasks ∧
      ⟨.clock, departure⟩ ∈ ds ∧ t.session.peer.probe.map (·.transmit) = some departure ∧
      t.session.peer.latency = s.session.peer.latency
  | some (.compared m) => ∃ frame ds now, (.handle frame, ds) ∈ s.tasks ∧
      frame.stamps? = some m ∧ ⟨.clock, now⟩ ∈ ds ∧ m.IsReply ∧
      t.session = s.session.mapPeer (settle m now)
  | some .elsewhere => t.session.peer.probe = s.session.peer.probe
  | some .forgot => t.session.peer.probe = none
  | _ => t.session.peer.probe = s.session.peer.probe ∧
      t.session.peer.latency = s.session.peer.latency

variable {settings : Settings} {h : History} {s t : Station} {moment? : Option Moment}

theorem Effect.of_asks {k : Task} {ds : List Deed} {op : Op} (hk : (k, ds) ∈ s.tasks)
    (ho : k.Asks ds op) (tasks : List (Task × List Deed)) :
    s.Effect ⟨s.session.after op, tasks⟩ (op.moment? k.hand) := by
  cases op with
  | update f =>
    have hpeer : (f s.session).peer = s.session.peer := Tidy.peer ho _
    exact ⟨congrArg _ hpeer, congrArg _ hpeer⟩
  | updatePeer f =>
    unfold Task.Asks at ho
    cases hhand : k.hand with
    | some m =>
      rw [hhand] at ho
      obtain ⟨hreply, now, hnow, rfl⟩ := ho
      cases k with
      | listen | beside => cases hhand
      | handle frame => exact ⟨frame, ds, now, hk, hhand, hnow, hreply, rfl⟩
    | none =>
      rw [hhand] at ho
      rcases ho with hkeeps | ⟨⟨transport, rfl⟩, now, hnow, rfl⟩
      · rw [hkeeps.moment?_eq, Option.map_none]
        exact hkeeps s.session.peer
      · exact ⟨transport, ds, hk, hnow, rfl, rfl⟩
  | send link frame =>
    rw [Op.moment?]
    cases (Frame.ofWritten frame).stamps? <;> exact ⟨rfl, rfl⟩
  | _ => exact ⟨rfl, rfl⟩

theorem Step.effect (h : Step settings s moment? t) : s.Effect t moment? := by
  cases h with
  | listen | begin | drop => exact ⟨rfl, rfl⟩
  | @go _ _ k ds op next r htasks htrail hr =>
    have hk : (k, ds) ∈ s.tasks := by
      rw [htasks]
      exact List.mem_append_right _ List.mem_cons_self
    exact .of_asks hk (Task.asks settings htrail r) _
  | @pass _ _ _ _ k' htasks htrail =>
    cases k'.hand <;> exact ⟨rfl, rfl⟩
  | elsewhere t ht => exact ht
  | forget t ht => exact ht

/-- A history is put together from the stories of its tasks. -/
theorem Run.told (hrun : Run settings h s) :
    ∃ past others, Told settings h (past ++ s.tasks) others := by
  induction hrun with
  | new => exact ⟨[], [], nofun, nofun, .refl _⟩
  | @step h s moment? t _ hstep ih =>
    obtain ⟨past, others, htold⟩ := ih
    have hmiddle (x : Task × List Deed) (before rest : List (Task × List Deed)) :
        (past ++ (before ++ x :: rest)).Perm (x :: (past ++ (before ++ rest))) :=
      (List.perm_middle.append_left past).trans List.perm_middle
    cases hstep with
    | listen => exact ⟨past, others, htold.begin .listen List.perm_middle⟩
    | begin a => exact ⟨past, others, htold.begin (.beside a) List.perm_middle⟩
    | @go before rest k ds op next r htasks htrail hr =>
      rw [htasks] at htold
      exact ⟨past, others, htold.go (htrail.concat r) (hmiddle _ _ _) (hmiddle _ _ _)⟩
    | @pass before rest k ds k' htasks htrail =>
      -- The task that is over moves to the past, and the one that follows it is new.
      rw [htasks] at htold
      refine ⟨(k, ds) :: past, others, htold.begin k' ?_⟩
      exact ((hmiddle _ _ _).cons _).trans (.trans (.swap _ _ _) ((hmiddle _ _ _).symm.cons _))
    | @drop before rest task htasks =>
      rw [htasks] at htold
      exact ⟨task :: past, others, htold.reorder (hmiddle _ _ _).symm⟩
    | elsewhere t ht =>
      refine ⟨past, .elsewhere :: others, htold.trails, ?_, ?_⟩
      · exact List.forall_mem_cons.mpr ⟨.inl rfl, htold.outside⟩
      · exact (htold.perm.cons _).trans List.perm_middle.symm
    | forget t ht =>
      refine ⟨past, .forgot :: others, htold.trails, ?_, ?_⟩
      · exact List.forall_mem_cons.mpr ⟨.inr rfl, htold.outside⟩
      · exact (htold.perm.cons _).trans List.perm_middle.symm

/-- The probe of a session is the latest one that was neither answered nor forgotten. -/
theorem Run.awaited_eq (hrun : Run settings h s) :
    s.session.peer.probe.map (·.transmit) = h.awaited := by
  induction hrun with
  | new => rfl
  | @step h s moment? t _ hstep ih =>
    have heffect := hstep.effect
    match moment? with
    | some (.noted departure) =>
      obtain ⟨transport, ds, -, -, hprobe, -⟩ := heffect
      exact hprobe
    | some (.compared m) =>
      obtain ⟨frame, ds, now, -, -, -, -, ht⟩ := heffect
      rw [ht]
      change (settle m now s.session.peer).probe.map _ = History.awaited (.compared m :: h)
      rw [settle_probe, ih, History.awaited_compared]
    | some .elsewhere =>
      change t.session.peer.probe = s.session.peer.probe at heffect
      rw [heffect]
      exact ih
    | some .forgot =>
      change t.session.peer.probe = none at heffect
      rw [heffect]
      rfl
    | some (.heard m) | some (.wrote m) | none =>
      rw [heffect.1]
      exact ih

/-- What one step makes of the latency after a history. It changes only when what is compared gives
back the departure of the probe that is waited for, and that probe is then waited for no more. -/
def Keeps (h : History) (s t : Station) : Option Moment → Prop
  | some (.noted departure) => ∃ transport ds, (.beside (.heartbeat transport), ds) ∈ s.tasks ∧
      ⟨.clock, departure⟩ ∈ ds ∧ t.session.peer.latency = s.session.peer.latency
  | some (.compared m) => ∃ frame ds now, (.handle frame, ds) ∈ s.tasks ∧
      frame.stamps? = some m ∧ ⟨.clock, now⟩ ∈ ds ∧ m.IsReply ∧
      if h.awaited = some m.origin then
        t.session.peer.latency = elapsed now m.origin ∧ t.session.peer.probe = none
      else t.session = s.session
  | some .elsewhere | some .forgot => True
  | _ => t.session.peer.latency = s.session.peer.latency

theorem Effect.keeps (ha : s.session.peer.probe.map (·.transmit) = h.awaited)
    (ht : s.Effect t moment?) : Keeps h s t moment? := by
  match moment? with
  | some (.noted departure) =>
    obtain ⟨transport, ds, htask, hnow, -, hlatency⟩ := ht
    exact ⟨transport, ds, htask, hnow, hlatency⟩
  | some (.compared m) =>
    obtain ⟨frame, ds, now, htask, hm, hnow, hreply, heq⟩ := ht
    refine ⟨frame, ds, now, htask, hm, hnow, hreply, ?_⟩
    rw [heq, ← ha, mapPeer, settle]
    split
    · exact ⟨rfl, rfl⟩
    · rfl
  | some .elsewhere | some .forgot => trivial
  | some (.heard m) | some (.wrote m) | none => exact ht.2

end Station

theorem History.settled_subperm (h : History) :
    (h.settled ++ h.awaited.toList).Subperm h.noted := by
  -- The probe that is waited for is in the account, so that it cannot be used again.
  induction h with
  | nil => exact List.nil_subperm
  | cons x h ih =>
    have hsettled : (settled h).Subperm (noted h) :=
      (List.sublist_append_left _ _).subperm.trans ih
    cases x with
    | noted departure =>
      exact List.perm_append_comm.subperm.trans ((List.subperm_cons departure).mpr hsettled)
    | compared m =>
      change (settled (.compared m :: h) ++ (awaited (.compared m :: h)).toList).Subperm (noted h)
      rw [settled_compared, awaited_compared]
      split
      · next hawaited =>
        rw [hawaited] at ih
        rw [Option.toList_none, List.append_nil]
        exact List.perm_append_comm.subperm.trans ih
      · exact ih
    | forgot =>
      change (settled h ++ []).Subperm (noted h)
      rwa [List.append_nil]
    | heard | wrote | elsewhere => exact ih

/-- The time protocol. Whatever the operations on the way answer, a message of time is answered only
if it is a probe, by one message that gives its departure back, and no engine answers that one. In
every run the latency changes only when a valid message gives back the departure of the latest probe
that a heartbeat noted and that was neither answered nor forgotten, which is then waited for no more;
each probe is answered once at most. And where an engine hears nothing but what another one wrote,
each of its answers belongs to a heartbeat of the other one. -/
theorem probes_are_answered_once (settings : Settings) :
    (∀ frame m ds q, Frame.stamps? frame = some m → Trail (handleFrame settings frame) ds q →
      framesOf ds = [] ∧
        (∀ go, q = .done go → m.IsProbe → ⟨.isStopping, true⟩ ∈ ds ∨ Detached ds) ∨
      m.IsProbe ∧ ∃ now, ⟨.clock, now⟩ ∈ ds ∧
        framesOf ds = [(Message.time (m.answer now)).frame]) ∧
    (∀ (m : TimeStamps) now other ds q, m.IsProbe →
      Trail (handleFrame other (Frame.ofWritten (Message.time (m.answer now)).frame)) ds q →
      framesOf ds = []) ∧
    (∀ h s, Station.Run settings h s →
      h.settled.Subperm h.noted ∧
      ∀ moment? t, Station.Step settings s moment? t → Station.Keeps h s t moment?) ∧
    (∀ other h s h' s', Station.Run settings h s → Station.Run other h' s' →
      h.heard.Subperm h'.wrote →
      (h.wrote.filterMap TimeStamps.return?).Subperm h'.noted) := by
  refine ⟨?_, ?_, ?_, ?_⟩
  · exact fun frame m ds q hm h => framesOf_handleFrame hm h
  · exact fun m now other ds q hm h => framesOf_handle_answer hm now h
  · intro h s hrun
    refine ⟨(List.sublist_append_left _ _).subperm.trans h.settled_subperm, ?_⟩
    exact fun moment? t hstep => hstep.effect.keeps hrun.awaited_eq
  · intro other h s h' s' hrun hrun' hlink
    obtain ⟨past, others, htold⟩ := hrun.told
    obtain ⟨past', others', htold'⟩ := hrun'.told
    obtain ⟨l, hperm, hsublist⟩ := hlink
    have hheard : (h.heard.filterMap TimeStamps.departure?).Subperm
        (h'.wrote.filterMap TimeStamps.departure?) :=
      ⟨_, hperm.filterMap _, hsublist.filterMap _⟩
    exact htold.balanced.answers.trans (hheard.trans htold'.balanced.probes)

def carryOut {α : Type} (answers : Session → (op : Op) → interface.Answer op)
    (hand : Option TimeStamps) :
    Action α → History → List Deed → Session → History × List Deed × α × Session
  | .done a, h, ds, s => (h, ds, a, s)
  | .ask op next, h, ds, s =>
    carryOut answers hand (next (answers s op)) ((op.moment? hand).toList ++ h)
      (ds ++ [⟨op, answers s op⟩]) (s.after op)

def carryOutTask (answers : Session → (op : Op) → interface.Answer op) (settings : Settings)
    (k : Task) (x : History × Session) : History × Session :=
  match carryOut answers k.hand (k.program settings) x.1 [] x.2 with
  | (h, _, some (.handle frame), s) =>
    let k' := Task.handle frame
    let begun := (k'.hand.map .heard).toList ++ h
    let out := carryOut answers k'.hand (k'.program settings) begun [] s
    (out.1, out.2.2.2)
  | (h, _, _, s) => (h, s)

section

variable {settings : Settings} {answers : Session → (op : Op) → interface.Answer op}

theorem Station.Run.carryOut (hanswers : ∀ (s : Session) op, s.Allows op (answers s op)) {k : Task}
    {p : Action (Option Task)} {h : History} {s : Session} {ds : List Deed}
    (hrun : Station.Run settings h ⟨s, [(k, ds)]⟩) (hp : Trail (k.program settings) ds p) :
    let out := carryOut answers k.hand p h ds s
    Station.Run settings out.1 ⟨out.2.2.2, [(k, out.2.1)]⟩ ∧
      Trail (k.program settings) out.2.1 (.done out.2.2.1) := by
  induction p generalizing h s ds with
  | done a => exact ⟨hrun, hp⟩
  | ask op next ih =>
    have hstep : Station.Step settings ⟨s, [(k, ds)]⟩ (op.moment? k.hand)
        ⟨s.after op, [(k, ds ++ [⟨op, answers s op⟩])]⟩ :=
      @Station.Step.go settings _ [] [] _ _ _ _ _ rfl hp (hanswers s op)
    exact ih _ (hrun.step hstep) (hp.concat _)

theorem Station.Run.carryOutTask (hanswers : ∀ (s : Session) op, s.Allows op (answers s op))
    {k : Task} {h : History} {s : Session} (hrun : Station.Run settings h ⟨s, []⟩)
    (hk : Station.Step settings ⟨s, []⟩ none ⟨s, [(k, [])]⟩) :
    Station.Run settings (carryOutTask answers settings k (h, s)).1
      ⟨(carryOutTask answers settings k (h, s)).2, []⟩ := by
  have hdrop {h : History} {s : Session} {task : Task × List Deed}
      (hrun : Station.Run settings h ⟨s, [task]⟩) : Station.Run settings h ⟨s, []⟩ :=
    hrun.step (@Station.Step.drop settings ⟨s, [task]⟩ [] [] task rfl)
  have hbegun : Station.Run settings h ⟨s, [(k, [])]⟩ := hrun.step hk
  obtain ⟨hlast, htrail⟩ := hbegun.carryOut hanswers (.here _)
  unfold Session.carryOutTask
  generalize Session.carryOut answers k.hand (k.program settings) h [] s = out at hlast htrail ⊢
  obtain ⟨h', ds, next?, s'⟩ := out
  dsimp only at hlast htrail
  split
  · next heq =>
    cases heq
    have hpass := hlast.step (@Station.Step.pass settings _ [] [] _ _ _ rfl htrail)
    exact hdrop (hpass.carryOut hanswers (.here _)).1
  · next heq =>
    cases heq
    exact hdrop hlast

end

def clockWorld (now : Int64) (frame : Frame) (s : Session) : (op : Op) → interface.Answer op
  | .clock => now
  | op => frameWorld frame { session := s } op

theorem allows_clockWorld (now : Int64) (frame : Frame) (s : Session) (op : Op) :
    s.Allows op (clockWorld now frame s op) := by
  have hframe := (allows_frameWorld frame { session := s } op).session
  cases op with
  | clock => trivial
  | _ => exact hframe

def opened : Session := setConnected true (attach 0 {})

def probeFrame : Frame := Frame.ofWritten (Message.time (.probe 5)).frame
def answerFrame : Frame := Frame.ofWritten (Message.time ((TimeStamps.probe 5).answer 7)).frame

/-- An engine that sends a probe and receives its answer, twice. -/
def asking : History × Session :=
  let sent :=
    carryOutTask (clockWorld 5 answerFrame) {} (.beside (.heartbeat 1)) ([.elsewhere], opened)
  let settled := carryOutTask (clockWorld 9 answerFrame) {} .listen sent
  carryOutTask (clockWorld 11 answerFrame) {} .listen settled

/-- An engine that answers the probe. -/
def answering : History × Session :=
  carryOutTask (clockWorld 7 probeFrame) {} .listen ([.elsewhere], opened)

theorem run_opened : Station.Run {} [.elsewhere] ⟨opened, []⟩ := .step .new (.elsewhere opened rfl)

theorem run_asking : Station.Run {} asking.1 ⟨asking.2, []⟩ := by
  have hsent := run_opened.carryOutTask (allows_clockWorld 5 answerFrame) (.begin (.heartbeat 1))
  have hsettled := hsent.carryOutTask (allows_clockWorld 9 answerFrame) .listen
  exact hsettled.carryOutTask (allows_clockWorld 11 answerFrame) .listen

theorem run_answering : Station.Run {} answering.1 ⟨answering.2, []⟩ :=
  run_opened.carryOutTask (allows_clockWorld 7 probeFrame) .listen

theorem probes_are_answered_once_of_replay :
    asking.1.settled.Subperm asking.1.noted ∧ asking.1.settled = [5] ∧
      asking.2.peer.latency = 4 ∧
      (answering.1.wrote.filterMap TimeStamps.return?).Subperm asking.1.noted ∧
      answering.1.wrote = [(TimeStamps.probe 5).answer 7] := by
  have hasking : asking.1 = [.compared ((TimeStamps.probe 5).answer 7),
      .heard ((TimeStamps.probe 5).answer 7), .compared ((TimeStamps.probe 5).answer 7),
      .heard ((TimeStamps.probe 5).answer 7), .wrote (.probe 5), .noted 5, .elsewhere] := by
    decide +kernel
  have hanswering : answering.1 =
      [.wrote ((TimeStamps.probe 5).answer 7), .heard (.probe 5), .elsewhere] := by
    decide +kernel
  have hsettled : asking.1.settled = [5] := by
    rw [hasking]
    rfl
  have hlink : answering.1.heard.Subperm asking.1.wrote := by
    rw [hasking, hanswering]
    exact .refl _
  have hwrote : answering.1.wrote = [(TimeStamps.probe 5).answer 7] := by
    rw [hanswering]
    rfl
  obtain ⟨-, -, hruns, hpairs⟩ := probes_are_answered_once {}
  have hanswers := hpairs _ _ _ _ _ run_answering run_asking hlink
  exact ⟨(hruns _ _ run_asking).1, hsettled, by decide +kernel, hanswers, hwrote⟩

end BlockSync.Session

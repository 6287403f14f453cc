import BlockSync.Proofs.Session.Outlook

/-! Whole runs of the receive loop on a node whose link takes frames. One relation says what a
frame comes to, whatever it holds. A run greets the peer and then takes frame after frame, as long
as each of them lets it go on. Responders have no part in it, since they leave the node as it is. -/

namespace BlockSync.Session

open BlockSync.Chain (Engine)

variable {σ α : Type} {E : Engine σ} {settings : Settings} {n n' : Node σ} {es es' : List Event}

def evaluate (E : Engine σ) : Action α → Node σ → Option (α × Node σ × List Event)
  | .done a, n => some (a, n, [])
  | .ask op next, n =>
    match n.perform E op with
    | none => none
    | some (r, n', es) =>
      (evaluate E (next r) n').map fun (a, n'', es') => (a, n'', es ++ es')

theorem runs_iff_evaluate {p : Action α} {a : α} :
    Runs E p n a n' es ↔ evaluate E p n = some (a, n', es) := by
  constructor
  · intro h
    induction h with
    | done => rfl
    | ask ho _ ih => simp only [evaluate, ho, ih, Option.map_some]
  · intro h
    induction p generalizing n es with
    | done b =>
      cases h
      exact .done _ _
    | ask op next ih =>
      rw [evaluate] at h
      rcases hp : n.perform E op with _ | ⟨r, m, es₁⟩
      · rw [hp] at h
        cases h
      · rw [hp, Option.map_eq_some_iff] at h
        obtain ⟨⟨a', n'', es₂⟩, hr, he⟩ := h
        cases he
        exact .ask hp (ih r hr)

theorem applyAll_append (v : View σ) (es es' : List Event) :
    v.applyAll E (es ++ es') = (v.applyAll E es).applyAll E es' := List.foldl_append

theorem Runs.view_eq {p : Action α} {a : α} (h : Runs E p n a n' es) :
    n'.view = n.view.applyAll E es := by
  induction h with
  | done => rfl
  | ask ho _ ih => rw [ih, view_perform ho, applyAll_append]

theorem Runs.took_notMem {p : Action α} {a : α} (f : Frame) (h : Runs E p n a n' es) :
    .took f ∉ es := by
  induction h with
  | done => exact List.not_mem_nil
  | ask ho _ ih =>
    intro hf
    rcases List.mem_append.mp hf with hf | hf
    · exact took_notMem_of_perform f ho hf
    · exact ih hf

/-- Whether each event, on the view in which it occurs, is as it should be. -/
def Along (E : Engine σ) (P : View σ → Event → Prop) : View σ → List Event → Prop
  | _, [] => True
  | v, e :: es => P v e ∧ Along E P (v.apply E e) es

theorem along_append {P : View σ → Event → Prop} {v : View σ} :
    Along E P v (es ++ es') ↔ Along E P v es ∧ Along E P (v.applyAll E es) es' := by
  induction es generalizing v with
  | nil => exact (and_iff_right trivial).symm
  | cons e es ih =>
    rw [List.cons_append, Along, Along, ih, and_assoc]
    rfl

/-- The node after its session was closed. -/
def Node.left (n : Node σ) : Node σ := { n.mapSession close with linked := false }

theorem runs_shut (h : n.view.Open) : Runs E shut n () n.left (n.turns close ++ [.parted]) := by
  have hc : n.session.closed = false := h.closed
  obtain ⟨link, hw⟩ := h.writer
  change n.session.writer = some link at hw
  refine (runs_update n close).bind ?_
  rw [hc, hw]
  have hup : Runs E (Action.hangUp link) (n.mapSession close) () n.left [.parted] := .request rfl
  have hoff : Runs E (n.session.reader.forM Action.ignore) n.left () n.left [] := by
    cases n.session.reader with
    | none => exact .pure () _
    | some link => exact .request rfl
  have hrest : Runs E
      (if n.session.readings.isEmpty then n.session.reader.forM Action.ignore else Pure.pure ())
      n.left () n.left [] := by
    by_cases hr : n.session.readings.isEmpty = true
    · rw [if_pos hr]
      exact hoff
    · rw [if_neg hr]
      exact .pure () _
  exact hup.bind hrest

inductive Timed (n : Node σ) (m : TimeStamps) : Node σ → List Event → Prop
  | invalid : m.isValid = false → Timed n m n.ask []
  | probed : m.isValid = true → m.origin = 0 →
      Timed n m n.ask
        [.said (.time
          { origin := m.transmit, receive := n.sources.clock n.asked,
            transmit := n.sources.clock n.asked })]
  | answered : m.isValid = true → m.origin ≠ 0 →
      Timed n m
        (n.ask.mapPeer fun p =>
          if p.probe.map (·.transmit) = some m.origin then
            (p.setLatency (elapsed (n.sources.clock n.asked) m.origin)).setProbe none
          else p) []

theorem endsIn_handleTime (h : n.view.Open) (m : TimeStamps) :
    EndsIn E (handleTime m) n fun _ => Timed n m := by
  have ho : n.ask.view.Open := h
  refine .after (runs_clock n) ?_
  cases hv : m.isValid with
  | false => exact ⟨false, _, _, .pure false _, .invalid hv⟩
  | true =>
  by_cases horigin : m.origin = 0
  · simp only [Bool.not_true, Bool.false_eq_true, if_false, if_pos horigin]
    exact ⟨true, _, _, runs_send ho _, .probed hv horigin⟩
  · simp only [Bool.not_true, Bool.false_eq_true, if_false, if_neg horigin]
    exact .after (runs_modifyPeer _ _) ⟨true, _, _, .pure true _, .answered hv horigin⟩

def Idle (f : Frame) : Prop :=
  (∃ tag, Message.ofPayload f.tag f.payload = .error (.unknownTag tag)) ∨
    (∃ m, f.message? = some (.chainSize m)) ∨ ∃ raw, f.message? = some (.transaction raw)

inductive Parting (f : Frame) : List Event → Prop
  | undecodable {fault} : Message.ofPayload f.tag f.payload = .error fault →
      (∀ tag, fault ≠ .unknownTag tag) → Parting f []
  | goAway {m} : f.message? = some (.goAway m) → Parting f [.announced m]
  | senseless {m} : f.message? = some (.notice m) → m.blocks.mode = .catchUp →
      m.blocks.ids = [] → Parting f [.announced farewell, .said (.goAway farewell)]

/-- What a frame comes to on a node whose link takes frames, and whether the loop goes on. -/
inductive Outcome (E : Engine σ) (settings : Settings) (n : Node σ) (f : Frame) :
    Bool → Node σ → List Event → Prop
  | passed : Idle f → Outcome E settings n f true n []
  | timed {m m' fs} : f.message? = some (.time m) → Timed n m m' fs →
      Outcome E settings n f true m' fs
  | reacted {m m' fs} : f.message? = some m → Reaction E settings n m m' fs →
      Outcome E settings n f true m' fs
  | rejected {raw m' fs} : f.message? = some (.signedBlock raw) → Rejected E n raw m' fs →
      Outcome E settings n f false m' fs
  | left {fs} : Parting f fs →
      Outcome E settings n f false n.left (fs ++ (n.turns close ++ [.parted]))

theorem endsIn_leave {p : Action α} (h : n.view.Open) {f : Frame} {a : α}
    (hf : Parting f es) (hp : Runs E p n a n es) :
    EndsIn E (do let _ ← p; shut; return false) n (Outcome E settings n f) :=
  ⟨false, n.left, es ++ (n.turns close ++ [.parted]),
    hp.bind ((runs_shut h).returning false), .left hf⟩

theorem endsIn_handleNotice (h : n.view.Open) {f : Frame} {m : Notice}
    (hf : f.message? = some (.notice m)) :
    EndsIn E (handleNotice settings m) n (Outcome E settings n f) := by
  -- A notice that is not civil offers blocks without naming any.
  by_cases hc : Civil (.notice m)
  · obtain ⟨n', es, hr, hreact⟩ := react_notice (E := E) settings h hc
    exact ⟨true, n', es, hr, .reacted hf hreact⟩
  · have hc : ¬ (m.blocks.mode = .catchUp → m.blocks.ids ≠ []) := hc
    obtain ⟨hmode, hids⟩ := Classical.not_imp.mp hc
    rw [Decidable.not_not] at hids
    unfold handleNotice
    simp only [hmode, hids, List.isEmpty_nil, if_true]
    have ha : Runs E (Action.announce farewell) n () n [.announced farewell] := .request rfl
    exact endsIn_leave (p := do Action.announce farewell; send (.goAway farewell)) h
      (.senseless hf hmode hids) (ha.bind (runs_send h _))

theorem endsIn_dispatch (h : n.view.Open) {f : Frame} {m : Message} (hf : f.message? = some m) :
    EndsIn E (dispatch settings m) n (Outcome E settings n f) := by
  cases m with
  | handshake m =>
    obtain ⟨n', es, hr, hreact⟩ := react_handshake (E := E) settings h m
    exact ⟨true, n', es, hr, .reacted hf hreact⟩
  | chainSize m => exact ⟨true, n, [], .pure true n, .passed (.inr (.inl ⟨m, hf⟩))⟩
  | goAway m =>
    exact endsIn_leave (p := Action.announce m) h (.goAway hf) (.request rfl)
  | time m =>
    obtain ⟨b, n', es, hr, ht⟩ := endsIn_handleTime (E := E) h m
    exact ⟨true, n', es, hr.returning true, .timed hf ht⟩
  | notice m => exact endsIn_handleNotice h hf
  | request m => exact ⟨true, n, [], .pure true n, .reacted hf .asked⟩
  | syncRequest range =>
    obtain ⟨n', es, hr, hreact⟩ := react_syncRequest (E := E) settings n range
    exact ⟨true, n', es, hr.returning true, .reacted hf hreact⟩
  | signedBlock raw =>
    obtain ⟨b, n', es, hr, hv⟩ := endsIn_handleBlock (E := E) settings h raw
    cases b with
    | true => exact ⟨true, n', es, hr, .reacted hf hv⟩
    | false => exact ⟨false, n', es, hr, .rejected hf hv⟩
  | transaction raw => exact ⟨true, n, [], .pure true n, .passed (.inr (.inr ⟨raw, hf⟩))⟩

/-- Every frame comes to an outcome, whatever it holds and whatever the engine says. -/
theorem endsIn_handleFrame (settings : Settings) (h : n.view.Open) (f : Frame) :
    EndsIn E (handleFrame settings f) n (Outcome E settings n f) := by
  have hs : n.stopping = false := h.stopping
  refine .after (runs_isStopping n) ?_
  rw [hs]
  rcases hp : Message.ofPayload f.tag f.payload with fault | m
  · by_cases ht : ∃ tag, fault = .unknownTag tag
    · obtain ⟨tag, rfl⟩ := ht
      exact ⟨true, n, [], .pure true n, .passed (.inl ⟨tag, hp⟩)⟩
    · have hleave : EndsIn E (do shut; return false) n (Outcome E settings n f) :=
        endsIn_leave (p := Pure.pure ()) h
          (.undecodable hp fun tag he => ht ⟨tag, he⟩) (.pure () n)
      cases fault with
      | unknownTag tag => exact absurd ⟨tag, rfl⟩ ht
      | _ => exact hleave
  · have hm : f.message? = some m := by
      rw [Frame.message?, hp]
      rfl
    exact endsIn_dispatch h hm

theorem outcome_of_runs {f : Frame} {b : Bool} (h : n.view.Open)
    (hr : Runs E (handleFrame settings f) n b n' es) : Outcome E settings n f b n' es := by
  obtain ⟨b', m, fs, hr', ho⟩ := endsIn_handleFrame (E := E) settings h f
  obtain ⟨rfl, rfl, rfl⟩ := hr.unique hr'
  exact ho

theorem Sought.view_eq (h : Sought E settings n n' es) : n'.view = n.view := by
  cases h <;> rfl

theorem Greeted.view_eq {num : UInt32} (h : Greeted E settings num n n' es) :
    n'.view = n.view := by
  cases h <;> rfl

theorem Followed.view_eq {num : UInt32} (h : Followed E settings num n n' es) :
    n'.view = n.view := by
  cases h with
  | within | settled => rfl
  | next _ _ hs => exact hs.view_eq

theorem Reaction.keeps_open {m : Message} (h : Reaction E settings n m n' es)
    (ho : n.view.Open) : n'.view.Open := by
  have hpushed (raw : Bytes) (wantStatistics : Bool) :
      (n.pushed E raw wantStatistics).view.Open :=
    ⟨ho.closed, ho.cut, ho.writer, ho.linked, ho.stopping⟩
  cases h with
  | behind _ hs =>
    rw [hs.view_eq]
    exact ho
  | content | below | farAbove | above | unmoved | pointed | invited | asked | repeated | gap =>
    exact ho
  | stops | serves => exact ⟨ho.closed, ho.cut, ho.writer, ho.linked, ho.stopping⟩
  | unlinked | known => exact hpushed _ _
  | accepted wantStatistics text hd hoff hres hv _ hg hf =>
    rw [hf.view_eq, hg.view_eq, hv]
    exact hpushed _ _

theorem Outcome.keeps_open {f : Frame} (h : Outcome E settings n f true n' es)
    (ho : n.view.Open) : n'.view.Open := by
  cases h with
  | passed => exact ho
  | timed _ ht => cases ht <;> exact ho
  | reacted _ hr => exact hr.keeps_open ho

/-- The receive loop: it greets the peer, and then takes a frame each time that the session is open
and no shutdown was requested, until one of them ends it. The flag says whether it goes on. -/
inductive Attends (E : Engine σ) (settings : Settings) (start : Node σ) :
    Bool → Node σ → List Event → Prop
  | greeted {b m fs} : Runs E (greet settings) start b m fs → Attends E settings start b m fs
  | round {f b m m' fs fs'} : Attends E settings start true m fs →
      m.session.closed = false → m.stopping = false →
      Runs E (handleFrame settings f) m b m' fs' →
      Attends E settings start b m' (fs ++ .took f :: fs')

section

variable {start : Node σ} {b : Bool}

theorem Attends.view_eq (h : Attends E settings start b n es) :
    n.view = start.view.applyAll E es := by
  induction h with
  | greeted hr => exact hr.view_eq
  | round _ _ _ hr ih =>
    rw [applyAll_append, ← ih]
    exact hr.view_eq

theorem Attends.keeps_open (h : Attends E settings start true n es) (ho : start.view.Open) :
    n.view.Open := by
  -- The flag is an index of the relation, so it has to vary along the induction.
  generalize hb : true = b at h
  induction h with
  | greeted hr =>
    obtain ⟨-, rfl, -⟩ := hr.unique (runs_greet ho settings)
    exact ho
  | round h _ _ hr ih =>
    subst hb
    exact (outcome_of_runs (ih rfl) hr).keeps_open (ih rfl)

/-- What the greeting establishes and every round preserves holds along the whole loop. -/
theorem Attends.invariant {I : Node σ → List Event → Prop} (ho : start.view.Open)
    (hgreet : I (start.seeking none).introduced
      [.said (.syncRequest .reset),
        .said (.handshake ((start.seeking none).handshake E settings))])
    (hround : ∀ m f b m' fs fs', Attends E settings start true m fs → m.view.Open → I m fs →
      (∀ g, .took g ∉ fs') → Outcome E settings m f b m' fs' → I m' (fs ++ .took f :: fs'))
    (h : Attends E settings start b n es) : I n es := by
  induction h with
  | greeted hr =>
    obtain ⟨-, rfl, rfl⟩ := hr.unique (runs_greet ho settings)
    exact hgreet
  | round h _ _ hr ih =>
    have hopen := h.keeps_open ho
    exact hround _ _ _ _ _ _ h hopen ih (fun g => hr.took_notMem g) (outcome_of_runs hopen hr)

end

def rounds (E : Engine σ) (settings : Settings) (start : Node σ) :
    List Frame → Option (Bool × Node σ × List Event)
  | [] => evaluate E (greet settings) start
  | f :: earlier =>
    match rounds E settings start earlier with
    | some (true, m, es) =>
      if m.session.closed || m.stopping then none
      else
        (evaluate E (handleFrame settings f) m).map fun (b, m', es') =>
          (b, m', es ++ .took f :: es')
    | _ => none

theorem attends_iff_rounds {start : Node σ} {b : Bool} :
    Attends E settings start b n es ↔
      ∃ frames, rounds E settings start frames = some (b, n, es) := by
  constructor
  · intro h
    induction h with
    | greeted hr => exact ⟨[], runs_iff_evaluate.mp hr⟩
    | @round f b m m' fs fs' _ hclosed hstop hr ih =>
      obtain ⟨earlier, he⟩ := ih
      refine ⟨f :: earlier, ?_⟩
      simp only [rounds, he, hclosed, hstop, Bool.or_self, Bool.false_eq_true, if_false,
        runs_iff_evaluate.mp hr, Option.map_some]
  · rintro ⟨frames, h⟩
    induction frames generalizing b n es with
    | nil => exact .greeted (runs_iff_evaluate.mpr h)
    | cons f earlier ih =>
      rw [rounds] at h
      split at h
      · next m fs hm =>
        by_cases hover : (m.session.closed || m.stopping) = true
        · rw [if_pos hover] at h
          cases h
        · rw [if_neg hover, Option.map_eq_some_iff] at h
          obtain ⟨⟨b', m', fs'⟩, hr, he⟩ := h
          cases he
          rw [Bool.or_eq_true, not_or, Bool.not_eq_true, Bool.not_eq_true] at hover
          exact .round (ih hm) hover.1 hover.2 (runs_iff_evaluate.mpr hr)
      · cases h

end BlockSync.Session

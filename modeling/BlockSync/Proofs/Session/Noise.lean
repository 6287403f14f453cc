import BlockSync.Proofs.Session.Outstanding
import BlockSync.Proofs.Session.Party

/-! Noise among the frames that a party is fed with. Two parties are compared, one with noise in its
inbox and one without. Whatever one of them shows, the other can show: while the one passes over a
noise frame the other waits, and before the other takes a frame the one passes over all noise ahead
of it. -/

namespace BlockSync.Session

open BlockSync.Chain (Engine)

inductive Noise (f : Frame) : Prop
  | unknown : 9 ≤ f.tag → Noise f
  | transaction : f.tag = MessageKind.transaction.tag → Noise f
  | chainSize {m} : f.message? = some (.chainSize m) → Noise f
  | request {m} : f.message? = some (.request m) → Noise f
  | undated {m} : f.message? = some (.time m) → m.transmit = 0 → Noise f
  | notice {m} : f.message? = some (.notice m) →
      m.blocks.mode = .none ∨ m.blocks.mode = .normal → Noise f

/-- The second list is the first with noise inserted anywhere. -/
inductive Diluted : List Frame → List Frame → Prop
  | nil : Diluted [] []
  | keep {f clean noisy} : Diluted clean noisy → Diluted (f :: clean) (f :: noisy)
  | insert {f clean noisy} : Noise f → Diluted clean noisy → Diluted clean (f :: noisy)

theorem Diluted.split {clean noisy : List Frame} (h : Diluted clean noisy) :
    ∃ noise rest, noisy = noise ++ rest ∧ (∀ f ∈ noise, Noise f) ∧
      (clean = [] ∧ rest = [] ∨
        ∃ f clean' rest', clean = f :: clean' ∧ rest = f :: rest' ∧ Diluted clean' rest') := by
  induction h with
  | nil => exact ⟨[], [], rfl, fun _ hf => (List.not_mem_nil hf).elim, .inl ⟨rfl, rfl⟩⟩
  | keep h =>
    exact ⟨[], _, rfl, fun _ hf => (List.not_mem_nil hf).elim, .inr ⟨_, _, _, rfl, rfl, h⟩⟩
  | @insert f _ _ hf _ ih =>
    obtain ⟨noise, rest, rfl, hall, hrest⟩ := ih
    exact ⟨f :: noise, rest, rfl, List.forall_mem_cons.mpr ⟨hf, hall⟩, hrest⟩

theorem Diluted.eq_nil {clean : List Frame} (h : Diluted clean []) : clean = [] := by
  cases h
  rfl

theorem ofPayload_of_unknown {tag : UInt8} (h : 9 ≤ tag) (payload : Bytes) :
    Message.ofPayload tag payload = .error (.unknownTag tag) := by
  have hnone : MessageKind.all.find? (fun kind => kind.tag == tag) = none := by
    refine List.find?_eq_none.mpr fun kind _ htag => ?_
    have hlt : kind.tag < 9 := by
      cases kind <;> decide
    exact UInt8.not_le.mpr hlt (beq_iff_eq.mp htag ▸ h)
  simp only [Message.ofPayload, MessageKind.ofTag, hnone]

/-- What is left to do at a frame that is passed over, by whether a shutdown was requested: the
clock may be read, and the loop ends on a shutdown only. -/
inductive Passing : Bool → Action Bool → Prop
  | through {stopping} : Passing stopping (.done true)
  | halt {goOn} : Passing true (.done goOn)
  | clock {stopping next} : (∀ now, Passing stopping (next now)) →
      Passing stopping (.ask .clock next)
  | isStopping {stopping} {next : Bool → Action Bool} : Passing stopping (next stopping) →
      Passing true (next true) → Passing stopping (.ask .isStopping next)

theorem Passing.stop {stopping : Bool} {p : Action Bool} (h : Passing stopping p) :
    Passing true p := by
  induction h with
  | through => exact .through
  | halt => exact .halt
  | clock _ ih => exact .clock ih
  | isStopping _ hstop => exact .isStopping hstop hstop

theorem Passing.of_done {stopping goOn : Bool} (h : Passing stopping (.done goOn)) :
    goOn = true ∨ stopping = true := by
  cases h with
  | through => exact .inl rfl
  | halt => exact .inr rfl

theorem passing_handleFrame (settings : Settings) {f : Frame} (h : Noise f) :
    Passing false (handleFrame settings f) := by
  -- Past the question for a shutdown, the frame alone decides.
  refine .isStopping ?_ .halt
  cases h with
  | unknown htag =>
    rw [ofPayload_of_unknown htag]
    exact .through
  | transaction htag =>
    rw [htag]
    exact .through
  | chainSize hm =>
    rw [Frame.ofPayload_of_message? hm]
    exact .through
  | request hm =>
    rw [Frame.ofPayload_of_message? hm]
    exact .through
  | @undated m hm htransmit =>
    rw [Frame.ofPayload_of_message? hm]
    have hvalid : m.isValid = false := by
      rw [TimeStamps.isValid, htransmit]
      rfl
    refine .clock fun now => ?_
    simp only [hvalid]
    exact .through
  | notice hm hmode =>
    rw [Frame.ofPayload_of_message? hm]
    simp only [dispatch, handleNotice]
    rcases hmode with hmode | hmode <;> rw [hmode] <;> exact .through

/-- What there is of a node, its clocks and chance apart. -/
structure Content (σ : Type) where
  chain : σ
  session : Session
  tasks : Nat
  stopping : Bool
  linked : Bool

namespace Node

variable {σ : Type}

def content (n : Node σ) : Content σ := ⟨n.chain, n.session, n.tasks, n.stopping, n.linked⟩

def refill (c : Content σ) (n : Node σ) : Node σ :=
  { n with
    chain := c.chain
    session := c.session
    tasks := c.tasks
    stopping := c.stopping
    linked := c.linked }

def told (sources : Sources) (asked : Nat) (n : Node σ) : Node σ := { n with sources, asked }

theorem told_of_content_eq {n m : Node σ} (h : n.content = m.content) :
    m.told n.sources n.asked = n := by
  cases n
  cases m
  cases h
  rfl

end Node

section

variable {σ : Type} {E : Engine σ} {n m n' m' : Node σ} {op : Op} {es es' : List Event}

theorem stopping_perform {r : interface.Answer op} (h : n.perform E op = some (r, n', es))
    (hs : n.stopping = true) : n'.stopping = true := by
  cases op <;> simp only [Node.perform, Option.some.injEq, Prod.mk.injEq, reduceCtorEq] at h
  all_goals obtain ⟨-, rfl, -⟩ := h
  case stop => rfl
  all_goals exact hs

theorem Passing.perform {next : interface.Answer op → Action Bool} {r : interface.Answer op}
    (h : Passing n.stopping (.ask op next)) (hp : n.perform E op = some (r, n', es)) :
    n'.content = n.content ∧ es = [] ∧ Passing n'.stopping (next r) := by
  generalize hs : n.stopping = stopping at h
  cases h with
  | clock hnext =>
    cases hp
    exact ⟨rfl, rfl, hs ▸ hnext _⟩
  | isStopping hnext =>
    cases hp
    exact ⟨rfl, rfl, hs ▸ hnext⟩

theorem exists_perform {r : interface.Answer op} (h : n.perform E op = some (r, n', es))
    (m : Node σ) : ∃ r' m' es', m.perform E op = some (r', m', es') := by
  cases op <;> simp only [Node.perform, reduceCtorEq] at h
  all_goals exact ⟨_, _, _, rfl⟩

end

/-- What happens to a party: its own events, the end of the stream that its frames come from, and
what others do to its node. -/
inductive Happening (σ : Type) where
  | seen (e : Event)
  | exhausted
  | meanwhile (f : Content σ → Content σ)

def noticed {σ : Type} (hs : List (Happening σ)) : List (Happening σ) :=
  hs.filter fun
    | .seen e => !e.isTook
    | _ => true

theorem noticed_append {σ : Type} (hs hs' : List (Happening σ)) :
    noticed (hs ++ hs') = noticed hs ++ noticed hs' := List.filter_append _ _

namespace Party

variable {σ : Type} {E : Engine σ}

/-- A move of the party, or what it has no part in: clocks go on as they like, the stream ends, and
others change the node, except that none of them takes a shutdown back. -/
inductive Step (E : Engine σ) (x : Party σ) : List (Happening σ) → Party σ → Prop
  | move {es y} : Move E x es y → Step E x (es.map .seen) y
  | tick (sources asked) : Step E x [] { x with node := x.node.told sources asked }
  | exhaust : x.loop = .idle → x.node.session.closed = false → x.node.stopping = false →
      x.inbox = [] →
      Step E x [.exhausted]
        { x with
          loop := .busy do
            shut
            return false }
  | meanwhile (f) : (x.node.stopping = true → (f x.node.content).stopping = true) →
      Step E x [.meanwhile f] { x with node := x.node.refill (f x.node.content) }

inductive Run (E : Engine σ) : Party σ → List (Happening σ) → Party σ → Prop
  | nil {x} : Run E x [] x
  | cons {x hs y hs' z} : Step E x hs y → Run E y hs' z → Run E x (hs ++ hs') z

variable {x y z x' y' : Party σ} {hs hs' : List (Happening σ)}

theorem Run.append (h : Run E x hs y) (h' : Run E y hs' z) : Run E x (hs ++ hs') z := by
  induction h with
  | nil => exact h'
  | cons hstep _ ih =>
    rw [List.append_assoc]
    exact .cons hstep (ih h')

theorem Step.run (h : Step E x hs y) : Run E x hs y := by
  have hr := Run.cons h .nil
  rwa [List.append_nil] at hr

/-- A party comes to somewhere, with nothing else noticed on the way than what is given. -/
def Matches (E : Engine σ) (x : Party σ) (hs : List (Happening σ)) (reach : Party σ → Prop) :
    Prop :=
  ∃ hs' x', Run E x hs' x' ∧ noticed hs' = noticed hs ∧ reach x'

theorem Matches.here {reach : Party σ → Prop} (h : reach x) : Matches E x [] reach :=
  ⟨[], x, .nil, rfl, h⟩

theorem Step.matches {reach : Party σ → Prop} (h : Step E x hs y) (hy : reach y) :
    Matches E x hs reach :=
  ⟨hs, y, h.run, rfl, hy⟩

theorem Matches.after {reach : Party σ → Prop} (hr : Run E x hs y) (hnone : noticed hs = [])
    (h : Matches E y hs' reach) : Matches E x hs' reach := by
  obtain ⟨gs, z, hz, hgs, hreach⟩ := h
  refine ⟨hs ++ gs, z, hr.append hz, ?_, hreach⟩
  rw [noticed_append, hnone, List.nil_append, hgs]

theorem Run.matched {R : Party σ → Party σ → Prop}
    (hstep : ∀ {x y hs x'}, R x y → Step E x hs x' → Matches E y hs (R x')) (h : R x y)
    (hr : Run E x hs x') : Matches E y hs (R x') := by
  induction hr generalizing y with
  | nil => exact .here h
  | cons hfirst _ ih =>
    obtain ⟨gs, y', hy, hgs, h'⟩ := hstep h hfirst
    obtain ⟨gs', z', hz, hgs', hR⟩ := ih h'
    refine ⟨gs ++ gs', z', hy.append hz, ?_, hR⟩
    rw [noticed_append, noticed_append, hgs, hgs']

theorem Matches.carry {R : Party σ → Party σ → Prop} {reach reach' : Party σ → Prop}
    (hstep : ∀ {x y hs x'}, R x y → Step E x hs x' → Matches E y hs (R x')) (h : R x y)
    (hx : Matches E x hs reach)
    (hreach : ∀ {x' y'}, R x' y' → reach x' → Matches E y' [] reach') : Matches E y hs reach' := by
  obtain ⟨gs, x', hr, hgs, hx'⟩ := hx
  obtain ⟨gs', y', hy, hgs', h'⟩ := hr.matched hstep h
  obtain ⟨fs, z, hz, hfs, hz'⟩ := hreach h' hx'
  refine ⟨gs' ++ fs, z, hy.append hz, ?_, hz'⟩
  rw [noticed_append, hfs, hgs', hgs]
  exact List.append_nil _

theorem Move.run {n : Node σ} {es : List Event} (hn : n.content = x.node.content)
    (h : Move E { x with node := n } es y) : Run E x (es.map .seen) y := by
  refine .cons (.tick n.sources n.asked) ?_
  rw [Node.told_of_content_eq hn]
  exact (Step.move h).run

def AtRest (E : Engine σ) (x : Party σ) : Prop := ∀ es y, ¬ Move E x es y

structure Alike (x y : Party σ) : Prop where
  settings : x.settings = y.settings
  content : x.node.content = y.node.content
  responders : x.responders = y.responders

theorem Alike.session (h : Alike x y) : x.node.session = y.node.session :=
  congrArg Content.session h.content

theorem Alike.stopping (h : Alike x y) : x.node.stopping = y.node.stopping :=
  congrArg Content.stopping h.content

theorem Alike.symm (h : Alike x y) : Alike y x :=
  ⟨h.settings.symm, h.content.symm, h.responders.symm⟩

/-- Whether the loop takes the next frame, if there is one. -/
structure Ready (x : Party σ) : Prop where
  idle : x.loop = .idle
  closed : x.node.session.closed = false
  stopping : x.node.stopping = false

theorem Ready.congr (h : Ready x) (hl : y.loop = .idle) (hn : y.node.content = x.node.content) :
    Ready y :=
  ⟨hl, (congrArg (·.session.closed) hn).trans h.closed,
    (congrArg Content.stopping hn).trans h.stopping⟩

/-- A party that can move leaves none at rest that is alike, unless it takes a frame. -/
theorem Alike.ready_of_move {es : List Event} (h : Alike x y)
    (hloop : x.loop = y.loop ∨ x.loop = .idle) (hy : AtRest E y) (hm : Move E x es x') :
    Ready x ∧ x.inbox ≠ [] := by
  have hsame {p} (hbusy : x.loop = .busy p) : y.loop = .busy p := by
    rcases hloop with hl | hl
    · rw [← hl, hbusy]
    · cases hbusy.symm.trans hl
  cases hm with
  | take hidle hclosed hrunning hinbox =>
    exact ⟨⟨hidle, hclosed, hrunning⟩, hinbox ▸ List.cons_ne_nil _ _⟩
  | proceed hbusy hp =>
    obtain ⟨_, _, _, hp'⟩ := exists_perform hp y.node
    exact (hy _ _ (.proceed (hsame hbusy) hp')).elim
  | finish hbusy => exact (hy _ _ (.finish (hsame hbusy))).elim
  | respond hask hp =>
    obtain ⟨_, _, _, hp'⟩ := exists_perform hp y.node
    exact (hy _ _ (.respond (h.responders ▸ hask) hp')).elim
  | retire hdone => exact (hy _ _ (.retire (h.responders ▸ hdone))).elim
  | renew hdone => exact (hy _ _ (.renew (h.responders ▸ hdone))).elim

/-- A loop at a frame that it passes over, or that ended there on a shutdown. -/
inductive Aside : Bool → Loop → Prop
  | busy {stopping p} : Passing stopping p → Aside stopping (.busy p)
  | ended : Aside true .ended

theorem Aside.passing {stopping : Bool} {p : Action Bool} (h : Aside stopping (.busy p)) :
    Passing stopping p := by
  cases h with
  | busy hp => exact hp

theorem Aside.mono {stopping stopping' : Bool} {l : Loop} (h : Aside stopping l)
    (hle : stopping = true → stopping' = true) : Aside stopping' l := by
  cases stopping' with
  | true =>
    cases h with
    | busy hp => exact .busy hp.stop
    | ended => exact .ended
  | false =>
    cases stopping with
    | false => exact h
    | true => cases hle rfl

/-- A party with noise in its inbox, and one without. The first may be at noise while the second
waits. -/
structure Shadows (x y : Party σ) : Prop extends Alike x y where
  inbox : Diluted y.inbox x.inbox
  loop : x.loop = y.loop ∨ y.loop = .idle ∧ Aside x.node.stopping x.loop

theorem Shadows.idle (h : Shadows x y) (hx : x.loop = .idle) : y.loop = .idle := by
  rcases h.loop with hl | ⟨hl, -⟩
  · exact hl ▸ hx
  · exact hl

theorem Shadows.ready (h : Shadows x y) (hx : Ready x) : Ready y :=
  hx.congr (h.idle hx.idle) h.content.symm

theorem Shadows.both {es : List Event} (h : Shadows x y)
    (hm : Move E { y with node := x.node } es y') (hx : Shadows x' y') :
    Matches E y (es.map .seen) (Shadows x') :=
  ⟨_, y', hm.run h.content, rfl, hx⟩

theorem Shadows.take {f : Frame} {rest : List Frame} (h : Shadows x y) (hx : Ready x)
    (hinbox : x.inbox = f :: rest) :
    Matches E y [.seen (.took f)]
      (Shadows { x with inbox := rest, loop := .busy (handleFrame x.settings f) }) := by
  have hd := h.inbox
  rw [hinbox] at hd
  generalize hy : y.inbox = clean at hd
  cases hd with
  | keep hd =>
    refine h.both (.take (h.idle hx.idle) hx.closed hx.stopping hy)
      ⟨⟨h.settings, rfl, h.responders⟩, hd, .inl ?_⟩
    exact congrArg (fun settings => Loop.busy (handleFrame settings f)) h.settings
  | insert hf hd =>
    have haside : Aside false (.busy (handleFrame x.settings f)) :=
      .busy (passing_handleFrame x.settings hf)
    exact ⟨[], y, .nil, rfl, ⟨h.settings, h.content, h.responders⟩, hy ▸ hd,
      .inr ⟨h.idle hx.idle, haside.mono fun hfalse => nomatch hfalse⟩⟩

theorem Shadows.proceed {op : Op} {next : interface.Answer op → Action Bool}
    {r : interface.Answer op} {n : Node σ} {es : List Event} (h : Shadows x y)
    (hbusy : x.loop = .busy (.ask op next)) (hp : x.node.perform E op = some (r, n, es)) :
    Matches E y (es.map .seen)
      (Shadows
        { x with
          node := n
          loop := .busy (next r)
          responders := x.responders ++ started x.settings es }) := by
  rcases h.loop with hl | ⟨hl, haside⟩
  · refine h.both (.proceed (hl ▸ hbusy) hp) ⟨⟨h.settings, rfl, ?_⟩, h.inbox, .inl rfl⟩
    simp only [h.responders, h.settings]
  rw [hbusy] at haside
  obtain ⟨hn, rfl, hpass⟩ := haside.passing.perform hp
  have hresponders : x.responders ++ started x.settings [] = y.responders :=
    (List.append_nil _).trans h.responders
  exact ⟨[], y, .nil, rfl, ⟨h.settings, hn.trans h.content, hresponders⟩, h.inbox,
    .inr ⟨hl, .busy hpass⟩⟩

theorem Shadows.finish {goOn : Bool} (h : Shadows x y) (hbusy : x.loop = .busy (.done goOn)) :
    Matches E y [] (Shadows { x with loop := if goOn then .idle else .ended }) := by
  rcases h.loop with hl | ⟨hl, haside⟩
  · exact h.both (.finish (hl ▸ hbusy)) ⟨⟨h.settings, rfl, h.responders⟩, h.inbox, .inl rfl⟩
  refine ⟨[], y, .nil, rfl, ⟨h.settings, h.content, h.responders⟩, h.inbox, ?_⟩
  rw [hbusy] at haside
  -- Noise ends the loop on a shutdown only, after which the other loop takes nothing either.
  cases goOn with
  | true => exact .inl hl.symm
  | false =>
    have hstop : x.node.stopping = true :=
      haside.passing.of_done.resolve_left Bool.false_ne_true
    exact .inr ⟨hl, hstop.symm ▸ .ended⟩

theorem Shadows.move {es : List Event} (h : Shadows x y) (hm : Move E x es x') :
    Matches E y (es.map .seen) (Shadows x') := by
  cases hm with
  | take hidle hclosed hrunning hinbox => exact h.take ⟨hidle, hclosed, hrunning⟩ hinbox
  | proceed hbusy hp => exact h.proceed hbusy hp
  | finish hbusy => exact h.finish hbusy
  | respond hask hp =>
    refine h.both (.respond (h.responders ▸ hask) hp)
      ⟨⟨h.settings, rfl, ?_⟩, h.inbox, h.loop.imp_right fun ⟨hl, haside⟩ => ⟨hl, ?_⟩⟩
    · simp only [h.settings]
    · exact haside.mono (stopping_perform hp)
  | retire hdone =>
    exact h.both (.retire (h.responders ▸ hdone)) ⟨⟨h.settings, rfl, rfl⟩, h.inbox, h.loop⟩
  | renew hdone =>
    refine h.both (.renew (h.responders ▸ hdone)) ⟨⟨h.settings, rfl, ?_⟩, h.inbox, h.loop⟩
    simp only [h.settings]

/-- Whatever a party with noise in its inbox does, the one without does. -/
theorem Shadows.step (h : Shadows x y) (hstep : Step E x hs x') :
    Matches E y hs (Shadows x') := by
  cases hstep with
  | move hm => exact h.move hm
  | tick => exact ⟨[], y, .nil, rfl, ⟨h.settings, h.content, h.responders⟩, h.inbox, h.loop⟩
  | exhaust hidle hclosed hrunning hinbox =>
    have hy := h.ready ⟨hidle, hclosed, hrunning⟩
    have hempty : y.inbox = [] := (hinbox ▸ h.inbox).eq_nil
    exact (Step.exhaust hy.idle hy.closed hy.stopping hempty).matches
      ⟨⟨h.settings, h.content, h.responders⟩, h.inbox, .inl rfl⟩
  | meanwhile f hf =>
    refine ⟨_, _, (Step.meanwhile f (h.content ▸ h.stopping ▸ hf)).run, rfl,
      ⟨h.settings, ?_, h.responders⟩, h.inbox,
      h.loop.imp_right fun ⟨hl, haside⟩ => ⟨hl, haside.mono hf⟩⟩
    exact congrArg f h.content

theorem Run.quiet {op : Op} {next : interface.Answer op → Action Bool} {r : interface.Answer op}
    {n : Node σ} (hbusy : x.loop = .busy (.ask op next))
    (hp : x.node.perform E op = some (r, n, []))
    (h : Run E { x with node := n, loop := .busy (next r) } hs y) : Run E x hs y := by
  have hm := Move.proceed hbusy hp
  simp only [started, List.filterMap_nil, List.append_nil] at hm
  exact .cons (.move hm) h

theorem run_passing {stopping : Bool} {p : Action Bool} (h : Passing stopping p)
    (hs : stopping = false) (hbusy : x.loop = .busy p) (hrunning : x.node.stopping = false) :
    ∃ n, Run E x [] { x with node := n, loop := .idle } ∧ n.content = x.node.content := by
  induction h generalizing x with
  | through => exact ⟨x.node, (Step.move (.finish hbusy)).run, rfl⟩
  | halt => cases hs
  | @clock _ next _ ih =>
    obtain ⟨n, hr, hn⟩ := ih (x.node.sources.clock x.node.asked) hs
      (x := { x with node := x.node.ask, loop := .busy (next (x.node.sources.clock x.node.asked)) })
      rfl hrunning
    exact ⟨n, .quiet hbusy rfl hr, hn⟩
  | @isStopping stopping next _ _ ih =>
    have hp : x.node.perform E .isStopping = some (stopping, x.node, []) := by
      rw [hs, ← hrunning]
      rfl
    obtain ⟨n, hr, hn⟩ := ih hs (x := { x with loop := .busy (next stopping) }) rfl hrunning
    exact ⟨n, .quiet hbusy hp hr, hn⟩

theorem run_noise {noise rest : List Frame} (hx : Ready x) (hnoise : ∀ f ∈ noise, Noise f)
    (hinbox : x.inbox = noise ++ rest) :
    ∃ hs n, Run E x hs { x with node := n, inbox := rest, loop := .idle } ∧ noticed hs = [] ∧
      n.content = x.node.content := by
  induction noise generalizing x with
  | nil =>
    have hsame : { x with inbox := rest, loop := .idle } = x := by
      rw [← hx.idle, ← show x.inbox = rest from hinbox]
    exact ⟨[], x.node, hsame ▸ .nil, rfl, rfl⟩
  | cons f noise ih =>
    obtain ⟨hf, hnoise⟩ := List.forall_mem_cons.mp hnoise
    have htake := Step.move (E := E) (.take hx.idle hx.closed hx.stopping hinbox)
    obtain ⟨n, hpass, hn⟩ := run_passing (E := E) (passing_handleFrame x.settings hf) rfl
      (x := { x with inbox := noise ++ rest, loop := .busy (handleFrame x.settings f) }) rfl
      hx.stopping
    obtain ⟨hs, n', hrest, hshown, hn'⟩ := ih
      (x := { x with node := n, inbox := noise ++ rest, loop := .idle }) (hx.congr rfl hn) hnoise rfl
    exact ⟨_, n', .cons htake (hpass.append hrest), hshown, hn'.trans hn⟩

/-- A party without noise in its inbox, and one with noise, neither of them at a noise frame. -/
structure Level (y x : Party σ) : Prop extends Alike x y where
  inbox : Diluted y.inbox x.inbox
  loop : x.loop = y.loop

theorem Level.ready (h : Level y x) (hy : Ready y) : Ready x :=
  hy.congr (h.loop.trans hy.idle) h.content

theorem Level.skip (h : Level y x) (hy : Ready y) :
    ∃ hs x', Run E x hs x' ∧ noticed hs = [] ∧ Level y x' ∧
      (y.inbox = [] ∧ x'.inbox = [] ∨ ∃ f clean noisy,
        y.inbox = f :: clean ∧ x'.inbox = f :: noisy ∧ Diluted clean noisy) := by
  obtain ⟨noise, rest, hinbox, hnoise, hrest⟩ := h.inbox.split
  obtain ⟨hs, n, hr, hshown, hn⟩ := run_noise (E := E) (h.ready hy) hnoise hinbox
  have hd : Diluted y.inbox rest := by
    obtain ⟨hy, hrest⟩ | ⟨f, clean, noisy, hy, hrest, hd⟩ := hrest
    · rw [hy, hrest]
      exact .nil
    · rw [hy, hrest]
      exact .keep hd
  exact ⟨hs, _, hr, hshown,
    ⟨⟨h.settings, hn.trans h.content, h.responders⟩, hd, hy.idle.symm⟩, hrest⟩

theorem Level.both {es : List Event} (h : Level y x)
    (hm : Move E { x with node := y.node } es x') (hx : Level y' x') :
    Matches E x (es.map .seen) (Level y') :=
  ⟨_, x', hm.run h.content.symm, rfl, hx⟩

theorem Level.take {f : Frame} {rest : List Frame} (h : Level y x) (hy : Ready y)
    (hinbox : y.inbox = f :: rest) :
    Matches E x [.seen (.took f)]
      (Level { y with inbox := rest, loop := .busy (handleFrame y.settings f) }) := by
  obtain ⟨hs, x', hr, hshown, h', hnext⟩ := h.skip (E := E) hy
  obtain ⟨hnil, -⟩ | ⟨g, clean, noisy, hclean, hnoisy, hd⟩ := hnext
  · cases hinbox.symm.trans hnil
  cases hinbox.symm.trans hclean
  have hx := h'.ready hy
  have htake : Move E x' [.took f] _ := .take hx.idle hx.closed hx.stopping hnoisy
  have hloop := congrArg (fun settings => Loop.busy (handleFrame settings f)) h'.settings
  exact .after hr hshown
    ((Step.move htake).matches ⟨⟨h'.settings, h'.content, h'.responders⟩, hd, hloop⟩)

theorem Level.move {es : List Event} (h : Level y x) (hm : Move E y es y') :
    Matches E x (es.map .seen) (Level y') := by
  cases hm with
  | take hidle hclosed hrunning hinbox => exact h.take ⟨hidle, hclosed, hrunning⟩ hinbox
  | proceed hbusy hp =>
    refine h.both (.proceed (h.loop ▸ hbusy) hp) ⟨⟨h.settings, rfl, ?_⟩, h.inbox, rfl⟩
    simp only [h.responders, h.settings]
  | finish hbusy =>
    exact h.both (.finish (h.loop ▸ hbusy)) ⟨⟨h.settings, rfl, h.responders⟩, h.inbox, rfl⟩
  | respond hask hp =>
    refine h.both (.respond (h.responders ▸ hask) hp) ⟨⟨h.settings, rfl, ?_⟩, h.inbox, h.loop⟩
    simp only [h.settings]
  | retire hdone =>
    exact h.both (.retire (h.responders ▸ hdone)) ⟨⟨h.settings, rfl, rfl⟩, h.inbox, h.loop⟩
  | renew hdone =>
    refine h.both (.renew (h.responders ▸ hdone)) ⟨⟨h.settings, rfl, ?_⟩, h.inbox, h.loop⟩
    simp only [h.settings]

/-- Whatever a party without noise in its inbox does, the one with noise does. -/
theorem Level.step (h : Level y x) (hstep : Step E y hs y') : Matches E x hs (Level y') := by
  cases hstep with
  | move hm => exact h.move hm
  | tick => exact ⟨[], x, .nil, rfl, ⟨h.settings, h.content, h.responders⟩, h.inbox, h.loop⟩
  | exhaust hidle hclosed hrunning hinbox =>
    obtain ⟨gs, x', hr, hshown, h', hnext⟩ := h.skip (E := E) ⟨hidle, hclosed, hrunning⟩
    obtain ⟨-, hempty⟩ | ⟨f, clean, noisy, hclean, -⟩ := hnext
    · have hx := h'.ready ⟨hidle, hclosed, hrunning⟩
      exact .after hr hshown
        ((Step.exhaust hx.idle hx.closed hx.stopping hempty).matches
          ⟨⟨h'.settings, h'.content, h'.responders⟩, h'.inbox, rfl⟩)
    · cases hinbox.symm.trans hclean
  | meanwhile f hf =>
    refine ⟨_, _, (Step.meanwhile f (h.content ▸ h.stopping ▸ hf)).run, rfl,
      ⟨h.settings, ?_, h.responders⟩, h.inbox, h.loop⟩
    exact congrArg f h.content

theorem Aside.exists_move (h : Aside x.node.stopping x.loop) :
    x.node.stopping = true ∨ ∃ es x', Move E x es x' := by
  generalize hl : x.loop = l at h
  generalize x.node.stopping = stopping at h
  cases h with
  | ended => exact .inl rfl
  | busy hp =>
    right
    cases hp with
    | through | halt => exact ⟨_, _, .finish hl⟩
    | clock | isStopping => exact ⟨_, _, .proceed hl rfl⟩

theorem Ready.not_atRest (h : Ready x) (hinbox : x.inbox ≠ []) : ¬ AtRest E x := by
  intro hx
  obtain ⟨f, rest, hf⟩ := List.exists_cons_of_ne_nil hinbox
  exact hx _ _ (.take h.idle h.closed h.stopping hf)

theorem Shadows.atRest (h : Shadows x y) (hx : AtRest E x) : AtRest E y := by
  intro es y' hm
  have hloop : y.loop = x.loop ∨ y.loop = .idle := h.loop.imp Eq.symm And.left
  obtain ⟨hy, hne⟩ := h.symm.ready_of_move hloop hx hm
  rcases h.loop with hl | ⟨-, haside⟩
  · refine (hy.congr (hl.trans hy.idle) h.content).not_atRest (fun hempty => ?_) hx
    exact hne (hempty ▸ h.inbox).eq_nil
  · obtain hstop | ⟨_, _, hmove⟩ := Aside.exists_move (E := E) haside
    · cases hstop.symm.trans (h.stopping.trans hy.stopping)
    · exact hx _ _ hmove

theorem Level.atRest (h : Level y x) (hy : AtRest E y) :
    Matches E x [] fun x' => x'.node.content = y.node.content ∧ AtRest E x' := by
  by_cases hready : Ready y
  · obtain ⟨hs, x', hr, hshown, h', hnext⟩ := h.skip (E := E) hready
    refine ⟨hs, x', hr, hshown, h'.content, fun es z hm => ?_⟩
    obtain ⟨-, hne⟩ := h'.ready_of_move (.inl h'.loop) hy hm
    obtain ⟨-, hempty⟩ | ⟨f, clean, noisy, hclean, -⟩ := hnext
    · exact hne hempty
    · exact hready.not_atRest (hclean ▸ List.cons_ne_nil _ _) hy
  · refine ⟨[], x, .nil, rfl, h.content, fun es z hm => ?_⟩
    obtain ⟨hx, -⟩ := h.ready_of_move (.inl h.loop) hy hm
    exact hready (hx.congr (h.loop.symm.trans hx.idle) h.content.symm)

/-- What can be seen of a party, and what its node then holds. -/
def Shows (E : Engine σ) (x : Party σ) (hs : List (Happening σ)) (c : Content σ) : Prop :=
  Matches E x hs fun x' => x'.node.content = c

/-- The same, where the party has no move left. -/
def Settles (E : Engine σ) (x : Party σ) (hs : List (Happening σ)) (c : Content σ) : Prop :=
  Matches E x hs fun x' => x'.node.content = c ∧ AtRest E x'

end Party

open Party

/-- Wherever a party stands and whatever others do meanwhile, noise that is inserted among its
frames or deleted from them changes nothing that can be seen of it, on the way or in the end:
neither what is written and pushed nor what the node holds. -/
theorem noise_is_transparent {σ : Type} (E : Engine σ) (x : Party σ) {clean noisy : List Frame}
    (h : Diluted clean noisy) (hs : List (Happening σ)) (c : Content σ) :
    (Shows E { x with inbox := noisy } hs c ↔ Shows E { x with inbox := clean } hs c) ∧
      (Settles E { x with inbox := noisy } hs c ↔ Settles E { x with inbox := clean } hs c) := by
  have hshadows : Shadows { x with inbox := noisy } { x with inbox := clean } :=
    ⟨⟨rfl, rfl, rfl⟩, h, .inl rfl⟩
  have hlevel : Level { x with inbox := clean } { x with inbox := noisy } :=
    ⟨⟨rfl, rfl, rfl⟩, h, rfl⟩
  refine ⟨⟨fun hshows => ?_, fun hshows => ?_⟩, ⟨fun hsettles => ?_, fun hsettles => ?_⟩⟩
  · exact hshows.carry Shadows.step hshadows fun h' hc => .here (h'.content.symm.trans hc)
  · exact hshows.carry Level.step hlevel fun h' hc => .here (h'.content.trans hc)
  · exact hsettles.carry Shadows.step hshadows fun h' hc =>
      .here ⟨h'.content.symm.trans hc.1, h'.atRest hc.2⟩
  · refine hsettles.carry Level.step hlevel fun h' hc => ?_
    obtain ⟨gs, z, hz, hgs, hcontent, hrest⟩ := h'.atRest hc.2
    exact ⟨gs, z, hz, hgs, hcontent.trans hc.1, hrest⟩

/-- Noise of each kind. -/
def chatter : List Frame :=
  [⟨9, [7]⟩, ⟨MessageKind.transaction.tag, [7]⟩,
    Frame.ofWritten (Message.chainSize ⟨0, Octets.zero 32, 0, Octets.zero 32⟩).frame,
    Frame.ofWritten (Message.request {}).frame,
    Frame.ofWritten (Message.time {}).frame,
    Frame.ofWritten (Message.notice {}).frame,
    Frame.ofWritten (Message.notice { blocks := { mode := .normal } }).frame]

theorem diluted_chatter : Diluted [] chatter := by
  have hempty : IdList.Fits {} := by
    unfold IdList.Fits
    decide
  refine .insert (.unknown (by decide)) (.insert (.transaction rfl) ?_)
  refine .insert (.chainSize (Message.message?_ofWritten trivial)) ?_
  refine .insert (.request (Message.message?_ofWritten ⟨hempty, hempty⟩)) ?_
  refine .insert (.undated (Message.message?_ofWritten trivial) rfl) ?_
  refine .insert (.notice (Message.message?_ofWritten ⟨hempty, hempty⟩) (.inl rfl)) ?_
  exact .insert (.notice (Message.message?_ofWritten ⟨hempty, hempty⟩) (.inr rfl)) .nil

/-- A party that waits for frames goes on to wait after noise of each kind. -/
theorem chatter_is_passed_over :
    Diluted [] chatter ∧
      Settles Chain.Memory.engine { settings := singly, node := plainNode, inbox := chatter } []
        plainNode.content := by
  refine ⟨diluted_chatter, ?_⟩
  have hrest : AtRest Chain.Memory.engine { settings := singly, node := plainNode } := by
    intro es y hm
    cases hm with
    | take _ _ _ hinbox => cases hinbox
    | proceed hbusy | finish hbusy => cases hbusy
    | respond hask | retire hask | renew hask => simp at hask
  exact (noise_is_transparent Chain.Memory.engine { settings := singly, node := plainNode }
    diluted_chatter [] plainNode.content).2.mpr (.here ⟨rfl, hrest⟩)

end BlockSync.Session

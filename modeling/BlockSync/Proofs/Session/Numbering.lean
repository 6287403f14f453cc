import BlockSync.Proofs.Session.Discipline
import BlockSync.Proofs.Session.Probes

/-! Handshakes and their generations, program by program. A program takes a generation only to build
a handshake with it, and what it writes as a handshake is the one that it built last. -/

namespace BlockSync

open Wire (write)

theorem Message.kind_eq_of_frame {m m' : Message} (h : m.frame = m'.frame) : m.kind = m'.kind := by
  have htag : m.kind.tag = m'.kind.tag := by
    have hframe := congrArg Frame.ofWritten h
    rw [m.ofWritten_frame, m'.ofWritten_frame] at hframe
    exact congrArg Frame.tag hframe
  have hkind := congrArg MessageKind.ofTag htag
  rw [ofTag_tag, ofTag_tag] at hkind
  exact Except.ok.inj hkind

theorem Message.frame_handshake (m : Handshake) : ∃ front : Bytes, 32 ≤ front.length ∧
    (Message.handshake m).frame = front ++ write m.generation := by
  refine ⟨_, ?_, (List.append_assoc _ _ (write m.generation)).symm⟩
  have hchain : (write m.chainId : Bytes).length = 32 := m.chainId.length_eq
  simp only [List.length_append]
  omega

theorem Message.generation_eq_of_frame {m m' : Handshake}
    (h : (Message.handshake m).frame = (Message.handshake m').frame) :
    m.generation = m'.generation := by
  have hlength (g : Int16) : (write g : Bytes).length = 2 := Wire.length_littleEndian 2 _
  obtain ⟨front, -, hframe⟩ := frame_handshake m
  obtain ⟨front', -, hframe'⟩ := frame_handshake m'
  rw [hframe, hframe'] at h
  have hwritten := (List.append_inj' h ((hlength _).trans (hlength _).symm)).2
  have hread := Wire.readsBack_int16 m.generation []
  rw [hwritten, Wire.readsBack_int16 m'.generation []] at hread
  exact (Except.ok.inj (congrArg Prod.fst hread)).symm

end BlockSync

namespace BlockSync.Session

open BlockSync.Session.Action

/-- Takes the next generation. -/
def Op.IsTake (op : Op) : Prop := op = .updatePeer PeerState.advanceGeneration

def Numbers (hand : Option Int16) : Op → Prop
  | .update f => ∀ s, (f s).peer = s.peer
  | .updatePeer f => f = PeerState.advanceGeneration ∨ f = PeerState.reset ∨
      ∀ p, (f p).generation = p.generation
  | .send _ frame => ∀ m, frame = (Message.handshake m).frame → hand = some m.generation
  | _ => True

/-- Who takes a generation has its handshake in hand from then on. -/
inductive Hands (hand : Option Int16) : (op : Op) → interface.Answer op → Option Int16 → Prop
  | take (before : PeerState) :
      Hands hand (.updatePeer PeerState.advanceGeneration) before (some before.generation)
  | keep {op r} : ¬ op.IsTake → Hands hand op r hand

/-- With a handshake in hand, or none, a program writes only the one that it has in hand, and ends
as described. -/
def NumbersFrom {α : Type} (post : α → Option Int16 → Prop) (p : Action α) (hand : Option Int16) :
    Prop := p.Ensures Numbers Hands post hand

def Builds (settings : Settings) {α : Type} : Action α → Prop
  | .done _ => True
  | .ask op next =>
    (op.IsTake → ∃ f, Program.ask op next = buildHandshake settings >>= f) ∧
      ∀ r, Builds settings (next r)

structure Numbered (settings : Settings) {α : Type} (p : Action α) : Prop where
  hands : ∀ hand, NumbersFrom (fun _ _ => True) p hand
  builds : Builds settings p

section

variable {settings : Settings} {α β : Type} {p : Action α}

theorem Builds.bind {f : α → Action β} (hp : Builds settings p)
    (hf : ∀ a, Builds settings (f a)) : Builds settings (p >>= f) := by
  induction p with
  | done a => exact hf a
  | ask op next ih =>
    refine ⟨fun hop => ?_, fun r => ih r (hp.2 r)⟩
    obtain ⟨g, hg⟩ := hp.1 hop
    refine ⟨fun m => g m >>= f, ?_⟩
    rw [← Program.bind_assoc, ← hg]
    rfl

theorem Builds.build {f : Handshake → Action α} (hf : ∀ m, Builds settings (f m)) :
    Builds settings (buildHandshake settings >>= f) := by
  refine ⟨fun _ => ⟨f, rfl⟩, fun before => ?_⟩
  iterate 7 refine ⟨nofun, fun _ => ?_⟩
  exact hf _

theorem Builds.of_within (h : p.Within (fun op : Op => ¬ op.IsTake) fun _ _ => True) :
    Builds settings p := by
  induction p with
  | done a => trivial
  | ask op next ih => exact ⟨fun hop => absurd hop h.1, fun r => ih r (h.2 r trivial)⟩

theorem numbersFrom_of_within {hand : Option Int16}
    (h : p.Within (fun op : Op => Numbers hand op ∧ ¬ op.IsTake) fun _ _ => True) :
    NumbersFrom (fun _ _ => True) p hand := by
  induction p with
  | done a => trivial
  | ask op next ih =>
    obtain ⟨⟨hop, htake⟩, hnext⟩ := h
    refine ⟨hop, ?_⟩
    rintro r _ (_ | _)
    · exact absurd rfl htake
    · exact ih r (hnext r trivial)

theorem Numbered.of_within
    (h : p.Within (fun op : Op => (∀ hand, Numbers hand op) ∧ ¬ op.IsTake) fun _ _ => True) :
    Numbered settings p where
  hands hand := numbersFrom_of_within (h.mono (fun _ hop => ⟨hop.1 hand, hop.2⟩) fun _ _ => id)
  builds := .of_within (h.mono (fun _ hop => hop.2) fun _ _ => id)

theorem Numbered.pure (a : α) : Numbered settings (Pure.pure a) := ⟨fun _ => trivial, trivial⟩

theorem Numbered.bind {f : α → Action β} (hp : Numbered settings p)
    (hf : ∀ a, Numbered settings (f a)) : Numbered settings (p >>= f) where
  hands hand := Program.Ensures.bind
    (Program.Ensures.mono (hp.hands hand) fun a hand' _ => (hf a).hands hand')
  builds := hp.builds.bind fun a => (hf a).builds

theorem Numbered.request {op : Op} (h : ∀ hand, Numbers hand op) (htake : ¬ op.IsTake) :
    Numbered settings (Program.request (I := interface) op) :=
  .of_within ⟨⟨h, htake⟩, fun _ _ => trivial⟩

end

theorem Op.IsOrdinary.numbers {op : Op} (h : op.IsOrdinary) (hand : Option Int16) :
    Numbers hand op := by
  cases op with
  | update f => exact h.peer
  | updatePeer f => exact .inr (.inr h.generation)
  | send link frame =>
    obtain ⟨m, -, hkind, rfl⟩ := h
    exact fun m' hframe => absurd (Message.kind_eq_of_frame hframe) hkind
  | _ => trivial

/-- What leaves the next generation as it is does not take it. -/
theorem not_isTake_of_keeps {f : PeerState → PeerState} (h : ∀ p, (f p).generation = p.generation) :
    ¬ (Op.updatePeer f).IsTake := by
  rintro ⟨⟩
  have hstays := h PeerState.fresh
  revert hstays
  decide

theorem Op.IsOrdinary.not_isTake {op : Op} (h : op.IsOrdinary) : ¬ op.IsTake := by
  cases op with
  | updatePeer f => exact not_isTake_of_keeps h.generation
  | _ => exact nofun

theorem carries_numbers (hand : Option Int16) :
    Carries fun op => Numbers hand op ∧ ¬ op.IsTake :=
  carries_ordinary.mono fun _ hop => ⟨hop.numbers hand, hop.not_isTake⟩

section

variable (settings : Settings)

theorem numbersFrom_buildHandshake (hand : Option Int16) :
    NumbersFrom (fun m hand' => hand' = some m.generation) (buildHandshake settings) hand := by
  refine ⟨.inl rfl, ?_⟩
  rintro before _ (_ | ⟨htake⟩)
  · -- The rest of what a handshake says is asked for one by one.
    iterate 7
      refine ⟨trivial, ?_⟩
      rintro _ _ ⟨⟩
    exact rfl
  · exact absurd rfl htake

theorem numbersFrom_sendHandshake (m : Handshake) :
    NumbersFrom (fun _ _ => True) (send (.handshake m)) (some m.generation) :=
  numbersFrom_of_within ((carries_numbers _).send fun _ =>
    ⟨fun _ hframe => congrArg some (Message.generation_eq_of_frame hframe), nofun⟩)

theorem builds_send (m : Message) : Builds settings (send m) :=
  .of_within (Carries.send (carries_ordinary.mono fun _ => Op.IsOrdinary.not_isTake) fun _ => nofun)

theorem numbered_send {m : Message} (h : m.kind ≠ .handshake) : Numbered settings (send m) := by
  have hcarries : Carries fun op => (∀ hand, Numbers hand op) ∧ ¬ op.IsTake :=
    carries_ordinary.mono fun _ hop => ⟨hop.numbers, hop.not_isTake⟩
  refine .of_within (hcarries.send fun _ => ⟨fun _ m' hframe => ?_, nofun⟩)
  exact absurd (Message.kind_eq_of_frame hframe) h

theorem numbered_sendHandshake : Numbered settings (sendHandshake settings) where
  hands hand := by
    refine Program.Ensures.bind
      (Program.Ensures.mono (numbersFrom_buildHandshake settings hand) ?_)
    rintro m _ rfl
    exact numbersFrom_sendHandshake m
  builds := .build fun m => builds_send settings (.handshake m)

def numbering : Discipline settings where
  Holds := Numbered settings
  pure := .pure
  bind := .bind
  request h := .request h.numbers h.not_isTake
  sendHandshake := numbered_sendHandshake settings

theorem offering_numbering : (numbering settings).Offering where
  push _ _ := .request (fun _ => trivial) nofun
  stop := .request (fun _ => trivial) nofun

theorem leaving_numbering : (numbering settings).Leaving where
  announce _ _ _ hp := .bind (.request (fun _ => trivial) nofun) fun _ => hp

theorem timing_numbering : (numbering settings).Timing where
  send _ := numbered_send settings nofun
  modifyPeer _ h :=
    .bind (.request (fun _ => .inr (.inr h)) (not_isTake_of_keeps h)) fun _ => .pure ()

theorem listens_numbers : Listens fun op => (∀ hand, Numbers hand op) ∧ ¬ op.IsTake where
  toCarries := carries_ordinary.mono fun _ hop => ⟨hop.numbers, hop.not_isTake⟩
  startReading := ⟨fun _ => trivial, nofun⟩
  awaitTurn _ _ := ⟨fun _ => trivial, nofun⟩
  receive _ _ _ := ⟨fun _ => trivial, nofun⟩
  endReading _ := ⟨fun _ _ => rfl, nofun⟩

theorem waiting_numbering : (numbering settings).Waiting where
  readMessage deadline := .of_within (listens_numbers.readMessage deadline)
  pause _ _ := .request (fun _ => trivial) nofun

theorem numbered_modify {f : Session → Session} (h : ∀ s, (f s).peer = s.peer) :
    Numbered settings (modify f) := .bind (.request (fun _ => h) nofun) fun _ => .pure ()

theorem reset_ne_advance : PeerState.reset ≠ PeerState.advanceGeneration := by
  intro h
  have hfresh := congrArg (fun f => (f PeerState.fresh).generation) h
  revert hfresh
  decide

theorem not_isTake_reset : ¬ (Op.updatePeer PeerState.reset).IsTake :=
  fun h => reset_ne_advance (Op.updatePeer.inj h)

theorem numbered_reset : Numbered settings reset := by
  refine .bind (numbered_modify settings fun _ => rfl) fun _ => .bind ?_ fun _ => ?_
  · exact .bind (.request (fun _ => .inr (.inl rfl)) not_isTake_reset) fun _ => .pure ()
  · exact (numbering settings).request trivial

theorem Proxied.ne_handshake {bytes : Bytes} (h : Proxied bytes) (m : Handshake) :
    bytes ≠ (Message.handshake m).frame := by
  intro hframe
  have hlength : bytes.length ≤ 10 := by
    cases h with
    | greeting => decide
    | connect target port => exact Nat.le_refl 10
  obtain ⟨front, hfront, hm⟩ := Message.frame_handshake m
  rw [hframe, hm, List.length_append] at hlength
  omega

theorem numbered_handshake (ip : Ipv4) (port : UInt16) (link : LinkId) (deadline : Instant) :
    Numbered settings ((Socks5.handshake ip port).embed (overLink link deadline)) := by
  refine .of_within (.of_ensures (.embed
    ((courteous_exchange ip port).matched (R := fun _ _ => True) trivial ?_ ?_ ?_)))
  · intro _ _ op _ hop
    cases op with
    | send bytes => exact ⟨fun _ m hframe => absurd hframe (hop.ne_handshake m), nofun⟩
    | receive count => exact ⟨fun _ => trivial, nofun⟩
  · exact fun _ _ _ _ _ _ _ _ => ⟨(), trivial, trivial⟩
  · exact fun _ _ _ _ _ => trivial

theorem numbered_openTunnel (proxy target : Address) (deadline : Instant) :
    Numbered settings (openTunnel proxy target deadline) := by
  let d := numbering settings
  unfold openTunnel
  split
  · exact .pure none
  · refine .bind (.request (fun _ => trivial) nofun) fun dialed => ?_
    cases dialed with
    | refused | stopped => exact .pure none
    | opened link =>
      refine .bind (numbered_handshake settings _ _ _ _) fun result => ?_
      cases result with
      | ok _ => exact .pure _
      | error fault => exact d.ask trivial fun _ => d.ask trivial fun _ => .pure none

theorem numbered_openLink (target : Address) :
    Numbered settings (openLink settings target) := by
  let d := numbering settings
  refine d.ask trivial fun now => d.ite ?_ ?_
  · refine .bind (.request (fun _ => trivial) nofun) fun dialed => ?_
    cases dialed <;> exact .pure _
  split
  · split
    · exact numbered_openTunnel settings _ _ _
    · exact .pure none
  · refine .bind (.request (fun _ => trivial) nofun) fun dialed => ?_
    cases dialed <;> exact .pure _

theorem numbered_install (link : LinkId) : Numbered settings (install link) := by
  let d := numbering settings
  refine .bind (.request (fun _ _ => rfl) nofun) fun before => d.bind ?_ fun _ => ?_
  · cases before.writer with
    | none => exact .pure ()
    | some link => exact d.request trivial
  · cases before.reader with
    | none => exact .pure ()
    | some link => exact d.request trivial

theorem numbered_startHeartbeat : Numbered settings startHeartbeat := by
  let d := numbering settings
  refine d.ask tidy_id fun s => ?_
  refine .bind (.request (fun _ => trivial) nofun) fun task => ?_
  refine .bind (.request (fun _ _ => rfl) nofun) fun before => ?_
  cases before.heartbeat with
  | none => exact .pure ()
  | some old => exact .request (fun _ => trivial) nofun

theorem numbered_connect (target : Address) : Numbered settings (connect settings target) := by
  let d := numbering settings
  have hone : Numbered settings (connectOnce settings target) := by
    refine d.ask tidy_id fun s => d.ite (.pure true) (d.bind d.shut fun _ => ?_)
    refine .bind (numbered_reset settings) fun _ => ?_
    refine .bind (numbered_openLink settings target) fun link? => ?_
    cases link? with
    | none => exact .pure false
    | some link =>
      refine .bind (numbered_install settings link) fun _ => ?_
      have hestimate := (timing_numbering settings).estimateLatency (waiting_numbering settings)
      refine .bind hestimate fun ok => d.ite ?_ ?_
      · exact d.bind d.shut fun _ => .pure false
      · exact .bind (numbered_modify settings fun _ => rfl) fun _ =>
          .bind (numbered_startHeartbeat settings) fun _ => .pure true
  refine .bind (.request (fun _ => trivial) nofun) fun _ => .bind hone fun _ => ?_
  exact .bind (.request (fun _ => trivial) nofun) fun _ => .pure _

end

end BlockSync.Session

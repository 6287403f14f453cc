import BlockSync.Chain.Fixture
import BlockSync.Chain.Memory
import BlockSync.Proofs.Session.Party
import BlockSync.Proofs.Session.Tame

/-! A fault of the engine that is no ordinary refusal ends the receive loop. The loop is followed
operation by operation, reading included, and its operations may answer anything, so that every
engine, every peer and whatever else goes on are among the answers. -/

namespace BlockSync.Session

open BlockSync.Session.Action

/-- An operation and what it answered. -/
structure Deed where
  op : Op
  answer : interface.Answer op

namespace Deed

/-- Whether the engine failed on a block, other than by saying that it does not link or is known. -/
def isFatal : Deed → Bool
  | ⟨.push _ _, .error .unlinkable⟩ => false
  | ⟨.push _ _, .error fault⟩ => !fault.isAlreadyKnown
  | _ => false

def halt : Deed := ⟨.stop, ()⟩

def isHalt : Deed → Bool
  | ⟨.stop, _⟩ => true
  | _ => false

end Deed

/-- What the receive loop does, and where it stands then. -/
inductive Course (settings : Settings) : Loop → List Deed → Prop
  | greet : Course settings (.busy (greet settings)) []
  | ask {op next ds} (answer : interface.Answer op) : Course settings (.busy (.ask op next)) ds →
      Course settings (.busy (next answer)) (ds ++ [⟨op, answer⟩])
  | finish {b ds} : Course settings (.busy (.done b)) ds →
      Course settings (if b then .idle else .ended) ds
  | again {ds} : Course settings .idle ds → Course settings (.busy (receiveOnce settings)) ds

def surrender : Action Bool := .ask .stop fun _ => .done false

/-- Whether a program requests a shutdown exactly where an answer is fatal, and then ends. -/
def Heedful : Action Bool → Prop
  | .done _ => True
  | .ask op next => op ≠ .stop ∧ ∀ answer,
      ((⟨op, answer⟩ : Deed).isFatal = true → next answer = surrender) ∧
        ((⟨op, answer⟩ : Deed).isFatal = false → Heedful (next answer))

section

variable {α ε : Type} {settings : Settings}

theorem Quiet.isFatal {op : Op} (h : Quiet op) (answer : interface.Answer op) :
    (⟨op, answer⟩ : Deed).isFatal = false := by
  cases op with
  | push => exact h.elim
  | _ => rfl

theorem Heedful.ask {op : Op} {next : interface.Answer op → Action Bool} (h : Quiet op)
    (hnext : ∀ answer, Heedful (next answer)) : Heedful (.ask op next) := by
  refine ⟨?_, fun answer => ⟨fun hfatal => ?_, fun _ => hnext answer⟩⟩
  · rintro rfl
    exact h
  · rw [h.isFatal answer] at hfatal
    cases hfatal

theorem Heedful.after {p : Action α} {f : α → Action Bool} (hp : Tame p)
    (hf : ∀ a, Heedful (f a)) : Heedful (p >>= f) := by
  induction p with
  | done a => exact hf a
  | ask op next ih => exact .ask hp.1 fun answer => ih answer (hp.2 answer trivial)

theorem Tame.heedful {p : Action Bool} (hp : Tame p) : Heedful p := by
  induction p with
  | done b => trivial
  | ask op next ih => exact .ask hp.1 fun answer => ih answer (hp.2 answer trivial)

theorem Heedful.ite {c : Prop} [Decidable c] {p q : Action Bool} (hp : Heedful p)
    (hq : Heedful q) : Heedful (if c then p else q) := by
  split
  · exact hp
  · exact hq

theorem Heedful.push {raw : Bytes} {wantStatistics : Bool} {f : Chain.PushResult → Action Bool}
    (hf : ∀ result,
      ((⟨.push raw wantStatistics, result⟩ : Deed).isFatal = true → f result = surrender) ∧
        ((⟨.push raw wantStatistics, result⟩ : Deed).isFatal = false → Heedful (f result))) :
    Heedful (Action.push raw wantStatistics >>= f) := ⟨nofun, hf⟩

theorem heedful_offerBlock (settings : Settings) (header : Header) (raw : Bytes) :
    Heedful (offerBlock settings header raw) := by
  refine .after (p := clock) (.request trivial) fun now => .push fun result => ?_
  rcases result with fault | text
  · cases fault with
    | unlinkable => exact ⟨nofun, fun _ => tame_restart.heedful⟩
    | _ =>
      refine ⟨fun hfatal => ?_, fun hknown => ?_⟩
      · simp only [Deed.isFatal, Bool.not_eq_true'] at hfatal
        simp only [hfatal, Bool.false_eq_true, if_false]
        rfl
      · simp only [Deed.isFatal, Bool.not_eq_false'] at hknown
        simp only [hknown, if_true]
        trivial
  · exact ⟨nofun, fun _ => .ask trivial fun _ => (tame_afterBlock settings _ _).heedful⟩

theorem heedful_handleBlock (settings : Settings) (raw : Bytes) :
    Heedful (handleBlock settings raw) := by
  unfold handleBlock
  split
  · trivial
  next header _ =>
  have ho := heedful_offerBlock settings header raw
  refine .ask trivial fun headNum => .ite ?_ (.ite tame_restart.heedful ho)
  exact .ask trivial fun known => .ite trivial ho

theorem heedful_dispatch (settings : Settings) (m : Message) : Heedful (dispatch settings m) := by
  cases m with
  | signedBlock raw => exact heedful_handleBlock settings raw
  | handshake m => exact (tame_handleHandshake settings m).heedful
  | notice m => exact (tame_handleNotice settings m).heedful
  | time m => exact .after (tame_handleTime m) fun _ => trivial
  | syncRequest range => exact .after (tame_handleSyncRequest range) fun _ => trivial
  | goAway m =>
    exact .after (p := announce m) (.request trivial) fun _ => .after tame_shut fun _ => trivial
  | chainSize | request | transaction => trivial

theorem heedful_handleFrame (settings : Settings) (f : Frame) :
    Heedful (handleFrame settings f) := by
  refine .ask trivial fun stopping => .ite trivial ?_
  cases Message.ofPayload f.tag f.payload with
  | ok m => exact heedful_dispatch settings m
  | error fault =>
    cases fault with
    | unknownTag => trivial
    | _ => exact .after tame_shut fun _ => trivial

theorem heedful_receiveOnce (settings : Settings) : Heedful (receiveOnce settings) := by
  refine .ask trivial fun stopping => .ite trivial (.after (tame_readMessage none) fun frame? => ?_)
  cases frame? with
  | none => trivial
  | some frame => exact heedful_handleFrame settings frame

end

def Smooth (ds : List Deed) : Prop := ∀ d ∈ ds, d.isFatal = false ∧ d.isHalt = false

/-- What may have become of the loop: a fatal answer is its last but for the request for a shutdown,
which is made right then and only then, and after which nothing is left to do. -/
inductive Fate (loop : Loop) (ds : List Deed) : Prop
  | untroubled : Smooth ds → (∀ p, loop = .busy p → Heedful p) → Fate loop ds
  | struck {before d} : ds = before ++ [d] → Smooth before → d.isFatal = true →
      loop = .busy surrender → Fate loop ds
  | halted {before d} : ds = before ++ [d, .halt] → Smooth before → d.isFatal = true →
      loop = .busy (.done false) ∨ loop = .ended → Fate loop ds

section

variable {settings : Settings} {loop : Loop} {ds : List Deed}

theorem Smooth.concat {d : Deed} (h : Smooth ds) (hfatal : d.isFatal = false)
    (hhalt : d.isHalt = false) : Smooth (ds ++ [d]) := by
  intro e he
  rcases List.mem_append.mp he with he | he
  · exact h e he
  · cases List.mem_singleton.mp he
    exact ⟨hfatal, hhalt⟩

theorem isHalt_of_ne_stop {op : Op} (h : op ≠ .stop) (answer : interface.Answer op) :
    (⟨op, answer⟩ : Deed).isHalt = false := by
  cases op with
  | stop => exact absurd rfl h
  | _ => rfl

theorem Fate.ask {op : Op} {next : interface.Answer op → Action Bool}
    (h : Fate (.busy (.ask op next)) ds) (answer : interface.Answer op) :
    Fate (.busy (next answer)) (ds ++ [⟨op, answer⟩]) := by
  cases h with
  | untroubled hsmooth hheeds =>
    obtain ⟨hne, hnext⟩ := hheeds _ rfl
    cases hfatal : (⟨op, answer⟩ : Deed).isFatal with
    | true => exact .struck rfl hsmooth hfatal (congrArg _ ((hnext answer).1 hfatal))
    | false =>
      refine .untroubled (hsmooth.concat hfatal (isHalt_of_ne_stop hne answer)) fun p hp => ?_
      cases hp
      exact (hnext answer).2 hfatal
  | struck hds hbefore hfatal hloop =>
    cases hloop
    subst hds
    exact .halted (List.append_assoc _ _ _) hbefore hfatal (.inl rfl)
  | halted hds hbefore hfatal hloop => rcases hloop with hloop | hloop <;> cases hloop

end

/-- Whatever is answered along the loop, it requests a shutdown exactly where the engine fails on a
block. Then it reads, pushes and writes nothing more, and ends. -/
theorem fatal_faults_are_final {settings : Settings} {loop : Loop} {ds : List Deed}
    (h : Course settings loop ds) : Fate loop ds := by
  induction h with
  | greet =>
    refine .untroubled (fun d hd => absurd hd List.not_mem_nil) fun p hp => ?_
    cases hp
    exact (tame_greet settings).heedful
  | ask answer _ ih => exact ih.ask answer
  | @finish b ds _ ih =>
    cases ih with
    | untroubled hsmooth =>
      refine .untroubled hsmooth fun p hp => ?_
      cases b <;> cases hp
    | struck _ _ _ hloop => cases hloop
    | halted hds hbefore hfatal hloop =>
      rcases hloop with hloop | hloop
      · cases hloop
        exact .halted hds hbefore hfatal (.inr rfl)
      · cases hloop
  | again _ ih =>
    cases ih with
    | untroubled hsmooth =>
      refine .untroubled hsmooth fun p hp => ?_
      cases hp
      exact heedful_receiveOnce settings
    | struck _ _ _ hloop => cases hloop
    | halted _ _ _ hloop => rcases hloop with hloop | hloop <;> cases hloop

def crowdedWorld (block : Bytes) : (op : Op) → interface.Answer op
  | .clock => 0
  | .instant => 0
  | .nonce => Octets.zero 32
  | .chain q => (Chain.Memory.ofSnapshot (Octets.zero 32) 0 (Octets.zero 32)).answer q
  | .push _ _ => .error (.databaseGuard "no room")
  | .update _ | .startReading => attach 0 {}
  | .updatePeer _ => .fresh
  | .receive _ count _ =>
    .bytes
      (if count = 4 then Wire.write (UInt32.ofNat (block.length + 1))
      else if count = 1 then [MessageKind.signedBlock.tag]
      else block)
  | .send _ _ | .awaitTurn _ _ | .pause _ _ => true
  | .isStopping => false
  | .spawn _ => 0
  | .dial _ _ => .refused
  | .measure _ | .hangUp _ | .ignore _ | .announce _ | .stop | .abort _ | .rest | .lockDial
  | .unlockDial => ()

def pursue (settings : Settings) (answers : (op : Op) → interface.Answer op) :
    Nat → Loop × List Deed
  | 0 => (.busy (greet settings), [])
  | k + 1 =>
    match pursue settings answers k with
    | (.busy (.ask op next), ds) => (.busy (next (answers op)), ds ++ [⟨op, answers op⟩])
    | (.busy (.done b), ds) => (if b then .idle else .ended, ds)
    | (.idle, ds) => (.busy (receiveOnce settings), ds)
    | ended => ended

theorem course_pursue (settings : Settings) (answers : (op : Op) → interface.Answer op) (k : Nat) :
    Course settings (pursue settings answers k).1 (pursue settings answers k).2 := by
  induction k with
  | zero => exact .greet
  | succ k ih =>
    rw [pursue]
    split
    · next h =>
      rw [h] at ih
      exact ih.ask _
    · next h =>
      rw [h] at ih
      exact ih.finish
    · next h =>
      rw [h] at ih
      exact ih.again
    · exact ih

theorem crowdedWorld_is_final : ∃ loop ds, Course {} loop ds ∧
    ds.any Deed.isFatal = true ∧ Fate loop ds := by
  let block := (Chain.fixture (Octets.zero 32) 0 1).headD []
  let reached := pursue {} (crowdedWorld block) 40
  have hc : Course {} reached.1 reached.2 := course_pursue _ _ _
  have hfatal : reached.2.any Deed.isFatal = true := by decide +kernel
  exact ⟨_, _, hc, hfatal, fatal_faults_are_final hc⟩

end BlockSync.Session

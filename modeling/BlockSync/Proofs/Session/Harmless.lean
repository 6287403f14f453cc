import BlockSync.Proofs.Chain.Memory
import BlockSync.Proofs.Session.Party
import BlockSync.Proofs.Session.Tame

/-! Nothing that a peer sends requests a shutdown. A program is harmless if it never requests one
and offers only blocks whose headers decode, whatever its operations answer, as long as such a
block is refused for benign reasons only. -/

namespace BlockSync.Session

open BlockSync.Session.Action
open BlockSync.Chain (Benign Memory)

def Innocent : Op → Prop
  | .stop => False
  | .push raw _ => ∃ header, Header.ofBlock raw = .ok header
  | _ => True

def Expected : (op : Op) → interface.Answer op → Prop
  | .push _ _, result => Benign result
  | _, _ => True

def Harmless {α : Type} (p : Action α) : Prop := Program.Within Innocent Expected p

section

variable {α β : Type}

theorem Tame.harmless {p : Action α} (hp : Tame p) : Harmless p := by
  refine hp.mono (fun op hop => ?_) fun _ _ _ => trivial
  cases op with
  | stop | push => exact hop.elim
  | _ => trivial

theorem Harmless.after {op : Op} {f : interface.Answer op → Action β} (h : Innocent op)
    (hf : ∀ r, Expected op r → Harmless (f r)) :
    Harmless (Program.request (I := interface) op >>= f) := ⟨h, hf⟩

theorem Harmless.ite {c : Prop} [Decidable c] {p q : Action α} (hp : Harmless p)
    (hq : Harmless q) : Harmless (if c then p else q) := Program.Within.ite hp hq

end

variable (settings : Settings)

theorem harmless_offerBlock {header : Header} {raw : Bytes}
    (hd : Header.ofBlock raw = .ok header) : Harmless (offerBlock settings header raw) := by
  refine .after trivial fun now _ => .after ⟨header, hd⟩ fun result hr => ?_
  rcases result with fault | text
  · rcases hr with rfl | hk
    · exact tame_restart.harmless
    · cases fault with
      | unlinkable => exact tame_restart.harmless
      | _ =>
        simp only [hk, if_true]
        exact (Tame.pure true).harmless
  · exact .after trivial fun _ _ => (tame_afterBlock settings _ _).harmless

theorem harmless_handleBlock (raw : Bytes) : Harmless (handleBlock settings raw) := by
  unfold handleBlock
  split
  · exact (Tame.pure false).harmless
  next header hd =>
  have ho := harmless_offerBlock settings hd
  refine .after trivial fun headNum _ => .ite ?_ (.ite tame_restart.harmless ho)
  exact .after trivial fun _ _ => .ite (Tame.pure true).harmless ho

theorem harmless_dispatch (m : Message) : Harmless (dispatch settings m) := by
  cases m with
  | signedBlock raw => exact harmless_handleBlock settings raw
  | handshake m => exact (tame_handleHandshake settings m).harmless
  | notice m => exact (tame_handleNotice settings m).harmless
  | time m => exact ((tame_handleTime m).bind fun _ => .pure true).harmless
  | syncRequest range =>
    exact ((tame_handleSyncRequest range).bind fun _ => .pure true).harmless
  | goAway m =>
    refine Tame.harmless (.bind (.request trivial) fun _ => ?_)
    exact tame_shut.bind fun _ => .pure false
  | chainSize | request | transaction => exact (Tame.pure true).harmless

theorem harmless_handleFrame (frame : Frame) : Harmless (handleFrame settings frame) := by
  refine .after trivial fun stopping _ => .ite (Tame.pure false).harmless ?_
  cases Message.ofPayload frame.tag frame.payload with
  | ok m => exact harmless_dispatch settings m
  | error fault =>
    cases fault with
    | unknownTag => exact (Tame.pure true).harmless
    | _ => exact (tame_shut.bind fun _ => .pure false).harmless

/-- What can happen to a party on a chain in memory: its own moves, frames of any kind from the
peer, changes to the session and the link from elsewhere, and blocks that others push. -/
inductive Exposed (x : Party Memory) : Party Memory → Prop
  | move {es y} : Party.Move Memory.engine x es y → Exposed x y
  | arrive (f : Frame) : Exposed x { x with inbox := x.inbox ++ [f] }
  | disturb (f : Session → Session) (linked : Bool) :
      Exposed x { x with node := { x.node with session := f x.node.session, linked } }
  | grow (raw : Bytes) (wantStatistics : Bool) :
      Exposed x
        { x with node := { x.node with chain := (x.node.chain.push raw wantStatistics).1 } }

inductive Exposed.Execution (x : Party Memory) : Party Memory → Prop
  | nil : Execution x x
  | step {y z} : Execution x y → Exposed y z → Execution x z

def Calm : Event → Prop
  | .stopped => False
  | .pushed _ _ result => Benign result
  | _ => True

theorem calm_of_mem_turns {σ : Type} {n : Node σ} {f : Session → Session} {e : Event}
    (h : e ∈ n.turns f) : Calm e := by
  unfold Node.turns at h
  split at h
  · cases h
  · rw [List.mem_singleton] at h
    subst h
    trivial

theorem perform_of_innocent {n n' : Node Memory} {es : List Event} {op : Op}
    {r : interface.Answer op} (h : Innocent op)
    (hp : n.perform Memory.engine op = some (r, n', es)) :
    Expected op r ∧ n'.stopping = n.stopping ∧ ∀ e ∈ es, Calm e := by
  cases op <;> simp only [Node.perform, Option.some.injEq, Prod.mk.injEq, reduceCtorEq] at hp
  case stop => exact h.elim
  case push raw wantStatistics =>
    obtain ⟨header, hd⟩ := h
    obtain ⟨rfl, rfl, rfl⟩ := hp
    have hb : Benign (n.chain.push raw wantStatistics).2 := Memory.push_benign wantStatistics hd
    exact ⟨hb, rfl, List.forall_mem_singleton.mpr hb⟩
  case update f =>
    obtain ⟨-, rfl, rfl⟩ := hp
    exact ⟨trivial, rfl, fun e he => calm_of_mem_turns he⟩
  case send link frame =>
    obtain ⟨-, rfl, rfl⟩ := hp
    refine ⟨trivial, rfl, ?_⟩
    split
    · exact List.forall_mem_singleton.mpr trivial
    · exact fun e he => absurd he List.not_mem_nil
  case hangUp | announce | spawn =>
    obtain ⟨-, rfl, rfl⟩ := hp
    exact ⟨trivial, rfl, List.forall_mem_singleton.mpr trivial⟩
  all_goals
    obtain ⟨-, rfl, rfl⟩ := hp
    exact ⟨trivial, rfl, fun e he => absurd he List.not_mem_nil⟩

namespace Exposed

/-- Neither the loop nor a responder can come to request a shutdown. -/
structure Invariant (x : Party Memory) : Prop where
  running : x.node.stopping = false
  loop : ∀ p, x.loop = .busy p → Harmless p
  responders : ∀ p ∈ x.responders, Harmless p

theorem harmless_of_mem_started {settings : Settings} {es : List Event}
    {p : Action (Option Activity)} (h : p ∈ started settings es) : Harmless p := by
  obtain ⟨a, -, rfl⟩ := mem_started.mp h
  exact (tame_runOnce settings a).harmless

theorem move_preserves_invariant {x y : Party Memory} {es : List Event}
    (h : Party.Move Memory.engine x es y) (hx : Invariant x) :
    Invariant y ∧ ∀ e ∈ es, Calm e := by
  obtain ⟨hrun, hloop, hresp⟩ := hx
  cases h with
  | take hl hc hs hi =>
    refine ⟨⟨hrun, fun p hp => ?_, hresp⟩, List.forall_mem_singleton.mpr trivial⟩
    cases hp
    exact harmless_handleFrame x.settings _
  | proceed hl ho =>
    have hp := hloop _ hl
    obtain ⟨hr, hst, hes⟩ := perform_of_innocent hp.1 ho
    refine ⟨⟨hst.trans hrun, fun p hp' => ?_, fun p hm => ?_⟩, hes⟩
    · cases hp'
      exact hp.2 _ hr
    · exact (List.mem_append.mp hm).elim (hresp p) harmless_of_mem_started
  | @finish b hl =>
    refine ⟨⟨hrun, fun p hp => ?_, hresp⟩, fun e he => absurd he List.not_mem_nil⟩
    cases b <;> cases hp
  | @respond before op next after r n es hr ho =>
    rw [hr] at hresp
    have hp := hresp _ (List.mem_append_cons_self)
    obtain ⟨hr', hst, hes⟩ := perform_of_innocent hp.1 ho
    refine ⟨⟨hst.trans hrun, hloop, fun p hm => ?_⟩, hes⟩
    rcases List.mem_append.mp hm with hm | hm
    · rcases List.mem_append.mp hm with hm | hm
      · exact hresp p (List.mem_append_left _ hm)
      rcases List.mem_cons.mp hm with rfl | hm
      · exact hp.2 _ hr'
      · exact hresp p (List.mem_append_right _ (List.mem_cons_of_mem _ hm))
    · exact harmless_of_mem_started hm
  | @retire before after hr =>
    rw [hr] at hresp
    refine ⟨⟨hrun, hloop, fun p hm => ?_⟩, fun e he => absurd he List.not_mem_nil⟩
    refine hresp p (List.mem_append.mpr ?_)
    exact (List.mem_append.mp hm).imp_right (List.mem_cons_of_mem _)
  | @renew before a after hr =>
    rw [hr] at hresp
    refine ⟨⟨hrun, hloop, fun p hm => ?_⟩, fun e he => absurd he List.not_mem_nil⟩
    rcases List.mem_append.mp hm with hm | hm
    · exact hresp p (List.mem_append_left _ hm)
    rcases List.mem_cons.mp hm with rfl | hm
    · exact (tame_runOnce x.settings a).harmless
    · exact hresp p (List.mem_append_right _ (List.mem_cons_of_mem _ hm))

theorem step_preserves_invariant {x y : Party Memory} (h : Exposed x y) (hx : Invariant x) :
    Invariant y := by
  cases h with
  | move h => exact (move_preserves_invariant h hx).1
  | arrive f => exact ⟨hx.running, hx.loop, hx.responders⟩
  | disturb f linked => exact ⟨hx.running, hx.loop, hx.responders⟩
  | grow raw wantStatistics => exact ⟨hx.running, hx.loop, hx.responders⟩

theorem execution_preserves_invariant {x y : Party Memory} (h : Execution x y)
    (hx : Invariant x) : Invariant y := by
  induction h with
  | nil => exact hx
  | step _ h ih => exact step_preserves_invariant h ih

theorem start_invariant (g : Origin Memory) : Invariant (Party.start g) where
  running := rfl
  loop p hp := by
    cases hp
    exact (tame_greet g.settings).harmless
  responders p hp := absurd hp List.not_mem_nil

end Exposed

/-- On any chain in memory, whatever arrives, no shutdown is requested, and no push fails but for
a block that does not link or is known already. -/
theorem peer_cannot_stop {g : Origin Memory} {x : Party Memory}
    (h : Exposed.Execution (Party.start g) x) :
    x.node.stopping = false ∧
      ∀ es y, Party.Move Memory.engine x es y → Event.stopped ∉ es ∧
        ∀ raw wantStatistics result, Event.pushed raw wantStatistics result ∈ es →
          Benign result := by
  have hx := Exposed.execution_preserves_invariant h (Exposed.start_invariant g)
  refine ⟨hx.running, fun es y hm => ?_⟩
  have hes := (Exposed.move_preserves_invariant hm hx).2
  exact ⟨fun hs => hes _ hs, fun raw want result hp => hes _ hp⟩

/-- A party that a block has reached whose header breaks off. -/
def brokenBlockParty : Party Memory :=
  { Party.start
      { settings := {}
        chain := Memory.ofSnapshot (Octets.zero 32) 0 (Octets.zero 32)
        before := {}
        link := 0
        sources := default } with
    inbox := [⟨MessageKind.signedBlock.tag, [1, 2, 3]⟩] }

theorem brokenBlock_cannot_stop :
    brokenBlockParty.node.stopping = false ∧
      ∀ es y, Party.Move Memory.engine brokenBlockParty es y → Event.stopped ∉ es ∧
        ∀ raw wantStatistics result, Event.pushed raw wantStatistics result ∈ es →
          Benign result :=
  peer_cannot_stop (.step .nil (.arrive ⟨MessageKind.signedBlock.tag, [1, 2, 3]⟩))

end BlockSync.Session

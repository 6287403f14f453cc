import BlockSync.Proofs.Session.Node

/-! A receive loop and its responders on one node. Each goes on by one operation at a time, in any
order; frames wait in an inbox until the loop takes them. A frame of which the length is not admitted
is never taken, nor is anything behind it: the loop breaks off where it stands, as it does where the
other end has hung up. -/

namespace BlockSync

/-- What arrives of a frame that was written. -/
def Frame.ofWritten (bytes : Bytes) : Frame := ⟨bytes.getD 4 0, bytes.drop 5⟩

/-- The length that stands in front of a frame. -/
def Frame.length (f : Frame) : UInt32 := UInt32.ofNat (f.payload.length + 1)

end BlockSync

namespace BlockSync.Session

open BlockSync.Chain (Engine)

inductive Loop where
  | idle
  | busy (p : Action Bool)
  | ended

structure Party (σ : Type) where
  settings : Settings
  node : Node σ
  inbox : List Frame := []
  /-- A frame of which the length is refused, and whatever is behind it. -/
  unread : List Frame := []
  /-- Whether the other end has hung up. -/
  parted : Bool := false
  loop : Loop := .idle
  responders : List (Action (Option Activity)) := []

/-- What a party starts from: a session of any past is attached to a link. -/
structure Origin (σ : Type) where
  settings : Settings
  chain : σ
  before : Session
  link : LinkId
  sources : Sources

/-- The frames that events put on the link. -/
def sent (es : List Event) : List Frame :=
  es.filterMap fun
    | .wrote bytes => some (Frame.ofWritten bytes)
    | _ => none

theorem mem_sent {es : List Event} {f : Frame} :
    f ∈ sent es ↔ ∃ bytes, .wrote bytes ∈ es ∧ Frame.ofWritten bytes = f := by
  refine List.mem_filterMap.trans ⟨?_, fun ⟨bytes, hmem, heq⟩ => ⟨_, hmem, congrArg some heq⟩⟩
  rintro ⟨e, he, hw⟩
  cases e with
  | wrote bytes => exact ⟨bytes, he, Option.some.inj hw⟩
  | _ => cases hw

def started (settings : Settings) (es : List Event) : List (Action (Option Activity)) :=
  es.filterMap fun
    | .spawned a => some (runOnce settings a)
    | _ => none

theorem mem_started {settings : Settings} {es : List Event} {p : Action (Option Activity)} :
    p ∈ started settings es ↔ ∃ a, .spawned a ∈ es ∧ runOnce settings a = p := by
  refine List.mem_filterMap.trans ⟨?_, fun ⟨a, hmem, heq⟩ => ⟨_, hmem, congrArg some heq⟩⟩
  rintro ⟨e, he, hp⟩
  cases e with
  | spawned a => exact ⟨a, he, Option.some.inj hp⟩
  | _ => cases hp

def Event.isParted : Event → Bool
  | .parted => true
  | _ => false

namespace Party

variable {σ : Type}

/-- The party when its receive loop begins. -/
def start (g : Origin σ) : Party σ where
  settings := g.settings
  node := { chain := g.chain, session := g.before.attach g.link, sources := g.sources }
  loop := .busy (greet g.settings)

def arrive (f : Frame) (x : Party σ) : Party σ :=
  if x.unread = [] ∧ Frame.admits f.length then { x with inbox := x.inbox ++ [f] }
  else { x with unread := x.unread ++ [f] }

/-- What a party notices of an event at the other end. -/
def notice (x : Party σ) : Event → Party σ
  | .wrote bytes => x.arrive (Frame.ofWritten bytes)
  | .parted => { x with parted := true }
  | _ => x

def receive (es : List Event) (x : Party σ) : Party σ := es.foldl notice x

/-- One operation of the loop or of a responder, or the step between two rounds of them. -/
inductive Move (E : Engine σ) (x : Party σ) : List Event → Party σ → Prop
  | take {f rest} : x.loop = .idle → x.node.session.closed = false → x.node.stopping = false →
      x.inbox = f :: rest →
      Move E x [.took f] { x with inbox := rest, loop := .busy (handleFrame x.settings f) }
  | proceed {op next r n es} : x.loop = .busy (.ask op next) →
      x.node.perform E op = some (r, n, es) →
      Move E x es
        { x with
          node := n
          loop := .busy (next r)
          responders := x.responders ++ started x.settings es }
  | finish {b} : x.loop = .busy (.done b) →
      Move E x [] { x with loop := if b then .idle else .ended }
  | respond {before op next after r n es} : x.responders = before ++ .ask op next :: after →
      x.node.perform E op = some (r, n, es) →
      Move E x es
        { x with
          node := n
          responders := before ++ next r :: after ++ started x.settings es }
  | retire {before after} : x.responders = before ++ .done none :: after →
      Move E x [] { x with responders := before ++ after }
  | renew {before a after} : x.responders = before ++ .done (some a) :: after →
      Move E x [] { x with responders := before ++ runOnce x.settings a :: after }

theorem Move.unread_eq {E : Engine σ} {x y : Party σ} {es : List Event} (h : Move E x es y) :
    y.unread = x.unread := by
  cases h <;> rfl

theorem Move.parted_eq {E : Engine σ} {x y : Party σ} {es : List Event} (h : Move E x es y) :
    y.parted = x.parted := by
  cases h <;> rfl

theorem Move.inbox_subset {E : Engine σ} {x y : Party σ} {es : List Event} (h : Move E x es y) :
    y.inbox ⊆ x.inbox := by
  cases h with
  | take _ _ _ hi =>
    rw [hi]
    exact List.subset_cons_self _ _
  | proceed | finish | respond | retire | renew => exact List.Subset.refl _

/-- What a party may do at the end of a link. Between two rounds it goes no further where nothing can
be read any more, and once the other end has hung up the link will take no more frames. -/
inductive Advance (E : Engine σ) (x : Party σ) : List Event → Party σ → Prop
  | move {es y} : Move E x es y → Advance E x es y
  | breakOff : x.loop = .idle → x.node.session.closed = false → x.node.stopping = false →
      x.inbox = [] → x.unread ≠ [] ∨ x.parted = true →
      Advance E x [] { x with loop := .busy (do shut; return false) }
  | leave : x.loop = .idle → x.node.session.closed = true ∨ x.node.stopping = true →
      Advance E x [] { x with loop := .ended }
  | sever : x.parted = true → x.node.linked = true →
      Advance E x [] { x with node := { x.node with linked := false } }

theorem Advance.unread_eq {E : Engine σ} {x y : Party σ} {es : List Event} (h : Advance E x es y) :
    y.unread = x.unread := by
  cases h with
  | move h => exact h.unread_eq
  | breakOff | leave | sever => rfl

/-- How what a party receives is divided: frames that can be taken, and frames that are refused
with the first of them. -/
structure Received (x : Party σ) (es : List Event) (fs gs : List Frame) (y : Party σ) : Prop where
  sent_eq : sent es = fs ++ gs
  eq : y =
    { x with
      inbox := x.inbox ++ fs
      unread := x.unread ++ gs
      parted := x.parted || es.any Event.isParted }
  admitted : ∀ f ∈ fs, Frame.admits f.length = true
  behind : x.unread ≠ [] → fs = []
  refused : x.unread = [] → ∀ f ∈ gs.head?, Frame.admits f.length = false

theorem received (x : Party σ) (es : List Event) :
    ∃ fs gs, x.Received es fs gs (x.receive es) := by
  induction es generalizing x with
  | nil => exact ⟨[], [], rfl, by simp [receive], nofun, fun _ => rfl, nofun⟩
  | cons e es ih =>
    have hquiet (hsent : sent (e :: es) = sent es) (y : Party σ) (hy : x.notice e = y)
        (hinbox : y.inbox = x.inbox) (hunread : y.unread = x.unread)
        (hrest : { x with parted := y.parted } = y)
        (hparted : y.parted = (x.parted || e.isParted)) :
        ∃ fs gs, x.Received (e :: es) fs gs (x.receive (e :: es)) := by
      obtain ⟨fs, gs, h⟩ := ih y
      refine ⟨fs, gs, hsent.trans h.sent_eq, ?_, h.admitted, hunread ▸ h.behind,
        hunread ▸ h.refused⟩
      rw [receive, List.foldl_cons, hy, ← receive, h.eq, List.any_cons, ← Bool.or_assoc, ← hparted,
        hinbox, hunread, ← hrest]
    cases e with
    | wrote bytes =>
      have hnotice : x.notice (.wrote bytes) = x.arrive (Frame.ofWritten bytes) := rfl
      have hany : (Event.wrote bytes :: es).any Event.isParted = es.any Event.isParted := rfl
      unfold arrive at hnotice
      split at hnotice
      · next htaken =>
        obtain ⟨fs, gs, h⟩ := ih { x with inbox := x.inbox ++ [Frame.ofWritten bytes] }
        refine ⟨Frame.ofWritten bytes :: fs, gs, congrArg (_ :: ·) h.sent_eq, ?_, ?_,
          fun hne => absurd htaken.1 hne, h.refused⟩
        · rw [receive, List.foldl_cons, hnotice, ← receive, h.eq, hany, List.append_assoc]
          rfl
        · exact List.forall_mem_cons.mpr ⟨htaken.2, h.admitted⟩
      · next hrefuse =>
        obtain ⟨fs, gs, h⟩ := ih { x with unread := x.unread ++ [Frame.ofWritten bytes] }
        obtain rfl := h.behind (by simp)
        refine ⟨[], Frame.ofWritten bytes :: gs, congrArg (_ :: ·) h.sent_eq, ?_, nofun,
          fun _ => rfl, fun hnil f hf => ?_⟩
        · rw [receive, List.foldl_cons, hnotice, ← receive, h.eq, hany, List.append_assoc]
          rfl
        · cases hf
          rw [← Bool.not_eq_true]
          exact fun htaken => hrefuse ⟨hnil, htaken⟩
    | parted => exact hquiet rfl _ rfl rfl rfl rfl (Bool.or_true _).symm
    | took | pushed | spawned | turned | announced | stopped =>
      exact hquiet rfl _ rfl rfl rfl rfl (Bool.or_false _).symm

section

variable (x : Party σ) (es : List Event)

@[simp] theorem receive_settings : (x.receive es).settings = x.settings := by
  obtain ⟨_, _, h⟩ := x.received es
  rw [h.eq]

@[simp] theorem receive_node : (x.receive es).node = x.node := by
  obtain ⟨_, _, h⟩ := x.received es
  rw [h.eq]

end

end Party

end BlockSync.Session

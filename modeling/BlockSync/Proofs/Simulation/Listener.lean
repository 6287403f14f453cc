import BlockSync.Proofs.Session.Reading
import BlockSync.Simulation.Remote
import Mathlib.Logic.Relation

/-! A session that reads one message after another while the octets of its peer come in pieces. It
does not matter where the pieces are cut or when they come: the frames of the whole stream are read,
and then the session closes. -/

namespace BlockSync.Simulation

open Session (readMessage foresee Ready Reads)

namespace World

section

variable {id : SessionId} {link : LinkId} {count : ℕ} {wait : Session.Wait} {w : World}

theorem sessionAt_mapSession (h : id < w.members.length) (f : Session → Session) :
    (w.mapSession id f).sessionAt id = f (w.sessionAt id) := by
  simp [sessionAt, memberAt, mapSession, mapMember, List.getElem?_eq_getElem h]

theorem linkAt_mapLink (h : link < w.links.length) (f : Link → Link) :
    (w.mapLink link f).linkAt link = f (w.linkAt link) := by
  simp [linkAt, mapLink, List.getElem?_eq_getElem h]

theorem linkAt_mapLink_of_keeps {α : Type} (g : Link → α) {f : Link → Link}
    (hg : ∀ l, g (f l) = g l) (other : LinkId) :
    g ((w.mapLink other f).linkAt link) = g (w.linkAt link) := by
  simp only [linkAt, mapLink, List.getElem?_modify]
  cases w.links[link]? with
  | none => rfl
  | some l =>
    by_cases h : other = link
    · simp [h, hg]
    · simp [h]

theorem receive_of_le (hcut : w.isCut id wait.transport = false)
    (hlen : count ≤ (w.linkAt link).inbound.length) :
    w.receive id link count wait =
      some (.bytes ((w.linkAt link).inbound.take count),
        w.mapLink link fun l => { l with inbound := l.inbound.drop count }) := by
  have htaken : ((w.linkAt link).inbound.take count).length = count := by
    rw [List.length_take]
    omega
  simp only [receive, hcut, Bool.false_eq_true, if_false, if_pos htaken]

theorem receive_of_lt (hcut : w.isCut id wait.transport = false) (hwait : wait.deadline = none)
    (hpresent : (w.linkAt link).abandoned = false)
    (hlen : (w.linkAt link).inbound.length < count) :
    w.receive id link count wait =
      if (w.linkAt link).finished = true then
        some (.ended, w.mapLink link fun l => { l with inbound := [] })
      else none := by
  have htaken : ¬ ((w.linkAt link).inbound.take count).length = count := by
    rw [List.length_take]
    omega
  simp only [receive, hcut, Bool.false_eq_true, if_false, if_neg htaken, hpresent, Bool.or_false,
    hwait, Option.any_none]

end

end World

/-- A world in which a session is in a state, and what is still to come in pieces from its link,
behind what has come already, are the octets that it has not read. -/
structure Carries (id : SessionId) (link : LinkId) (w : World) (coming : List Bytes) (ended : Bool)
    (s : Session) (unread : Bytes) : Prop where
  member : id < w.members.length
  session : w.sessionAt id = s
  place : link < w.links.length
  octets : (w.linkAt link).inbound ++ coming.flatten = unread
  finished : (w.linkAt link).finished = ended
  last : ended = true → coming = []
  present : (w.linkAt link).abandoned = false
  running : w.stopping = false

namespace Carries

variable {id : SessionId} {link : LinkId} {w : World} {coming : List Bytes} {ended : Bool}
  {s s' : Session} {unread unread' : Bytes}

theorem mapSession (h : Carries id link w coming ended s unread) (f : Session → Session) :
    Carries id link (w.mapSession id f) coming ended (f s) unread := by
  constructor
  · simpa [World.mapSession, World.mapMember] using h.member
  · rw [World.sessionAt_mapSession h.member, h.session]
  · exact h.place
  · exact h.octets
  · exact h.finished
  · exact h.last
  · exact h.present
  · exact h.running

theorem mapLink (h : Carries id link w coming ended s unread) {other : LinkId} {f : Link → Link}
    {coming' : List Bytes} {ended' : Bool}
    (hoctets : ((w.mapLink other f).linkAt link).inbound ++ coming'.flatten = unread')
    (hfinished : ((w.mapLink other f).linkAt link).finished = ended')
    (hlast : ended' = true → coming' = [])
    (hpresent : ((w.mapLink other f).linkAt link).abandoned = false) :
    Carries id link (w.mapLink other f) coming' ended' s unread' := by
  constructor
  · exact h.member
  · exact h.session
  · simpa [World.mapLink] using h.place
  · exact hoctets
  · exact hfinished
  · exact hlast
  · exact hpresent
  · exact h.running

theorem keep (h : Carries id link w coming ended s unread) {f : Link → Link}
    (hinbound : ∀ l, (f l).inbound = l.inbound) (hfinished : ∀ l, (f l).finished = l.finished)
    (habandoned : ∀ l, (f l).abandoned = l.abandoned) (other : LinkId) :
    Carries id link (w.mapLink other f) coming ended s unread := by
  refine h.mapLink ?_ ?_ h.last ?_
  · rw [World.linkAt_mapLink_of_keeps Link.inbound hinbound, h.octets]
  · rw [World.linkAt_mapLink_of_keeps Link.finished hfinished, h.finished]
  · rw [World.linkAt_mapLink_of_keeps Link.abandoned habandoned, h.present]

theorem setInbound (h : Carries id link w coming ended s unread) {f : Bytes → Bytes}
    {coming' : List Bytes} (hoctets : f (w.linkAt link).inbound ++ coming'.flatten = unread')
    (hlast : ended = true → coming' = []) :
    Carries id link (w.mapLink link fun l => { l with inbound := f l.inbound }) coming' ended s
      unread' := by
  refine h.mapLink ?_ ?_ hlast ?_
  · rw [World.linkAt_mapLink h.place, hoctets]
  · rw [World.linkAt_mapLink h.place, ← h.finished]
  · rw [World.linkAt_mapLink h.place, ← h.present]

theorem finish (h : Carries id link w [] ended s unread) :
    Carries id link (w.mapLink link Link.finish) [] true s unread := by
  refine h.mapLink ?_ ?_ ?_ ?_
  · rw [World.linkAt_mapLink h.place, ← h.octets]
    rfl
  · rw [World.linkAt_mapLink h.place]
    rfl
  · intro _
    rfl
  · rw [World.linkAt_mapLink h.place, ← h.present]
    rfl

theorem arrive {piece : Bytes} (h : Carries id link w (piece :: coming) ended s unread) :
    Carries id link (w.mapLink link fun l => { l with inbound := l.inbound ++ piece }) coming ended
      s unread := by
  refine h.setInbound (f := fun octets => octets ++ piece) ?_ ?_
  · rw [← h.octets, List.flatten_cons, List.append_assoc]
  · intro hended
    cases h.last hended

theorem isCut_eq (h : Carries id link w coming ended s unread) {transport : Option ℕ}
    (hcurrent : transport.all s.isCurrent = true) : w.isCut id transport = false := by
  rw [World.isCut, h.running, h.session, Bool.false_or]
  cases transport with
  | none => rfl
  | some t =>
    rw [Option.all_some] at hcurrent
    rw [Option.any_some, hcurrent]
    rfl

/-- Waiting for octets comes to what was foreseen, or has to go on as long as the peer may say
more. -/
theorem receive (h : Carries id link w coming ended s unread) {count : ℕ} {wait : Session.Wait}
    {answer : Session.Received}
    (hf : foresee link s unread (.receive link count wait) = some (answer, s', unread')) :
    (∃ w', w.receive id link count wait = some (answer, w') ∧
      Carries id link w' coming ended s' unread') ∨
      w.receive id link count wait = none ∧ ended = false := by
  simp only [foresee, true_and] at hf
  split at hf
  case isFalse => cases hf
  rename_i hwait
  have hcut := h.isCut_eq hwait.2
  have hdeadline : wait.deadline = none := Option.isNone_iff_eq_none.mp hwait.1
  -- Pieces that come later can no longer change what is taken once there are octets enough.
  by_cases hlen : count ≤ (w.linkAt link).inbound.length
  · have hle : count ≤ unread.length := by
      rw [← h.octets, List.length_append]
      omega
    rw [if_pos hle] at hf
    cases hf
    refine .inl ⟨_, ?_, h.setInbound (f := List.drop count) ?_ h.last⟩
    · rw [World.receive_of_le hcut hlen, ← h.octets, List.take_append_of_le_length hlen]
    · rw [← h.octets, List.drop_append_of_le_length hlen]
  · rw [World.receive_of_lt hcut hdeadline h.present (Nat.lt_of_not_le hlen), h.finished]
    cases ended with
    | false => exact .inr ⟨if_neg (by decide), rfl⟩
    | true =>
      have hcoming := h.last rfl
      have hshort : ¬ count ≤ unread.length := by
        rw [← h.octets, hcoming, List.flatten_nil, List.append_nil]
        exact hlen
      rw [if_neg hshort] at hf
      cases hf
      refine .inl ⟨_, if_pos rfl, h.setInbound (f := fun _ => []) ?_ h.last⟩
      rw [hcoming]
      rfl

theorem perform (h : Carries id link w coming ended s unread) {op : Session.Op}
    {answer : Session.interface.Answer op}
    (hf : foresee link s unread op = some (answer, s', unread')) :
    (∃ w', w.performSession id op = some (answer, w') ∧
      Carries id link w' coming ended s' unread') ∨
      w.performSession id op = none ∧ ended = false := by
  cases op <;> simp only [foresee, reduceCtorEq] at hf
  case update f =>
    split at hf
    · cases hf
      exact .inl ⟨_, by rw [World.performSession, h.session], h.mapSession f⟩
    · cases hf
  case startReading =>
    cases hf
    exact .inl ⟨_, by rw [World.performSession, h.session], h.mapSession _⟩
  case hangUp other =>
    cases hf
    refine .inl ⟨_, rfl, ?_⟩
    refine h.keep ?_ ?_ ?_ other <;> intro l <;> rfl
  case ignore other =>
    cases hf
    refine .inl ⟨_, rfl, ?_⟩
    refine h.keep ?_ ?_ ?_ other <;> intro l <;> rfl
  case awaitTurn reading deadline =>
    cases deadline with
    | none =>
      simp only at hf
      split at hf
      · rename_i hturn
        cases hf
        refine .inl ⟨w, ?_, h⟩
        rw [World.performSession, h.session, if_pos hturn]
      · cases hf
    | some deadline => cases hf
  case receive source count wait =>
    by_cases hsource : source = link
    · subst hsource
      exact h.receive hf
    · rw [if_neg (fun hwait => hsource hwait.1)] at hf
      cases hf

end Carries

/-- A program that listens: the frames that it is still to give before it closes the session, the
octets that it leaves, and in how many steps. -/
inductive Hears (link : LinkId) :
    Session.Action (Option Frame) → Session → Bytes → List Frame → Bytes → ℕ → Prop
  | close {s left} : s.closed = true → Hears link (.done none) s left [] left 0
  | again {s unread f fs left n} : s.closed = false →
      Hears link (readMessage none) s unread fs left n →
      Hears link (.done (some f)) s unread (f :: fs) left (n + 1)
  | ask {op next s unread answer s' unread' fs left n} :
      foresee link s unread op = some (answer, s', unread') →
      Hears link (next answer) s' unread' fs left n →
      Hears link (.ask op next) s unread fs left (n + 1)

section

variable {link : LinkId} {p : Session.Action (Option Frame)} {a : Option Frame} {s s' : Session}
  {unread unread' left : Bytes} {fs : List Frame} {n : ℕ}

theorem Hears.of_reads (h : Reads link p s unread a s' unread')
    (hears : Hears link (.done a) s' unread' fs left n) :
    ∃ m, Hears link p s unread fs left m := by
  induction h with
  | done => exact ⟨n, hears⟩
  | ask hf _ ih =>
    obtain ⟨m, hm⟩ := ih hears
    exact ⟨m + 1, .ask hf hm⟩

theorem hears_of_splits (h : Frame.Splits unread fs left) (hs : Ready link s) :
    ∃ n, Hears link (readMessage none) s unread fs left n := by
  induction fs generalizing s unread with
  | nil =>
    obtain ⟨s', hclosed, hreads⟩ := Session.reads_readMessage_broken hs h
    exact Hears.of_reads hreads (.close hclosed)
  | cons f fs ih =>
    obtain ⟨s', rest, hready, hrest, hreads⟩ := Session.reads_readMessage hs h
    obtain ⟨n, hn⟩ := ih hrest hready
    exact Hears.of_reads hreads (.again hready.closed hn)

theorem Hears.eq_nil_of_closed (h : Hears link p s unread fs left n) (hs : s.closed = true) :
    fs = [] := by
  induction h with
  | close => rfl
  | again hopen =>
    rw [hs] at hopen
    cases hopen
  | ask hf _ ih => exact ih (Session.foresee_closed hf hs)

end

/-- Somebody who reads one message after another from a session, and the peer, who says a stream
piece by piece and then no more. -/
structure Listener where
  world : World
  coming : List Bytes
  reading : Session.Action (Option Frame)
  frames : List Frame

namespace Listener

def start (w : World) (pieces : List Bytes) : Listener := ⟨w, pieces, readMessage none, []⟩

/-- One step of either. -/
inductive Move (id : SessionId) (link : LinkId) : Listener → Listener → Prop
  | arrive {w piece coming p fs} :
      Move id link ⟨w, piece :: coming, p, fs⟩
        ⟨w.mapLink link fun l => { l with inbound := l.inbound ++ piece }, coming, p, fs⟩
  | finish {w p fs} : (w.linkAt link).finished = false →
      Move id link ⟨w, [], p, fs⟩ ⟨w.mapLink link Link.finish, [], p, fs⟩
  | proceed {w w' coming op next answer fs} : w.performSession id op = some (answer, w') →
      Move id link ⟨w, coming, .ask op next, fs⟩ ⟨w', coming, next answer, fs⟩
  | again {w coming f fs} :
      Move id link ⟨w, coming, .done (some f), fs⟩ ⟨w, coming, readMessage none, fs ++ [f]⟩

/-- What the frames that were read say. -/
def messages (x : Listener) : List (Except Wire.Fault Message) :=
  x.frames.map fun f => Message.ofPayload f.tag f.payload

/-- A listener that is to have read some frames and to leave some octets, and the steps that there
are until then, those of the peer included. -/
def Foretold (id : SessionId) (link : LinkId) (fs : List Frame) (left : Bytes) (steps : ℕ)
    (x : Listener) : Prop :=
  ∃ ended s unread rest n, Carries id link x.world x.coming ended s unread ∧
    Hears link x.reading s unread rest left n ∧ x.frames ++ rest = fs ∧
    n + x.coming.length + (!ended).toNat = steps

section

variable {id : SessionId} {link : LinkId} {fs : List Frame} {left : Bytes} {steps : ℕ}
  {x y : Listener}

theorem Foretold.move (h : Foretold id link fs left steps x) (hm : Move id link x y) :
    ∃ m < steps, Foretold id link fs left m y := by
  obtain ⟨ended, s, unread, rest, n, hw, hears, hfs, rfl⟩ := h
  cases hm with
  | arrive =>
    refine ⟨_, ?_, ended, s, unread, rest, n, hw.arrive, hears, hfs, rfl⟩
    simp only [List.length_cons]
    omega
  | finish hfinished =>
    rw [hw.finished] at hfinished
    subst hfinished
    refine ⟨_, ?_, true, s, unread, rest, n, hw.finish, hears, hfs, rfl⟩
    simp
  | proceed hp =>
    cases hears with
    | ask hf hears =>
      -- The world may let an operation wait, but answers nothing else than what was foreseen.
      rcases hw.perform hf with ⟨w', hp', hw'⟩ | ⟨hnone, -⟩
      · rw [hp'] at hp
        cases hp
        refine ⟨_, ?_, ended, _, _, _, _, hw', hears, hfs, rfl⟩
        dsimp only
        omega
      · rw [hnone] at hp
        cases hp
  | again =>
    cases hears with
    | again hopen hears =>
      refine ⟨_, ?_, ended, _, _, _, _, hw, hears, ?_, rfl⟩
      · dsimp only
        omega
      · rw [← hfs, List.append_assoc, List.singleton_append]

theorem Foretold.acc (h : Foretold id link fs left steps x) :
    Acc (fun z y => Move id link y z) x := by
  induction steps using Nat.strongRecOn generalizing x with
  | _ steps ih =>
    constructor
    intro y hm
    obtain ⟨m, hlt, hy⟩ := h.move hm
    exact ih m hlt hy

theorem Foretold.execution (h : Foretold id link fs left steps x)
    (hx : Relation.ReflTransGen (Move id link) x y) : ∃ m, Foretold id link fs left m y := by
  induction hx with
  | refl => exact ⟨steps, h⟩
  | tail _ hm ih =>
    obtain ⟨m, hy⟩ := ih
    obtain ⟨k, -, hz⟩ := hy.move hm
    exact ⟨k, hz⟩

theorem Foretold.begins (h : Foretold id link fs left steps x) : x.frames <+: fs := by
  obtain ⟨ended, s, unread, rest, n, hw, hears, hfs, -⟩ := h
  exact ⟨rest, hfs⟩

theorem Foretold.frames_of_closed (h : Foretold id link fs left steps x)
    (hclosed : (x.world.sessionAt id).closed = true) : x.frames = fs := by
  obtain ⟨ended, s, unread, rest, n, hw, hears, hfs, -⟩ := h
  rw [hw.session] at hclosed
  rw [← hfs, hears.eq_nil_of_closed hclosed, List.append_nil]

theorem Foretold.stuck (h : Foretold id link fs left steps x) (hx : ∀ y, ¬ Move id link x y) :
    x.reading = .done none ∧ (x.world.sessionAt id).closed = true ∧ x.frames = fs ∧
      (x.world.linkAt link).inbound = left := by
  obtain ⟨ended, s, unread, rest, n, hw, hears, hfs, -⟩ := h
  obtain ⟨w, coming, reading, frames⟩ := x
  cases coming with
  | cons piece coming => exact (hx _ .arrive).elim
  | nil =>
    cases hears with
    | close hclosed =>
      refine ⟨rfl, ?_, ?_, ?_⟩
      · rw [hw.session, hclosed]
      · rw [← hfs, List.append_nil]
      · rw [← hw.octets, List.flatten_nil, List.append_nil]
    | again => exact (hx _ .again).elim
    | ask hf =>
      rcases hw.perform hf with ⟨w', hp, -⟩ | ⟨-, hended⟩
      · exact (hx _ (.proceed hp)).elim
      · exact (hx _ (.finish (hw.finished.trans hended))).elim

end

/-- Whether nothing keeps a session from reading a link that nothing was said on. -/
structure Listening (id : SessionId) (link : LinkId) (w : World) : Prop where
  member : id < w.members.length
  ready : Ready link (w.sessionAt id)
  place : link < w.links.length
  silent : (w.linkAt link).inbound = []
  unfinished : (w.linkAt link).finished = false
  present : (w.linkAt link).abandoned = false
  running : w.stopping = false

/-- What a listener is in the end, when a stream was said to it. -/
structure Heard (id : SessionId) (link : LinkId) (stream : Bytes) (x : Listener) : Prop where
  done : x.reading = .done none
  closed : (x.world.sessionAt id).closed = true
  frames : x.frames = Frame.all stream
  left : Frame.Splits stream x.frames (x.world.linkAt link).inbound
  delivered : ∀ ms : List Message, (∀ m ∈ ms, m.Deliverable) →
    stream = ms.flatMap Message.frame → x.messages = ms.map .ok
  /-- A message that cannot be delivered is not, nor is what follows it. -/
  withheld : ∀ (ms : List Message) (m : Message) (rest : Bytes), (∀ m ∈ ms, m.Deliverable) →
    ¬ m.Deliverable → m.payload.length + 1 < UInt32.size →
    stream = ms.flatMap Message.frame ++ (m.frame ++ rest) → x.messages = ms.map .ok

section

variable {id : SessionId} {link : LinkId} {w : World} {x : Listener} {stream left : Bytes}

theorem foretold_start (h : Listening id link w) (pieces : List Bytes) :
    ∃ left steps, Frame.Splits pieces.flatten (Frame.all pieces.flatten) left ∧
      Foretold id link (Frame.all pieces.flatten) left steps (start w pieces) := by
  obtain ⟨left, hsplits⟩ := Frame.splits_all pieces.flatten
  obtain ⟨n, hears⟩ := hears_of_splits hsplits h.ready
  refine ⟨left, _, hsplits, false, _, _, _, n, ?_, hears, rfl, rfl⟩
  constructor
  · exact h.member
  · rfl
  · exact h.place
  · change (w.linkAt link).inbound ++ pieces.flatten = pieces.flatten
    rw [h.silent, List.nil_append]
  · exact h.unfinished
  · intro hended
    cases hended
  · exact h.present
  · exact h.running

theorem messages_of_seen {ms : List Message} (hms : ∀ m ∈ ms, m.Deliverable)
    (hx : x.frames = ms.map Message.seen) : x.messages = ms.map .ok := by
  rw [messages, hx, List.map_map]
  refine List.map_congr_left ?_
  intro m hm
  exact Message.ofPayload_seen (hms m hm)

end

/-- Whatever the pieces are and whenever they come, the frames of the stream are read, and then the
session closes. -/
theorem whole_stream_is_heard {id : SessionId} {link : LinkId} {w : World}
    (h : Listening id link w) (pieces : List Bytes) :
    Acc (fun y x => Move id link x y) (start w pieces) ∧
      ∀ x, Relation.ReflTransGen (Move id link) (start w pieces) x →
        x.frames <+: Frame.all pieces.flatten ∧
        ((x.world.sessionAt id).closed = true → x.frames = Frame.all pieces.flatten) ∧
        ((∀ y, ¬ Move id link x y) → Heard id link pieces.flatten x) := by
  obtain ⟨left, steps, hsplits, hstart⟩ := foretold_start h pieces
  refine ⟨hstart.acc, fun x hx => ?_⟩
  obtain ⟨m, hforetold⟩ := hstart.execution hx
  refine ⟨hforetold.begins, hforetold.frames_of_closed, fun hstuck => ?_⟩
  obtain ⟨hdone, hclosed, hframes, hleft⟩ := hforetold.stuck hstuck
  constructor
  · exact hdone
  · exact hclosed
  · exact hframes
  · rw [hframes, hleft]
    exact hsplits
  · intro ms hms hstream
    rw [hstream, Frame.all_written hms] at hframes
    exact messages_of_seen hms hframes
  · intro ms m rest hms hm hlen hstream
    rw [hstream, Frame.all_undeliverable hms hm hlen rest] at hframes
    exact messages_of_seen hms hframes

/-- A session with an open link that nothing was said on. -/
def silentWorld : World where
  settings := {}
  ledger := .memory (Chain.Memory.ofSnapshot (Octets.zero 32) 0 (Octets.zero 32))
  members := [{ peer := "", session := Session.attach 0 {} }]
  links := [{}]

/-- A probe that is cut within its length, and a block of no octets behind it. -/
def cutPieces : List Bytes :=
  [(Message.time {}).frame.take 3, (Message.time {}).frame.drop 3, (Message.signedBlock []).frame]

theorem cutPieces_are_heard :
    Listening 0 0 silentWorld ∧
      ∀ x, Relation.ReflTransGen (Move 0 0) (start silentWorld cutPieces) x →
        (∀ y, ¬ Move 0 0 x y) →
        (x.world.sessionAt 0).closed = true ∧ x.messages = [.ok (.time {})] := by
  have h : Listening 0 0 silentWorld := by
    constructor
    · decide
    · exact ⟨rfl, rfl, rfl, rfl⟩
    · decide
    · rfl
    · rfl
    · rfl
    · rfl
  refine ⟨h, fun x hx hstuck => ?_⟩
  have heard := ((whole_stream_is_heard h cutPieces).2 x hx).2.2 hstuck
  refine ⟨heard.closed, ?_⟩
  refine heard.withheld [.time {}] (.signedBlock []) [] ?_ ?_ ?_ ?_
  · intro m hm
    rw [List.mem_singleton.mp hm]
    exact ⟨by decide, by decide⟩
  · intro hm
    exact absurd hm.1 (by decide)
  · decide
  · simp [cutPieces, ← List.append_assoc]

end Listener

end BlockSync.Simulation

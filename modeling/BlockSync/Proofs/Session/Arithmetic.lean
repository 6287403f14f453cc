import BlockSync.Chain.Fixture
import BlockSync.Proofs.Chain.Memory
import BlockSync.Proofs.Session.Lifecycle
import BlockSync.Proofs.Wire.Cursor
import BlockSync.Proofs.Wire.Sizes

/-! No arithmetic of the receive path leaves the range of its words. The path is written once more
with its sums, differences, shifts and slices checked, and comes to the same; what depends on the
state is shown of every state that a session over a chain in memory can come to, whatever its
operations answer and in whatever order its calls go on. -/

namespace BlockSync

open Wire (write)

def Header.ageChecked (h : Header) (now : Int64) : Option Int := do
  let span ← Checked.signed 64 (h.slot.toNat * slotMillis)
  let time ← Checked.signed 64 (span + epochMillis)
  Checked.signed 64 (now.toInt / 1000000 - time)

theorem Header.ageChecked_eq (h : Header) (now : Int64) :
    h.ageChecked now = some (now.toInt / 1000000 - h.timeMillis) := by
  have hslot := h.slot.toNat_lt
  have hlow := now.le_toInt
  have hhigh := now.toInt_lt
  rw [ageChecked, timeMillis, slotMillis, epochMillis]
  rw [Checked.signed_of_bounds (by omega) (by omega), Option.bind_eq_bind, Option.bind_some]
  rw [Checked.signed_of_bounds (by omega) (by omega), Option.bind_some]
  exact Checked.signed_of_bounds (by omega) (by omega)

namespace Message

def frameChecked (m : Message) : Option Bytes := do
  let _ ← Checked.add 64 m.payload.length 5
  let length ← Checked.add 32 (m.payload.length % 2 ^ 32) 1
  return write (UInt32.ofNat length) ++ write m.kind.tag ++ m.payload

theorem frameChecked_eq {m : Message} (h : m.payload.length + 1 < 2 ^ 32) :
    m.frameChecked = some m.frame := by
  have hmod : m.payload.length % 2 ^ 32 = m.payload.length := Nat.mod_eq_of_lt (by omega)
  have hroom : Checked.add 64 m.payload.length 5 = some (m.payload.length + 5) :=
    if_pos (by omega)
  have hlength : Checked.add 32 m.payload.length 1 = some (m.payload.length + 1) := if_pos h
  simp only [frameChecked, hmod, hroom, hlength, Option.bind_eq_bind, Option.bind_some]
  rw [frame, UInt32.ofNat_add]
  rfl

end Message

namespace Session

open BlockSync.Session.Action

def Small (size : Nat) : Prop := size + 1 < 5 * 1024 * 1024

/-- Whether the configured texts are short enough for a handshake. -/
structure Terse (settings : Settings) : Prop where
  p2pAddress : (Text.utf8 settings.p2pAddress).length < 2 ^ 30
  agent : (Text.utf8 settings.agent).length < 2 ^ 30

theorem Own.length_payload {settings : Settings} (ht : Terse settings) {m : Message}
    (h : Own settings Small m) : m.payload.length + 1 < 2 ^ 32 := by
  cases h with
  | @handshake m hp ho ha =>
    have hp' := (Wire.length_write_string settings.p2pAddress).2
    have ho' := (Wire.length_write_string hostOs).2
    have ha' := (Wire.length_write_string settings.agent).2
    have hos : (Text.utf8 hostOs).length = 5 := by decide +kernel
    have hterse := ht.p2pAddress
    have hterse' := ht.agent
    rw [Message.length_handshake, hp, ho, ha]
    omega
  | goAway m =>
    change (write m.reason.code ++ write m.nodeId : Bytes).length + 1 < _
    rw [List.length_append, Wire.length_write_uint32, Wire.length_write_octets]
    decide
  | time m =>
    have hlength (t : Int64) : (write t : Bytes).length = 8 := Wire.length_littleEndian 8 _
    change (write m.origin ++ write m.receive ++ write m.transmit ++ write m.destination :
      Bytes).length + 1 < _
    simp only [List.length_append, hlength]
    decide
  | @notice m ht hb =>
    have hlength := (Wire.length_write_idLists m.transactions m.blocks).2
    change (write m.transactions ++ write m.blocks : Bytes).length + 1 < _
    omega
  | request anchor =>
    have hlength := (Wire.length_write_idLists (Request.catchUp anchor).transactions
      (Request.catchUp anchor).blocks).2
    change _ ≤ 26 + 32 * (0 + 1) at hlength
    change (write (Request.catchUp anchor).transactions ++ write (Request.catchUp anchor).blocks :
      Bytes).length + 1 < _
    omega
  | syncRequest range =>
    rw [Message.length_syncRequest]
    decide
  | @signedBlock raw hraw =>
    unfold Small at hraw
    change raw.length + 1 < _
    omega

def handleHandshakeChecked (settings : Settings) (m : Handshake) : Action (Option Bool) := do
  modifyPeer (PeerState.setHandshake m)
  let headNum ← chain .headNum
  let headId ← chain .headId
  let libNum ← chain .libNum
  if headNum < m.libNum then some <$> sendSyncRequest settings none none
  else if headId = m.headId then return some true
  else if headNum < m.headNum then some <$> sendCatchUp
  else if satAdd m.headNum inStep < libNum then
    some <$> send (.notice {
      transactions := { mode := .lastIrreversible, pending := libNum }
      blocks := { mode := .lastIrreversible, pending := headNum, ids := [headId] } })
  else if satAdd m.headNum inStep < headNum then
    match Checked.sub headNum.toNat m.headNum.toNat with
    | none => return none
    | some _ => some <$> do
      let earliest ← chain .earliest
      send (.notice {
        blocks :=
          { mode := .catchUp, pending := headNum, ids := [headId, Checksum.ofBlockNum earliest] } })
  else return some true

theorem lt_of_satAdd_lt {a b c : UInt32} (h : satAdd a b < c) : a.toNat + b.toNat < c.toNat := by
  have hlt := UInt32.lt_iff_toNat_lt.mp h
  have hc := c.toNat_lt
  rw [toNat_satAdd, UInt32.size] at hlt
  omega

theorem request_eq_map {α β : Type} {o : Op} {f : interface.Answer o → Action β}
    {g : interface.Answer o → Action α} {h : α → β} (hfg : ∀ r, f r = h <$> g r) :
    Program.request (I := interface) o >>= f = h <$> (Program.request (I := interface) o >>= g) :=
  congrArg (Program.ask (I := interface) o) (funext hfg)

theorem map_ite {α β : Type} {c : Prop} [Decidable c] (f : α → β) (p q : Action α) :
    f <$> (if c then p else q) = if c then f <$> p else f <$> q := apply_ite (f <$> ·) c p q

theorem handleHandshakeChecked_eq (settings : Settings) (m : Handshake) :
    handleHandshakeChecked settings m = some <$> handleHandshake settings m := by
  refine request_eq_map (o := .updatePeer (PeerState.setHandshake m)) fun _ => ?_
  refine request_eq_map (o := .chain .headNum) fun headNum => ?_
  refine request_eq_map (o := .chain .headId) fun headId => ?_
  refine request_eq_map (o := .chain .libNum) fun libNum => ?_
  simp only [map_ite]
  by_cases hlead : satAdd m.headNum inStep < headNum
  · have hlt := lt_of_satAdd_lt hlead
    have hsub : Checked.sub headNum.toNat m.headNum.toNat =
        some (headNum.toNat - m.headNum.toNat) := if_pos (by omega)
    rw [if_pos hlead, if_pos hlead, hsub]
    rfl
  · rw [if_neg hlead, if_neg hlead]
    rfl

def offerAged (settings : Settings) (header : Header) (raw : Bytes) (age : Int) : Action Bool := do
  match ← push raw (age < statisticsAge) with
  | .ok _ =>
    rest
    afterBlock settings header.blockNum raw.length
  | .error .unlinkable => restart
  | .error fault =>
    if fault.isAlreadyKnown then return true
    stop
    return false

theorem offerBlock_eq (settings : Settings) (header : Header) (raw : Bytes) :
    offerBlock settings header raw = (do
      let now ← clock
      offerAged settings header raw (now.toInt / 1000000 - header.timeMillis)) := rfl

def offerBlockChecked (settings : Settings) (header : Header) (raw : Bytes) :
    Action (Option Bool) := do
  match header.ageChecked (← clock) with
  | none => return none
  | some age => some <$> offerAged settings header raw age

theorem offerBlockChecked_eq (settings : Settings) (header : Header) (raw : Bytes) :
    offerBlockChecked settings header raw = some <$> offerBlock settings header raw := by
  rw [offerBlock_eq]
  refine request_eq_map (o := .clock) fun now => ?_
  rw [header.ageChecked_eq now]

def handleBlockChecked (settings : Settings) (raw : Bytes) : Action (Option Bool) := do
  match Header.ofBlockAt raw with
  | none => return none
  | some (.error _) => return some false
  | some (.ok header) =>
    let num := header.blockNum
    let headNum ← chain .headNum
    if num ≤ headNum then
      let id ← chain (.idAt num)
      if id = some header.id then return some true
      offerBlockChecked settings header raw
    else if satAdd headNum 1 < num then
      match Checked.add 32 headNum.toNat 1 with
      | none => return none
      | some _ => some <$> restart
    else offerBlockChecked settings header raw

theorem handleBlockChecked_eq (settings : Settings) {raw : Bytes} (h : raw.length < 2 ^ 64) :
    handleBlockChecked settings raw = some <$> handleBlock settings raw := by
  unfold handleBlockChecked handleBlock
  rw [Header.ofBlockAt_eq h]
  cases Header.ofBlock raw with
  | error fault => rfl
  | ok header =>
    refine request_eq_map (o := .chain .headNum) fun headNum => ?_
    have hknown : (do
        let id ← chain (.idAt header.blockNum)
        if id = some header.id then return some true
        offerBlockChecked settings header raw) =
        some <$> (do
          let id ← chain (.idAt header.blockNum)
          if id = some header.id then return true
          offerBlock settings header raw) := by
      refine request_eq_map (o := .chain (.idAt header.blockNum)) fun id => ?_
      rw [map_ite, offerBlockChecked_eq]
      rfl
    simp only [map_ite]
    rw [hknown, offerBlockChecked_eq]
    by_cases hgap : satAdd headNum 1 < header.blockNum
    · -- A number above the number above the head is a word, and so is the lesser one.
      have hlt := lt_of_satAdd_lt hgap
      have hnum := header.blockNum.toNat_lt
      have hone : (1 : UInt32).toNat = 1 := rfl
      have hadd : Checked.add 32 headNum.toNat 1 = some (headNum.toNat + 1) := if_pos (by omega)
      rw [if_pos hgap, if_pos hgap, hadd]
    · rw [if_neg hgap, if_neg hgap]

/-- What a frame leads to, with all arithmetic on the way checked. -/
def handleFrameChecked (settings : Settings) (frame : Frame) : Action (Option Bool) := do
  if ← isStopping then return some false
  match Message.ofPayloadAt frame.tag frame.payload with
  | none => return none
  | some (.ok (.handshake m)) => handleHandshakeChecked settings m
  | some (.ok (.signedBlock raw)) => handleBlockChecked settings raw
  | some (.ok m) => some <$> dispatch settings m
  | some (.error (.unknownTag _)) => return some true
  | some (.error _) => some <$> do
    shut
    return false

theorem handleFrameChecked_eq (settings : Settings) {frame : Frame}
    (h : frame.payload.length < 2 ^ 64) :
    handleFrameChecked settings frame = some <$> handleFrame settings frame := by
  refine request_eq_map (o := .isStopping) fun stopping => ?_
  rw [map_ite, Message.ofPayloadAt_eq frame.tag h]
  congr 1
  cases hm : Message.ofPayload frame.tag frame.payload with
  | ok m =>
    cases m with
    | handshake m => exact handleHandshakeChecked_eq settings m
    | signedBlock raw =>
      rw [← Message.raw_of_ofPayload hm] at h
      exact handleBlockChecked_eq settings h
    | _ => rfl
  | error fault => cases fault <;> rfl

def Call.Inbound : Call → Prop
  | .send _ | .dispatch _ => False
  | _ => True

theorem routine_call (settings : Settings) {c : Call} (h : c.Inbound) :
    Routine settings Small True (fun _ => True) (c.program settings) := by
  have hsizes : ∀ payload, Fitting payload → Small payload.length := fun _ hp => hp.2
  have hcall {α : Type} {post : α → Prop} {p : Action α} (hp : Routine settings Small True post p) :
      Routine settings Small True (fun _ => True) (do let _ ← p) :=
    .andThen (hp.mono fun _ _ => trivial) fun _ => .pure trivial
  cases c with
  | connect target => exact hcall (routine_connect _ _ target)
  | attach link => exact routine_install _ _ link
  | reset => exact routine_reset _ _ _
  | close => exact routine_shut _ _ _
  | send m => exact h.elim
  | read deadline => exact hcall (routine_readMessage _ _ _ deadline)
  | probe => exact hcall (routine_estimateLatency _ _ _)
  | greet => exact hcall (routine_greet _ _ _)
  | resync => exact hcall (routine_resync _ _ _)
  | dispatch m => exact h.elim
  | receive => exact hcall (routine_receiveOnce _ _ _ hsizes)
  | run a => exact hcall (routine_runOnce _ _ _ a)

/-- A chain in memory and a session over it, with what is left of each call that goes on. -/
structure Host where
  chain : Chain.Memory
  session : Session := {}
  calls : List (Action Unit) := []

namespace Host

/-- What an operation may answer. The chain and the session answer for themselves. -/
def Allows (h : Host) : (op : Op) → interface.Answer op → Prop
  | .chain q, a => a = h.chain.answer q
  | .push raw wantStatistics, result => result = (h.chain.push raw wantStatistics).2
  | op, r => h.session.Allows op r

def after (h : Host) : Op → Host
  | .push raw wantStatistics => { h with chain := (h.chain.push raw wantStatistics).1 }
  | op => { h with session := h.session.after op }

/-- Calls begin, and go on one operation at a time, in any order. -/
inductive Step (settings : Settings) (h : Host) : Host → Prop
  | call {c : Call} : c.Inbound → Step settings h { h with calls := c.program settings :: h.calls }
  | ask {before rest op next r} : h.calls = before ++ .ask op next :: rest → h.Allows op r →
      Step settings h { h.after op with calls := before ++ next r :: rest }
  | finish {before rest} : h.calls = before ++ .done () :: rest →
      Step settings h { h with calls := before ++ rest }

/-- What a new session can come to over a chain. -/
inductive Reaches (settings : Settings) (start : Chain.Memory) : Host → Prop
  | new : Reaches settings start { chain := start }
  | step {h h' : Host} : Reaches settings start h → h.Step settings h' → Reaches settings start h'

/-- Blocks are of the sizes of frames, and the counters far from the ends of their words. -/
structure Fit (h : Host) : Prop where
  blocks : ∀ b ∈ h.chain.blocks, Small b.raw.length
  peer : h.session.peer.Counts
  throughput : h.session.throughput.Bounded (5 * 1024 * 1024)

section

variable {settings : Settings} {h h' : Host}

theorem Fit.gives (hf : h.Fit) {op : Op} {r : interface.Answer op} (hr : h.Allows op r) :
    Routine.Gives Small op r := by
  cases op with
  | receive link count wait =>
    cases r with
    | bytes b => exact hr
    | ended | cut | late => trivial
  | chain q =>
    cases q with
    | blockAt num =>
      intro raw hraw
      rw [show r = _ from hr] at hraw
      obtain ⟨b, hb, rfl⟩ := Option.map_eq_some_iff.mp hraw
      exact hf.blocks b (Chain.Store.mem_of_get? hb).1
    | _ => trivial
  | _ => trivial

theorem Fit.push (hf : h.Fit) {raw : Bytes} (hraw : Small raw.length) (wantStatistics : Bool) :
    ∀ b ∈ (h.chain.push raw wantStatistics).1.blocks, Small b.raw.length := by
  have hp := Chain.Memory.pushed h.chain raw wantStatistics
  generalize h.chain.push raw wantStatistics = p at hp
  cases hp with
  | malformed | known | unlinkable => exact hf.blocks
  | linked =>
    intro b hb
    rcases Chain.Memory.mem_extend hb with rfl | hb
    · exact hraw
    · exact hf.blocks b hb

theorem Fit.after (hf : h.Fit) {op : Op} (hop : Routine.Asks settings Small True op) :
    (h.after op).Fit := by
  cases op with
  | update f =>
    rcases hop with htidy | ⟨-, hopening⟩
    · refine ⟨hf.blocks, ?_, ?_⟩
      · change (f h.session).peer.Counts
        rw [htidy.peer]
        exact hf.peer
      · change (f h.session).throughput.Bounded _
        rw [htidy.throughput]
        exact hf.throughput
    · cases hopening <;> exact ⟨hf.blocks, hf.peer, hf.throughput⟩
  | updatePeer f => exact ⟨hf.blocks, hop _ hf.peer, hf.throughput⟩
  | measure f =>
    refine ⟨hf.blocks, hf.peer, ?_⟩
    cases hop with
    | clear => exact Throughput.bounded_empty _
    | block now num head hsize =>
      exact (hf.throughput.record (Nat.le_of_lt (Nat.lt_of_succ_lt hsize)) now).report now num head
  | push raw wantStatistics => exact ⟨hf.push hop wantStatistics, hf.peer, hf.throughput⟩
  | _ => exact ⟨hf.blocks, hf.peer, hf.throughput⟩

/-- Every state is fit, and its calls ask for what a session may ask for. -/
theorem Reaches.fit {start : Chain.Memory} (hstart : start.blocks = [])
    (hr : Reaches settings start h) :
    h.Fit ∧ ∀ p ∈ h.calls, Routine settings Small True (fun _ => True) p := by
  induction hr with
  | new =>
    refine ⟨⟨?_, PeerState.counts_fresh, Throughput.bounded_empty _⟩, fun p hp => nomatch hp⟩
    intro b hb
    change b ∈ start.blocks at hb
    rw [hstart] at hb
    cases hb
  | @step h h' _ hstep ih =>
    obtain ⟨hf, hcalls⟩ := ih
    cases hstep with
    | call hc =>
      refine ⟨⟨hf.blocks, hf.peer, hf.throughput⟩, fun p hp => ?_⟩
      rcases List.mem_cons.mp hp with rfl | hp
      · exact routine_call settings hc
      · exact hcalls p hp
    | @ask before rest op next r hat hanswer =>
      rw [hat] at hcalls
      have hasks := hcalls _ (List.mem_append_right _ List.mem_cons_self)
      have hfit := hf.after hasks.1
      refine ⟨⟨hfit.blocks, hfit.peer, hfit.throughput⟩, fun p hp => ?_⟩
      rcases List.mem_append.mp hp with hp | hp
      · exact hcalls p (List.mem_append_left _ hp)
      · rcases List.mem_cons.mp hp with rfl | hp
        · exact hasks.2 r () (hf.gives hanswer)
        · exact hcalls p (List.mem_append_right _ (List.mem_cons_of_mem _ hp))
    | @finish before rest hat =>
      rw [hat] at hcalls
      refine ⟨⟨hf.blocks, hf.peer, hf.throughput⟩, fun p hp => ?_⟩
      rcases List.mem_append.mp hp with hp | hp
      · exact hcalls p (List.mem_append_left _ hp)
      · exact hcalls p (List.mem_append_right _ (List.mem_cons_of_mem _ hp))

end

/-- In a state, no arithmetic of what may come next leaves its range. -/
structure InRange (settings : Settings) (h : Host) : Prop where
  generation : h.session.peer.advanceChecked = some h.session.peer.advanceGeneration
  /-- What is about to be measured is counted and reported without leaving a word. -/
  measured : ∀ f next, .ask (.measure f) next ∈ h.calls → f = (fun _ => {}) ∨
    ∃ size now num head,
      f = (fun t => ((t.record size now).report now num head).1) ∧
        h.session.throughput.tallyChecked size now num head = some (f h.session.throughput)
  written : ∀ link frame next, .ask (.send link frame) next ∈ h.calls →
    (∃ m : Message, m.frame = frame ∧ m.frameChecked = some frame) ∨ Proxied frame
  awaited : ∀ link count wait next, .ask (.receive link count wait) next ∈ h.calls → 1 ≤ count
  /-- Whatever frame comes in, its handling with all arithmetic checked is its handling. -/
  handled : ∀ frame : Frame, frame.payload.length < 2 ^ 64 →
    handleFrameChecked settings frame = some <$> handleFrame settings frame

/-- Whatever comes in, and in whatever order the calls go on: over a chain that holds no blocks but
those that came in, no arithmetic leaves its range. -/
theorem arithmetic_in_range {settings : Settings} (ht : Terse settings) {start : Chain.Memory}
    (hstart : start.blocks = []) {h : Host} (hr : Reaches settings start h) :
    h.InRange settings := by
  obtain ⟨hf, hcalls⟩ := hr.fit hstart
  constructor
  · exact hf.peer.advanceChecked
  · intro f next hp
    have hasks := (hcalls _ hp).1
    cases hasks with
    | clear => exact .inl rfl
    | @block size now num head hsize =>
      refine .inr ⟨size, now, num, head, rfl, ?_⟩
      have hle := Nat.le_of_lt (Nat.lt_of_succ_lt hsize)
      exact hf.throughput.tallyChecked (by decide) hle now num head
  · intro link frame next hp
    rcases (hcalls _ hp).1 with ⟨m, hm, rfl⟩ | ⟨-, hproxied⟩
    · exact .inl ⟨m, rfl, Message.frameChecked_eq (hm.length_payload ht)⟩
    · exact .inr hproxied
  · intro link count wait next hp
    exact (hcalls _ hp).1
  · exact fun frame hlength => handleFrameChecked_eq settings hlength

def play (answers : Host → (op : Op) → interface.Answer op) : Nat → Host → Host
  | 0, h => h
  | n + 1, h =>
    match h.calls with
    | .ask op next :: rest =>
      play answers n { h.after op with calls := next (answers h op) :: rest }
    | _ => h

theorem Reaches.play {settings : Settings} {start : Chain.Memory} {h : Host}
    {answers : Host → (op : Op) → interface.Answer op}
    (hanswers : ∀ (h : Host) op, h.Allows op (answers h op)) (n : Nat)
    (hr : Reaches settings start h) : Reaches settings start (h.play answers n) := by
  induction n generalizing h with
  | zero => exact hr
  | succ n ih =>
    unfold Host.play
    split
    · next op next rest hcalls =>
      exact ih (hr.step (@Step.ask _ _ [] rest op next _ hcalls (hanswers h op)))
    · exact hr

/-- Whether the latest call is about to ask for an operation of some kind. -/
def isAbout (h : Host) (kind : Op → Bool) : Bool :=
  match h.calls with
  | .ask op _ :: _ => kind op
  | _ => false

def lateChain : Chain.Memory :=
  .ofSnapshot (Octets.zero 32) 0xfffffffe (Checksum.ofBlockNum 0xfffffffe)

def lastBlock : Frame :=
  ⟨MessageKind.signedBlock.tag, (Chain.fixture lateChain.headId lateChain.headNum 1).flatten⟩

def lastBlockWorld (h : Host) : (op : Op) → interface.Answer op
  | .chain q => h.chain.answer q
  | .push raw wantStatistics => (h.chain.push raw wantStatistics).2
  | .receive _ count _ => partOf lastBlock count
  | op => promptWorld h.session op

theorem allows_lastBlockWorld (h : Host) (op : Op) : h.Allows op (lastBlockWorld h op) := by
  cases op with
  | receive link count wait =>
    change h.session.Allows (.receive link count wait) (partOf lastBlock count)
    rcases partOf_eq lastBlock count with ⟨b, hlength, heq⟩ | heq <;> rw [heq]
    · exact hlength
    · trivial
  | chain | push | update | startReading | updatePeer => rfl
  | _ => trivial

def called (c : Call) (n : Nat) (h : Host) : Host :=
  play lastBlockWorld n { h with calls := c.program {} :: h.calls }

theorem Reaches.called {start : Chain.Memory} {h : Host} (c : Call) (hc : c.Inbound) (n : Nat)
    (hr : Reaches {} start h) : Reaches {} start (h.called c n) :=
  .play allows_lastBlockWorld n (hr.step (.call hc))

def linkedHost : Host := called (.attach 0) 1 { chain := lateChain }

theorem reaches_linkedHost : Reaches {} lateChain linkedHost := .called (.attach 0) trivial 1 .new

def grownHost : Host := linkedHost.called .receive 17

/-- The last block is waited for, measured and answered by a handshake. -/
theorem arithmetic_in_range_of_lastBlock :
    (∃ h : Host, h.InRange {} ∧ h.isAbout (· matches .receive _ 184 _) = true) ∧
    (∃ h : Host, h.InRange {} ∧ h.chain.headNum = 0xffffffff ∧
      h.isAbout (· matches .measure _) = true) ∧
    ∃ h : Host, h.InRange {} ∧ h.chain.headNum = 0xffffffff ∧
      h.isAbout (· matches .send _ _) = true := by
  have hterse : Terse {} := ⟨by decide +kernel, by decide +kernel⟩
  have hrange (h : Host) (hr : Reaches {} lateChain h) : h.InRange {} :=
    arithmetic_in_range hterse rfl hr
  have hgrown : Reaches {} lateChain grownHost := .called .receive trivial 17 reaches_linkedHost
  refine ⟨⟨linkedHost.called .receive 7, ?_, by decide +kernel⟩,
    ⟨linkedHost.called .receive 16, ?_, by decide +kernel⟩,
    ⟨grownHost.called .greet 12, ?_, by decide +kernel⟩⟩
  · exact hrange _ (.called .receive trivial 7 reaches_linkedHost)
  · exact hrange _ (.called .receive trivial 16 reaches_linkedHost)
  · exact hrange _ (.called .greet trivial 12 hgrown)

end Host

end Session

end BlockSync

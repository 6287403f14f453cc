import BlockSync.Proofs.Chain.Memory
import BlockSync.Proofs.Session.Requests

/-! What each message of an honest peer leads to, on a node whose link takes frames: the node after
it, and the events on the way. One relation says it for all messages, so that what a node keeps is
shown by cases on it. -/

namespace BlockSync.Session

open BlockSync.Chain (Benign Engine)

variable {σ : Type} {E : Engine σ} {n : Node σ}

namespace Node

def heard (m : Handshake) (n : Node σ) : Node σ := n.mapPeer (PeerState.setHandshake m)

def pushed (E : Engine σ) (raw : Bytes) (wantStatistics : Bool) (n : Node σ) : Node σ :=
  { n.ask with chain := (E.push n.chain raw wantStatistics).1 }

def remoteLib (n : Node σ) : UInt32 := (n.session.peer.lastHandshake.map (·.libNum)).getD 0

def rangeLast (n : Node σ) : Option UInt32 := n.session.peer.lastRange.map (·.last)

def serving (n : Node σ) : Node σ :=
  { n.mapSession startResponder with tasks := n.tasks + 1 }

def irreversibleNotice (E : Engine σ) (n : Node σ) : Notice where
  transactions := { mode := .lastIrreversible, pending := n.libNum E }
  blocks := { mode := .lastIrreversible, pending := n.headNum E, ids := [n.headId E] }

def catchUpNotice (E : Engine σ) (n : Node σ) : Notice where
  blocks :=
    { mode := .catchUp, pending := n.headNum E,
      ids := [n.headId E, Checksum.ofBlockNum (E.answer n.chain .earliest)] }

end Node

/-- A block that is offered to the engine: not known at its number, nor too far above the head. -/
structure Offered (E : Engine σ) (n : Node σ) (header : Header) : Prop where
  unknown : header.blockNum ≤ n.headNum E →
    E.answer n.chain (.idAt header.blockNum) ≠ some header.id
  near : n.headNum E < header.blockNum → ¬ satAdd (n.headNum E) 1 < header.blockNum

inductive Greeted (E : Engine σ) (settings : Settings) (num : UInt32) (n : Node σ) :
    Node σ → List Event → Prop
  | yes : n.session.peer.remoteHead = some num →
      Greeted E settings num n n.introduced [.said (.handshake (n.handshake E settings))]
  | no : n.session.peer.remoteHead ≠ some num → Greeted E settings num n n []

inductive Followed (E : Engine σ) (settings : Settings) (num : UInt32) (n : Node σ) :
    Node σ → List Event → Prop
  | within : n.rangeLast ≠ some num → Followed E settings num n n []
  | next {n' es} : n.rangeLast = some num → num < n.remoteLib → Sought E settings n n' es →
      Followed E settings num n n' es
  | settled : n.rangeLast = some num → ¬ num < n.remoteLib →
      Followed E settings num n (n.introduced.seeking none)
        [.said (.handshake (n.handshake E settings)),
          .said (.request (.catchUp (n.headId E)))]

/-- What the messages of an honest peer lead to. -/
inductive Reaction (E : Engine σ) (settings : Settings) (n : Node σ) :
    Message → Node σ → List Event → Prop
  | behind {m n' es} : n.headNum E < m.libNum → Sought E settings (n.heard m) n' es →
      Reaction E settings n (.handshake m) n' es
  | content {m} : ¬ n.headNum E < m.libNum → Reaction E settings n (.handshake m) (n.heard m) []
  | below {m} : ¬ n.headNum E < m.libNum → n.headNum E < m.headNum →
      Reaction E settings n (.handshake m) (n.heard m)
        [.said (.request (.catchUp (n.headId E)))]
  | farAbove {m} : ¬ n.headNum E < m.headNum → satAdd m.headNum inStep < n.libNum E →
      Reaction E settings n (.handshake m) (n.heard m) [.said (.notice (n.irreversibleNotice E))]
  | above {m} : ¬ n.headNum E < m.headNum → satAdd m.headNum inStep < n.headNum E →
      Reaction E settings n (.handshake m) (n.heard m) [.said (.notice (n.catchUpNotice E))]
  | unmoved {m} : Reaction E settings n (.notice m) n []
  | pointed {m} : m.blocks.mode = .catchUp →
      Reaction E settings n (.notice m) n [.said (.request (.catchUp (n.headId E)))]
  | invited {m} (range : BlockRange) : m.blocks.mode = .lastIrreversible →
      range.first = satAdd (n.headNum E) 1 → range.last = m.blocks.pending →
      Reaction E settings n (.notice m) (n.seeking range)
        [.said (.syncRequest .reset), .said (.syncRequest range)]
  | asked {m} : Reaction E settings n (.request m) n []
  | stops {range} : range.isReset = true →
      Reaction E settings n (.syncRequest range) (n.mapSession stopResponder)
        (n.turns stopResponder)
  | serves {range} : range.isReset = false →
      Reaction E settings n (.syncRequest range) n.serving
        [.turned n.serving.session.standing,
          .spawned
            (.respond range.first range.last n.session.transport n.session.responders)]
  | repeated {raw header} : Header.ofBlock raw = .ok header →
      header.blockNum ≤ n.headNum E →
      E.answer n.chain (.idAt header.blockNum) = some header.id →
      Reaction E settings n (.signedBlock raw) n []
  | gap {raw header} : Header.ofBlock raw = .ok header → n.headNum E < header.blockNum →
      satAdd (n.headNum E) 1 < header.blockNum →
      Reaction E settings n (.signedBlock raw) n
        [.said (.syncRequest .reset), .said (.request (.catchUp (n.headId E)))]
  | unlinked {raw header} (wantStatistics : Bool) : Header.ofBlock raw = .ok header →
      Offered E n header → (E.push n.chain raw wantStatistics).2 = .error .unlinkable →
      Reaction E settings n (.signedBlock raw) (n.pushed E raw wantStatistics)
        [.pushed raw wantStatistics (.error .unlinkable), .said (.syncRequest .reset),
          .said (.request (.catchUp ((n.pushed E raw wantStatistics).headId E)))]
  | known {raw header} (wantStatistics : Bool) (fault : ChainFault) :
      Header.ofBlock raw = .ok header → Offered E n header →
      (E.push n.chain raw wantStatistics).2 = .error fault → fault.isAlreadyKnown = true →
      Reaction E settings n (.signedBlock raw) (n.pushed E raw wantStatistics)
        [.pushed raw wantStatistics (.error fault)]
  | accepted {raw header n₁ n₂ n' es es'} (wantStatistics : Bool) (text : Option String) :
      Header.ofBlock raw = .ok header → Offered E n header →
      (E.push n.chain raw wantStatistics).2 = .ok text →
      n₁.view = (n.pushed E raw wantStatistics).view → n₁.session.peer = n.session.peer →
      Greeted E settings header.blockNum n₁ n₂ es →
      Followed E settings header.blockNum n₂ n' es' →
      Reaction E settings n (.signedBlock raw) n'
        (.pushed raw wantStatistics (.ok text) :: (es ++ es'))

def Civil : Message → Prop
  | .handshake _ | .request _ | .syncRequest _ => True
  | .notice m => m.blocks.mode = .catchUp → m.blocks.ids ≠ []
  | .signedBlock raw => ∃ header, Header.ofBlock raw = .ok header
  | .chainSize _ | .goAway _ | .time _ | .transaction _ => False

inductive Compared (E : Engine σ) (settings : Settings) (n : Node σ) (m : Handshake) :
    Node σ → List Event → Prop
  | behind {n' es} : n.headNum E < m.libNum → Sought E settings (n.heard m) n' es →
      Compared E settings n m n' es
  | same : ¬ n.headNum E < m.libNum → n.headId E = m.headId →
      Compared E settings n m (n.heard m) []
  | below : ¬ n.headNum E < m.libNum → n.headId E ≠ m.headId → n.headNum E < m.headNum →
      Compared E settings n m (n.heard m) [.said (.request (.catchUp (n.headId E)))]
  | farAbove : n.headId E ≠ m.headId → ¬ n.headNum E < m.headNum →
      satAdd m.headNum inStep < n.libNum E →
      Compared E settings n m (n.heard m) [.said (.notice (n.irreversibleNotice E))]
  | above : n.headId E ≠ m.headId → ¬ n.headNum E < m.headNum →
      ¬ satAdd m.headNum inStep < n.libNum E → satAdd m.headNum inStep < n.headNum E →
      Compared E settings n m (n.heard m) [.said (.notice (n.catchUpNotice E))]
  | level : ¬ n.headNum E < m.libNum → ¬ n.headNum E < m.headNum →
      ¬ satAdd m.headNum inStep < n.headNum E → Compared E settings n m (n.heard m) []

theorem leadsTo_handleHandshake (settings : Settings) (h : n.view.Open) (m : Handshake) :
    LeadsTo E (handleHandshake settings m) n (Compared E settings n m) := by
  have ho : (n.heard m).view.Open := h
  refine .after (runs_modifyPeer n _) ?_
  refine .after (runs_headNum _) ?_
  refine .after (runs_headId _) ?_
  refine .after (runs_libNum _) ?_
  split
  · next hlib =>
    obtain ⟨n', es, hr, hs⟩ := leadsTo_sendSyncRequest (E := E) ho settings
    exact ⟨n', es, hr, .behind hlib hs⟩
  next hlib =>
  split
  · next hid => exact ⟨_, _, .pure true _, .same hlib hid⟩
  next hid =>
  split
  · next hlow => exact ⟨_, _, runs_sendCatchUp ho, .below hlib hid hlow⟩
  next hlow =>
  split
  · next hfar => exact ⟨_, _, runs_send ho _, .farAbove hid hlow hfar⟩
  next hfar =>
  split
  · next hnear =>
    exact .after (runs_chain _ .earliest) ⟨_, _, runs_send ho _, .above hid hlow hfar hnear⟩
  · next hnear => exact ⟨_, _, .pure true _, .level hlib hlow hnear⟩

theorem Compared.reaction {settings : Settings} {m : Handshake} {n' : Node σ} {es : List Event}
    (h : Compared E settings n m n' es) : Reaction E settings n (.handshake m) n' es := by
  cases h with
  | behind hlib hs => exact .behind hlib hs
  | same hlib => exact .content hlib
  | below hlib _ hlow => exact .below hlib hlow
  | farAbove _ hlow hfar => exact .farAbove hlow hfar
  | above _ hlow _ hnear => exact .above hlow hnear
  | level hlib => exact .content hlib

theorem react_handshake (settings : Settings) (h : n.view.Open) (m : Handshake) :
    LeadsTo E (handleHandshake settings m) n (Reaction E settings n (.handshake m)) := by
  obtain ⟨n', es, hr, hc⟩ := leadsTo_handleHandshake (E := E) settings h m
  exact ⟨n', es, hr, hc.reaction⟩

theorem react_notice (settings : Settings) (h : n.view.Open) {m : Notice} (hm : Civil (.notice m)) :
    LeadsTo E (handleNotice settings m) n (Reaction E settings n (.notice m)) := by
  unfold handleNotice
  split
  · exact ⟨_, _, .pure true _, .unmoved⟩
  · exact ⟨_, _, .pure true _, .unmoved⟩
  · next hmode =>
    have hids : m.blocks.ids.isEmpty = false := by simpa using hm hmode
    rw [hids]
    exact ⟨_, _, runs_sendCatchUp h, .pointed hmode⟩
  · next hmode =>
    refine .after (runs_headNum n) ?_
    dsimp only
    split
    · exact ⟨_, _, .pure true _, .unmoved⟩
    · next hle =>
      let range : BlockRange := ⟨_, _, UInt32.not_lt.mp hle⟩
      exact ⟨_, _, (runs_sendReset h).bind (runs_sendRange h range),
        .invited range hmode rfl rfl⟩

theorem turns_startResponder (n : Node σ) :
    n.turns startResponder = [.turned n.serving.session.standing] := by
  have hne : (startResponder n.session).standing ≠ n.session.standing := fun h =>
    Nat.succ_ne_self n.session.responders (congrArg Standing.responders h)
  simp only [Node.turns, if_neg hne]
  rfl

theorem react_syncRequest (settings : Settings) (n : Node σ) (range : BlockRange) :
    ∃ n' es, Runs E (handleSyncRequest range) n () n' es ∧
      Reaction E settings n (.syncRequest range) n' es := by
  by_cases hr : range.isReset = true
  · refine ⟨_, _, ?_, .stops hr⟩
    rw [handleSyncRequest, if_pos hr]
    exact runs_modify n stopResponder
  · refine ⟨_, _, ?_, .serves (Bool.not_eq_true _ ▸ hr)⟩
    rw [handleSyncRequest, if_neg hr, ← List.singleton_append, ← turns_startResponder]
    refine (runs_update n _).bind ?_
    exact (runs_spawn _ _).bind (.pure () _)

theorem leadsTo_restart {n₁ : Node σ} (h : n₁.view.Open) :
    LeadsTo E restart n₁ fun n' es => n' = n₁ ∧
      es = [.said (.syncRequest .reset), .said (.request (.catchUp (n₁.headId E)))] :=
  ⟨_, _, (runs_sendReset h).bind (runs_sendCatchUp h), rfl, rfl⟩

theorem leadsTo_afterRange (settings : Settings) (h : n.view.Open) {peer : PeerState} (num : UInt32)
    (hr : peer.lastRange = n.session.peer.lastRange)
    (hh : peer.lastHandshake = n.session.peer.lastHandshake) :
    LeadsTo E (afterRange settings peer num) n (Followed E settings num n) := by
  unfold afterRange
  split
  · next hne => exact ⟨_, _, .pure true n, .within (by rwa [hr] at hne)⟩
  next heq =>
  have hlast : n.rangeLast = some num := by
    rw [hr] at heq
    exact Decidable.not_not.mp heq
  dsimp only
  split
  · next hlt =>
    obtain ⟨n', es, hrun, hs⟩ := leadsTo_sendSyncRequest (E := E) h settings
    exact ⟨n', es, hrun, .next hlast (by rwa [hh] at hlt) hs⟩
  · next hle =>
    refine ⟨_, _, ?_, .settled hlast (by rwa [hh] at hle)⟩
    refine (runs_sendHandshake h settings).bind ?_
    refine (runs_modifyPeer _ _).bind_quiet ?_
    exact runs_sendCatchUp (n := n.introduced.seeking none) h

theorem leadsTo_afterBlock (settings : Settings) (h : n.view.Open) (num : UInt32) (size : Nat) :
    LeadsTo E (afterBlock settings num size) n fun n' es => ∃ n₁ n₂ es₁ es₂,
      es = es₁ ++ es₂ ∧ n₁.view = n.view ∧ n₁.session.peer = n.session.peer ∧
      Greeted E settings num n₁ n₂ es₁ ∧ Followed E settings num n₂ n' es₂ := by
  refine .after (runs_peerState n) ?_
  refine .after (runs_instant n) ?_
  refine .after (runs_measure _ _) ?_
  generalize hn₁ : Node.mapThroughput _ n.ask = n₁
  have hv : n₁.view = n.view := hn₁ ▸ rfl
  have hp : n₁.session.peer = n.session.peer := hn₁ ▸ rfl
  have ho : n₁.view.Open := hv ▸ h
  rw [← hp]
  split
  · next hhead =>
    have ho' : n₁.introduced.view.Open := ho
    obtain ⟨n', es, hrun, hf⟩ :=
      leadsTo_afterRange (E := E) settings ho' num (rfl : n₁.session.peer.lastRange = _) rfl
    exact ⟨n', _, (runs_sendHandshake ho settings).bind hrun, n₁, _, _, es, rfl, hv, rfl,
      .yes hhead, hf⟩
  · next hhead =>
    obtain ⟨n', es, hrun, hf⟩ :=
      leadsTo_afterRange (E := E) settings ho num rfl rfl
    exact ⟨n', es, hrun, n₁, n₁, [], es, rfl, hv, rfl, .no hhead, hf⟩

inductive Rejected (E : Engine σ) (n : Node σ) (raw : Bytes) : Node σ → List Event → Prop
  | undecodable {fault} : Header.ofBlock raw = .error fault → Rejected E n raw n []
  | fatal {header} (wantStatistics : Bool) (fault : ChainFault) :
      Header.ofBlock raw = .ok header → Offered E n header →
      (E.push n.chain raw wantStatistics).2 = .error fault → fault ≠ .unlinkable →
      fault.isAlreadyKnown = false →
      Rejected E n raw { n.pushed E raw wantStatistics with stopping := true }
        [.pushed raw wantStatistics (.error fault), .stopped]

def Verdict (E : Engine σ) (settings : Settings) (n : Node σ) (raw : Bytes) :
    Bool → Node σ → List Event → Prop
  | true => Reaction E settings n (.signedBlock raw)
  | false => Rejected E n raw

theorem endsIn_offerBlock (settings : Settings) (h : n.view.Open) {raw : Bytes} {header : Header}
    (hd : Header.ofBlock raw = .ok header) (ho : Offered E n header) :
    EndsIn E (offerBlock settings header raw) n (Verdict E settings n raw) := by
  refine .after (runs_clock n) ?_
  dsimp only
  generalize decide (_ < statisticsAge) = wantStatistics
  have hp : Runs E (Action.push raw wantStatistics) n.ask (E.push n.chain raw wantStatistics).2
      (n.pushed E raw wantStatistics)
      [.pushed raw wantStatistics (E.push n.chain raw wantStatistics).2] := runs_push n.ask _ _
  have hv : (n.pushed E raw wantStatistics).view.Open :=
    ⟨h.closed, h.cut, h.writer, h.linked, h.stopping⟩
  rcases hres : (E.push n.chain raw wantStatistics).2 with fault | text
  · rw [hres] at hp
    by_cases hu : fault = .unlinkable
    · subst hu
      obtain ⟨_, _, hr, rfl, rfl⟩ := leadsTo_restart (E := E) hv
      exact ⟨true, _, _, hp.bind hr, .unlinked wantStatistics hd ho hres⟩
    cases hk : fault.isAlreadyKnown with
    | true =>
      refine ⟨true, _, _, hp.bind ?_, .known wantStatistics fault hd ho hres hk⟩
      cases fault with
      | unlinkable => exact absurd rfl hu
      | _ => simp only [hk, if_true]; exact .pure true _
    | false =>
      refine ⟨false, _, _, hp.bind ?_, .fatal wantStatistics fault hd ho hres hu hk⟩
      have hstop := (runs_stop (E := E) (n.pushed E raw wantStatistics)).returning false
      cases fault with
      | unlinkable => exact absurd rfl hu
      | _ => simp only [hk]; exact hstop
  · rw [hres] at hp
    obtain ⟨n', es, hr, n₁, n₂, es₁, es₂, rfl, hv₁, hp₁, hg, hf⟩ :=
      leadsTo_afterBlock (E := E) settings hv header.blockNum raw.length
    exact ⟨true, n', .pushed raw wantStatistics (.ok text) :: (es₁ ++ es₂),
      hp.bind ((runs_rest _).bind_quiet hr),
      .accepted wantStatistics text hd ho hres hv₁ hp₁ hg hf⟩

theorem endsIn_handleBlock (settings : Settings) (h : n.view.Open) (raw : Bytes) :
    EndsIn E (handleBlock settings raw) n (Verdict E settings n raw) := by
  unfold handleBlock
  cases hd : Header.ofBlock raw with
  | error fault => exact ⟨false, _, _, .pure false n, .undecodable hd⟩
  | ok header =>
  refine .after (runs_headNum n) ?_
  split
  · next hle =>
    refine .after (runs_chain n (.idAt header.blockNum)) ?_
    split
    · next hid => exact ⟨true, _, _, .pure true _, .repeated hd hle hid⟩
    · next hid =>
      have ho : Offered E n header := ⟨fun _ => hid, fun hlt => absurd hle (UInt32.not_le.mpr hlt)⟩
      exact endsIn_offerBlock settings h hd ho
  · next hgt =>
    have hlt := UInt32.not_le.mp hgt
    split
    · next hgap =>
      obtain ⟨_, _, hr, rfl, rfl⟩ := leadsTo_restart (E := E) h
      exact ⟨true, _, _, hr, .gap hd hlt hgap⟩
    · next hnear =>
      have ho : Offered E n header := ⟨fun hle => absurd hle hgt, fun _ => hnear⟩
      exact endsIn_offerBlock settings h hd ho

theorem react_signedBlock (settings : Settings) (h : n.view.Open) {raw : Bytes}
    (hraw : Civil (.signedBlock raw))
    (hb : ∀ wantStatistics, Benign (E.push n.chain raw wantStatistics).2) :
    LeadsTo E (handleBlock settings raw) n (Reaction E settings n (.signedBlock raw)) := by
  obtain ⟨header, hd⟩ := hraw
  obtain ⟨b, n', es, hr, hv⟩ := endsIn_handleBlock (E := E) settings h raw
  cases b with
  | true => exact ⟨n', es, hr, hv⟩
  | false =>
    cases hv with
    | undecodable hd' => cases hd.symm.trans hd'
    | fatal wantStatistics fault _ _ hres hu hk =>
      have hben := hb wantStatistics
      rw [hres] at hben
      rcases hben with h | h
      · exact absurd h hu
      · rw [h] at hk
        cases hk

/-- Each message of an honest peer leads on, as the relation says. -/
theorem react (settings : Settings) (h : n.view.Open) {f : Frame} {m : Message}
    (hf : Message.ofPayload f.tag f.payload = .ok m) (hm : Civil m)
    (hb : ∀ raw, m = .signedBlock raw →
      ∀ wantStatistics, Benign (E.push n.chain raw wantStatistics).2) :
    LeadsTo E (handleFrame settings f) n (Reaction E settings n m) := by
  have hs : n.stopping = false := h.stopping
  refine .after (runs_isStopping n) ?_
  rw [hs, hf]
  cases m with
  | handshake m => exact react_handshake settings h m
  | notice m => exact react_notice settings h hm
  | request m => exact ⟨_, _, .pure true _, .asked⟩
  | syncRequest range =>
    obtain ⟨n', es, hr, hreact⟩ := react_syncRequest (E := E) settings n range
    exact ⟨n', es, hr.returning true, hreact⟩
  | signedBlock raw => exact react_signedBlock settings h hm (hb raw rfl)
  | chainSize | goAway | time | transaction => exact hm.elim

end BlockSync.Session

import BlockSync.Proofs.Session.Node

/-! What a session asks of its peer, run on a node whose link takes frames. -/

namespace BlockSync.Session

open BlockSync.Chain (Engine)

variable {σ : Type} {E : Engine σ} {n : Node σ}

namespace Node

def headNum (E : Engine σ) (n : Node σ) : UInt32 := E.answer n.chain .headNum
def headId (E : Engine σ) (n : Node σ) : Checksum := E.answer n.chain .headId
def libNum (E : Engine σ) (n : Node σ) : UInt32 := E.answer n.chain .libNum

def handshake (E : Engine σ) (settings : Settings) (n : Node σ) : Handshake where
  networkVersion := settings.networkVersion
  chainId := E.answer n.chain .chainId
  nodeId := n.sources.nonce n.asked
  key := Octets.zero 34
  time := n.sources.clock (n.asked + 1)
  token := Octets.zero 32
  sig := Octets.zero 66
  p2pAddress := settings.p2pAddress
  libNum := n.libNum E
  libId := E.answer n.chain .libId
  headNum := n.headNum E
  headId := n.headId E
  os := hostOs
  agent := settings.agent
  generation := n.session.peer.generation

def introduced (n : Node σ) : Node σ := (n.mapPeer PeerState.advanceGeneration).ask.ask

def seeking (range : Option BlockRange) (n : Node σ) : Node σ :=
  n.mapPeer (PeerState.setRange range)

end Node

theorem runs_headNum (n : Node σ) : Runs E (Action.chain .headNum) n (n.headNum E) n [] :=
  runs_chain n .headNum

theorem runs_headId (n : Node σ) : Runs E (Action.chain .headId) n (n.headId E) n [] :=
  runs_chain n .headId

theorem runs_libNum (n : Node σ) : Runs E (Action.chain .libNum) n (n.libNum E) n [] :=
  runs_chain n .libNum

theorem runs_send (h : n.view.Open) (m : Message) : Runs E (send m) n true n [.said m] := by
  have hc : n.session.closed = false := h.closed
  have hl : n.linked = true := h.linked
  obtain ⟨link, hw⟩ := h.writer
  change n.session.writer = some link at hw
  have hp : Runs E (putFrame m (some link)) n true n [.said m] :=
    .request (by simp only [Node.perform, hl]; rfl)
  refine (runs_state n).bind_quiet ?_
  rw [hc, hw]
  exact hp.bind (.pure true n)

theorem runs_sendReset (h : n.view.Open) :
    Runs E sendReset n true n [.said (.syncRequest .reset)] := runs_send h _

theorem runs_sendCatchUp (h : n.view.Open) :
    Runs E sendCatchUp n true n [.said (.request (.catchUp (n.headId E)))] :=
  (runs_chain n .headId).bind_quiet (runs_send h _)

theorem runs_buildHandshake (n : Node σ) (settings : Settings) :
    Runs E (buildHandshake settings) n (n.handshake E settings) n.introduced [] := by
  refine (runs_updatePeer n _).bind_quiet ?_
  refine (runs_chain _ .chainId).bind_quiet ?_
  refine (runs_nonce _).bind_quiet ?_
  refine (runs_clock _).bind_quiet ?_
  refine (runs_chain _ .libNum).bind_quiet ?_
  refine (runs_chain _ .libId).bind_quiet ?_
  refine (runs_chain _ .headNum).bind_quiet ?_
  refine (runs_chain _ .headId).bind_quiet ?_
  exact .pure _ _

theorem runs_sendHandshake (h : n.view.Open) (settings : Settings) :
    Runs E (sendHandshake settings) n true n.introduced
      [.said (.handshake (n.handshake E settings))] :=
  (runs_buildHandshake n settings).bind_quiet (runs_send (n := n.introduced) h _)

theorem runs_greet (h : n.view.Open) (settings : Settings) :
    Runs E (greet settings) n true (n.seeking none).introduced
      [.said (.syncRequest .reset),
        .said (.handshake ((n.seeking none).handshake E settings))] := by
  have ho : (n.seeking none).view.Open := h
  refine (runs_modifyPeer n _).bind_quiet ?_
  exact (runs_sendReset ho).bind (runs_sendHandshake ho settings)

theorem runs_sendRange (h : n.view.Open) (range : BlockRange) :
    Runs E (sendRange range.first range.last) n true (n.seeking range)
      [.said (.syncRequest range)] := by
  rw [sendRange, BlockRange.of, dif_pos range.first_le_last]
  exact (runs_modifyPeer n _).bind_quiet (runs_send (n := n.seeking range) h _)

inductive Sought (E : Engine σ) (settings : Settings) (n : Node σ) : Node σ → List Event → Prop
  | unknown : n.session.peer.remoteHead = none → Sought E settings n n []
  | range (remoteHead : UInt32) (range : BlockRange) :
      n.session.peer.remoteHead = some remoteHead → range.first = satAdd (n.headNum E) 1 →
      range.last = rangeEnd settings.syncFetchSpan range.first remoteHead →
      Sought E settings n (n.seeking range) [.said (.syncRequest range)]
  | nothing (remoteHead : UInt32) : n.session.peer.remoteHead = some remoteHead →
      rangeEnd settings.syncFetchSpan (satAdd (n.headNum E) 1) remoteHead <
        satAdd (n.headNum E) 1 →
      Sought E settings n n.introduced [.said (.handshake (n.handshake E settings))]

theorem leadsTo_sendSyncRequest (h : n.view.Open) (settings : Settings) :
    LeadsTo E (sendSyncRequest settings none none) n (Sought E settings n) := by
  refine .after (runs_headNum n) ?_
  refine .after (runs_peerState n) ?_
  rcases hr : n.session.peer.remoteHead with _ | remoteHead
  · exact ⟨n, [], .pure true n, .unknown hr⟩
  by_cases hlt : rangeEnd settings.syncFetchSpan (satAdd (n.headNum E) 1) remoteHead <
      satAdd (n.headNum E) 1
  · simp only [if_pos hlt]
    exact ⟨_, _, runs_sendHandshake h settings, .nothing remoteHead hr hlt⟩
  · let range : BlockRange := ⟨_, _, UInt32.not_lt.mp hlt⟩
    simp only [if_neg hlt]
    exact ⟨_, _, runs_sendRange h range, .range remoteHead range hr rfl rfl⟩

theorem toNat_rangeEnd (span first remoteHead : UInt32) :
    (rangeEnd span first remoteHead).toNat =
      min (first.toNat + (span.toNat - 1)) remoteHead.toNat := by
  have hremote := remoteHead.toNat_lt
  rw [rangeEnd, toNat_min, toNat_satAdd, toNat_satSub, UInt32.toNat_one, UInt32.size]
  omega

theorem rangeEnd_le (span first remoteHead : UInt32) :
    rangeEnd span first remoteHead ≤ remoteHead := by
  rw [UInt32.le_iff_toNat_le, toNat_rangeEnd]
  omega

theorem le_rangeEnd {first remoteHead : UInt32} (h : first ≤ remoteHead) (span : UInt32) :
    first ≤ rangeEnd span first remoteHead := by
  rw [UInt32.le_iff_toNat_le] at h
  rw [UInt32.le_iff_toNat_le, toNat_rangeEnd]
  omega

theorem toNat_satAdd_one_of_lt {a b : UInt32} (h : a < b) :
    (satAdd a 1).toNat = a.toNat + 1 := by
  have := b.toNat_lt
  rw [UInt32.lt_iff_toNat_lt] at h
  rw [toNat_satAdd, UInt32.toNat_one, UInt32.size]
  omega

theorem isReset_eq_false {range : BlockRange} {num : UInt32} (h : num < range.first) :
    range.isReset = false := by
  have hne : range.first ≠ 0 := fun h0 => UInt32.not_lt_zero (h0 ▸ h)
  rw [BlockRange.isReset, beq_false_of_ne hne, Bool.false_and]

theorem Sought.of_lt {settings : Settings} {remoteHead : UInt32} {n' : Node σ} {es : List Event}
    (hs : Sought E settings n n' es) (hr : n.session.peer.remoteHead = some remoteHead)
    (hlt : n.headNum E < remoteHead) :
    ∃ range : BlockRange, n' = n.seeking range ∧ es = [.said (.syncRequest range)] ∧
      range.first = satAdd (n.headNum E) 1 ∧
      range.last = rangeEnd settings.syncFetchSpan range.first remoteHead := by
  have hfirst : satAdd (n.headNum E) 1 ≤ remoteHead := by
    rw [UInt32.le_iff_toNat_le, toNat_satAdd_one_of_lt hlt]
    exact UInt32.lt_iff_toNat_lt.mp hlt
  cases hs with
  | unknown h =>
    rw [hr] at h
    cases h
  | range head range h hf hl =>
    cases hr.symm.trans h
    exact ⟨range, rfl, rfl, hf, hl⟩
  | nothing head h hempty =>
    cases hr.symm.trans h
    exact absurd hempty (UInt32.not_lt.mpr (le_rangeEnd hfirst _))

end BlockSync.Session

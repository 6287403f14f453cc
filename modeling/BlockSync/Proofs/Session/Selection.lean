import BlockSync.Proofs.Session.Greeting
import BlockSync.Proofs.Session.Ranges

/-! The range that a session chooses on its own. It starts right above the head and is the longest
one that neither the span nor the head of the peer forbids. Where both forbid any, a handshake goes
out in its place. -/

namespace BlockSync.Session

open BlockSync.Chain (Engine Memory)

def reach (span head remoteHead : UInt32) : Nat :=
  min (head.toNat + max 1 span.toNat) remoteHead.toNat

/-- Whether a range lies right above a head, not beyond the peer's head, and within a span. A span
of zero allows for one block. -/
structure Allowed (span head remoteHead : UInt32) (range : BlockRange) : Prop where
  first : range.first.toNat = head.toNat + 1
  last : range.last ≤ remoteHead
  length : range.last.toNat + 1 - range.first.toNat ≤ max 1 span.toNat

variable {σ : Type} {E : Engine σ} {settings : Settings} {n n' : Node σ} {es : List Event}
  {span head remoteHead : UInt32} {range : BlockRange}

theorem Allowed.last_le_reach (h : Allowed span head remoteHead range) :
    range.last.toNat ≤ reach span head remoteHead := by
  have hfirst := h.first
  have hlength := h.length
  have hlast := UInt32.le_iff_toNat_le.mp h.last
  rw [reach]
  omega

theorem Allowed.lt_reach (h : Allowed span head remoteHead range) :
    head.toNat + 1 ≤ reach span head remoteHead := by
  rw [← h.first]
  exact Nat.le_trans (UInt32.le_iff_toNat_le.mp range.first_le_last) h.last_le_reach

theorem allowed_of_reach (hfirst : range.first.toNat = head.toNat + 1)
    (hlast : range.last.toNat = reach span head remoteHead) :
    Allowed span head remoteHead range := by
  rw [reach] at hlast
  refine ⟨hfirst, UInt32.le_iff_toNat_le.mpr ?_, ?_⟩ <;> omega

theorem toNat_rangeEnd_of_first {first : UInt32} (h : first.toNat = head.toNat + 1) :
    (rangeEnd span first remoteHead).toNat = reach span head remoteHead := by
  rw [toNat_rangeEnd, reach, h]
  omega

/-- What a session asks for on its own, by what it knows of the peer. -/
inductive Selected (E : Engine σ) (settings : Settings) (n : Node σ) : Node σ → List Event → Prop
  | unknown : n.session.peer.lastHandshake = none → Selected E settings n n []
  | range (m : Handshake) (range : BlockRange) : n.session.peer.lastHandshake = some m →
      (n.headNum E).toNat + 1 ≤ reach settings.syncFetchSpan (n.headNum E) m.headNum →
      range.first.toNat = (n.headNum E).toNat + 1 →
      range.last.toNat = reach settings.syncFetchSpan (n.headNum E) m.headNum →
      Selected E settings n (n.seeking range) [.said (.syncRequest range)]
  | handshake (m : Handshake) : n.session.peer.lastHandshake = some m →
      reach settings.syncFetchSpan (n.headNum E) m.headNum < (n.headNum E).toNat + 1 →
      Selected E settings n n.introduced [.said (.handshake (n.handshake E settings))]

/-- Whether the range that is asked for, if any, is allowed and the longest of all. -/
def Longest (E : Engine σ) (settings : Settings) (n : Node σ) (asked : List BlockRange) : Prop :=
  ∀ m, n.session.peer.lastHandshake = some m →
    (∀ range ∈ asked, Allowed settings.syncFetchSpan (n.headNum E) m.headNum range) ∧
    ∀ range, Allowed settings.syncFetchSpan (n.headNum E) m.headNum range →
      ∃ longest ∈ asked, range.last ≤ longest.last

theorem Selected.lastRange (h : Selected E settings n n' es) :
    n'.session.peer.lastRange = (ranges es).head?.or n.session.peer.lastRange := by
  cases h with
  | unknown => rfl
  | range m range => rw [ranges_said]; rfl
  | handshake => rw [ranges_said]; rfl

theorem Selected.longest (h : Selected E settings n n' es) : Longest E settings n (ranges es) := by
  intro m hm
  cases h with
  | unknown hnone =>
    rw [hnone] at hm
    cases hm
  | range m' range hsome _ hfirst hlast =>
    cases hsome.symm.trans hm
    rw [ranges_said]
    refine ⟨fun range' hr => ?_, fun range' ha => ⟨range, List.mem_singleton_self _, ?_⟩⟩
    · cases List.mem_singleton.mp hr
      exact allowed_of_reach hfirst hlast
    · rw [UInt32.le_iff_toNat_le, hlast]
      exact ha.last_le_reach
  | handshake m' hsome hnone =>
    cases hsome.symm.trans hm
    rw [ranges_said]
    refine ⟨fun range' hr => absurd hr List.not_mem_nil, fun range' ha => ?_⟩
    exact absurd ha.lt_reach (Nat.not_le.mpr hnone)

theorem Sought.selected (hs : Sought E settings n n' es)
    (hroom : (n.headNum E).toNat + 1 < UInt32.size) : Selected E settings n n' es := by
  have hfirst : (satAdd (n.headNum E) 1).toNat = (n.headNum E).toNat + 1 := by
    rw [toNat_satAdd, UInt32.toNat_one]
    omega
  have hknown {remoteHead : UInt32} (hr : n.session.peer.remoteHead = some remoteHead) :
      ∃ m, n.session.peer.lastHandshake = some m ∧ m.headNum = remoteHead :=
    Option.map_eq_some_iff.mp hr
  cases hs with
  | unknown hr => exact .unknown (Option.map_eq_none_iff.mp hr)
  | range remoteHead range hr hf hl =>
    obtain ⟨m, hm, rfl⟩ := hknown hr
    have hfirst' : range.first.toNat = (n.headNum E).toNat + 1 := by rw [hf, hfirst]
    have hlast : range.last.toNat = reach settings.syncFetchSpan (n.headNum E) m.headNum := by
      rw [hl, toNat_rangeEnd_of_first hfirst']
    refine .range m range hm ?_ hfirst' hlast
    rw [← hfirst', ← hlast]
    exact UInt32.le_iff_toNat_le.mp range.first_le_last
  | nothing remoteHead hr hlt =>
    obtain ⟨m, hm, rfl⟩ := hknown hr
    rw [UInt32.lt_iff_toNat_lt, toNat_rangeEnd_of_first hfirst, hfirst] at hlt
    exact .handshake m hm hlt

/-- Below the greatest number, a session that is left to choose asks for nothing as long as it
knows no head of the peer, then for the longest range that is allowed, which it remembers, and where
none is allowed it sends a handshake. -/
theorem chosen_range_is_longest (settings : Settings) (h : n.view.Open)
    (hroom : (n.headNum E).toNat + 1 < UInt32.size) :
    (∃ n' es, Runs E (sendSyncRequest settings none none) n true n' es) ∧
    ∀ b n' es, Runs E (sendSyncRequest settings none none) n b n' es →
      b = true ∧ Selected E settings n n' es ∧ Longest E settings n (ranges es) ∧
        n'.session.peer.lastRange = (ranges es).head?.or n.session.peer.lastRange := by
  obtain ⟨n₁, es₁, hr, hs⟩ := leadsTo_sendSyncRequest (E := E) h settings
  refine ⟨⟨n₁, es₁, hr⟩, fun b n' es hrun => ?_⟩
  obtain ⟨rfl, rfl, rfl⟩ := hr.unique hrun
  have hselected := hs.selected hroom
  exact ⟨rfl, hselected, hselected.longest, hselected.lastRange⟩

/-- A node without blocks that knows of a longer chain. -/
def toldNode : Node Memory := plainNode.heard (higherNode.handshake Memory.engine {})

theorem toldNode_chooses :
    toldNode.view.Open ∧ (toldNode.headNum Memory.engine).toNat + 1 < UInt32.size ∧
    (∃ n' es, Runs Memory.engine (sendSyncRequest {} none none) toldNode true n' es) ∧
    ∀ b n' es, Runs Memory.engine (sendSyncRequest {} none none) toldNode b n' es →
      b = true ∧ Selected Memory.engine {} toldNode n' es ∧
        Longest Memory.engine {} toldNode (ranges es) ∧
        n'.session.peer.lastRange = (ranges es).head?.or toldNode.session.peer.lastRange := by
  have ho : toldNode.view.Open := ⟨rfl, rfl, ⟨0, rfl⟩, rfl, rfl⟩
  have hroom : (toldNode.headNum Memory.engine).toNat + 1 < UInt32.size := by decide
  exact ⟨ho, hroom, chosen_range_is_longest {} ho hroom⟩

end BlockSync.Session

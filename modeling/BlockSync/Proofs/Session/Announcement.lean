import BlockSync.Proofs.Chain.Irreversible
import BlockSync.Proofs.Session.Requests

/-! What a handshake says about a chain in memory: its head, and its last irreversible block. Both
are named by their own identities, but for a start that is the last irreversible block with other
blocks on top: that one is announced without an identity. -/

namespace BlockSync.Session

open BlockSync.Chain (Memory Offer)
open BlockSync.Chain.Memory (narrowChain settled_after)

theorem settled_of_buildHandshake {start : Memory} (hstart : start.blocks = [])
    (hid : start.headId.blockNum = start.headNum) (os : List Offer)
    (hroom : start.headNum.toNat + (start.accepted os).length < UInt32.size) {n n' : Node Memory}
    (hn : n.chain = start.after os) {settings : Settings} {m : Handshake} {es : List Event}
    (hr : Runs Memory.engine (buildHandshake settings) n m n' es) :
    start.Settled os m.headNum m.headId m.libNum m.libId := by
  obtain ⟨rfl, -, -⟩ := hr.unique (runs_buildHandshake n settings)
  have hsettled := settled_after hstart hid os hroom
  rw [← hn] at hsettled
  exact hsettled

/-- Whatever was offered to a chain in memory, its head and its last irreversible block are what
they are said to be, and every handshake says so. -/
theorem handshakes_are_settled {start : Memory} (hstart : start.blocks = [])
    (hid : start.headId.blockNum = start.headNum) (os : List Offer)
    (hroom : start.headNum.toNat + (start.accepted os).length < UInt32.size) :
    (let m := start.after os
     start.Settled os (m.answer .headNum) (m.answer .headId) (m.answer .libNum)
       (m.answer .libId)) ∧
      ∀ (settings : Settings) (n : Node Memory), n.chain = start.after os →
        (∃ m n' es, Runs Memory.engine (buildHandshake settings) n m n' es) ∧
        ∀ m n' es, Runs Memory.engine (buildHandshake settings) n m n' es →
          start.Settled os m.headNum m.headId m.libNum m.libId := by
  refine ⟨settled_after hstart hid os hroom, fun settings n hn => ⟨?_, fun m n' es hr => ?_⟩⟩
  · exact ⟨_, _, _, runs_buildHandshake n settings⟩
  · exact settled_of_buildHandshake hstart hid os hroom hn hr

/-- A block on top of the narrow chain, which makes the start the last irreversible block. -/
def nextOffer : List Offer :=
  (Chain.fixture narrowChain.headId narrowChain.headNum 1).map (Offer.mk · false)

theorem nextOffer_room :
    narrowChain.headNum.toNat + (narrowChain.accepted nextOffer).length < UInt32.size := by
  decide +kernel

/-- With one block on top of its start, the chain announces the start as its last irreversible
block, but not by the start's identity. -/
theorem start_is_forgotten :
    narrowChain.blocks = [] ∧ narrowChain.headId.blockNum = narrowChain.headNum ∧
      narrowChain.headNum.toNat + (narrowChain.accepted nextOffer).length < UInt32.size ∧
      (let m := narrowChain.after nextOffer
       narrowChain.headNum ≤ m.libNum ∧ ¬ narrowChain.Identified nextOffer m.libNum m.libId) := by
  have hlib : (narrowChain.after nextOffer).libNum = narrowChain.headNum ∧
      (narrowChain.after nextOffer).libId ≠ narrowChain.headId := by decide +kernel
  refine ⟨rfl, by decide, nextOffer_room, UInt32.le_of_eq hlib.1.symm, fun h => hlib.2 ?_⟩
  rw [hlib.1] at h
  exact h.eq_headId rfl nextOffer_room

/-- Two blocks on top of the narrow chain, the first of which becomes irreversible. -/
def twoOffers : List Offer :=
  (Chain.fixture narrowChain.headId narrowChain.headNum 2).map (Offer.mk · false)

/-- A node with the narrow chain as it is after some offers. -/
def offeredNode (os : List Offer) : Node Memory where
  chain := narrowChain.after os
  session := {}
  sources := default

theorem chain_offeredNode (os : List Offer) :
    (offeredNode os).chain = narrowChain.after os := rfl

theorem twoOffers_facts :
    narrowChain.headNum.toNat + (narrowChain.accepted twoOffers).length < UInt32.size ∧
      (narrowChain.after twoOffers).libNum = narrowChain.headNum + 1 := by
  decide +kernel

/-- With one block on top of the start a handshake names the start without its identity, and with
two it names the first block by its own. -/
theorem offeredNode_settled :
    (∃ m n' es, Runs Memory.engine (buildHandshake {}) (offeredNode nextOffer) m n' es ∧
      narrowChain.Settled nextOffer m.headNum m.headId m.libNum m.libId) ∧
    ∃ m n' es, Runs Memory.engine (buildHandshake {}) (offeredNode twoOffers) m n' es ∧
      m.libNum = narrowChain.headNum + 1 ∧ narrowChain.Identified twoOffers m.libNum m.libId := by
  have hid : narrowChain.headId.blockNum = narrowChain.headNum := by decide
  obtain ⟨hroom, hlib⟩ := twoOffers_facts
  constructor
  · obtain ⟨-, hbuilt⟩ := handshakes_are_settled rfl hid nextOffer nextOffer_room
    obtain ⟨⟨m, n', es, hr⟩, hsettled⟩ := hbuilt {} _ (chain_offeredNode nextOffer)
    exact ⟨m, n', es, hr, hsettled m n' es hr⟩
  · obtain ⟨-, hbuilt⟩ := handshakes_are_settled rfl hid twoOffers hroom
    obtain ⟨⟨m, n', es, hr⟩, hsettled⟩ := hbuilt {} _ (chain_offeredNode twoOffers)
    have hm := hsettled m n' es hr
    have hnum : m.libNum = narrowChain.headNum + 1 := by
      obtain ⟨rfl, -, -⟩ := hr.unique (runs_buildHandshake (offeredNode twoOffers) {})
      rw [← chain_offeredNode] at hlib
      exact hlib
    refine ⟨m, n', es, hr, hnum, hm.known ?_ fun hburied => ?_⟩
    · rw [hnum]
      decide
    · exact absurd (hnum.symm.trans hburied.1) (by decide)

end BlockSync.Session

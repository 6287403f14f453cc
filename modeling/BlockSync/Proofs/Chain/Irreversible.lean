import BlockSync.Proofs.Chain.History
import BlockSync.Proofs.Wire.ReadBack

/-! The last irreversible block of a chain, by number and by identity. The floor never rises above
it, so the blocks that were accepted are still known there. The start is known only as long as it
is the head: afterwards its number has no identity any more. -/

namespace BlockSync

open Wire (littleEndian length_littleEndian ofLittleEndian_littleEndian)

theorem Checksum.blockNum_withBlockNum (num : UInt32) (id : Checksum) :
    (id.withBlockNum num).blockNum = num := by
  have hlen : (littleEndian 4 num.toNat).reverse.length = 4 := by
    rw [List.length_reverse, length_littleEndian]
  have hlt : num.toNat < 256 ^ 4 := num.toNat_lt
  rw [blockNum, withBlockNum, List.take_left' hlen, List.reverse_reverse,
    ofLittleEndian_littleEndian hlt]
  exact UInt32.ofNat_toNat

theorem Header.blockNum_id (header : Header) : header.id.blockNum = header.blockNum :=
  Checksum.blockNum_withBlockNum _ _

end BlockSync

namespace BlockSync.Chain.Memory

variable {start m : Memory} {bs : Store} {os : List Offer} {num : UInt32} {x : Checksum}

/-- Whether a number has an identity: the start's, or that of the block that was accepted. -/
inductive Identified (start : Memory) (os : List Offer) (num : UInt32) (x : Checksum) : Prop
  | start : num = start.headNum → x = start.headId → Identified start os num x
  | block {raw header} : start.AcceptedAs os num raw → Header.ofBlock raw = .ok header →
      header.id = x → Identified start os num x

/-- Whether blocks lie on a start that is the last irreversible block. -/
def Buried (start : Memory) (headNum libNum : UInt32) : Prop :=
  libNum = start.headNum ∧ start.headNum < headNum

/-- What a head and a last irreversible block are, that a chain tells of. -/
structure Settled (start : Memory) (os : List Offer) (headNum : UInt32) (headId : Checksum)
    (libNum : UInt32) (libId : Checksum) : Prop where
  lib_le : libNum ≤ headNum
  head : headId.blockNum = headNum
  known : start.headNum ≤ libNum → ¬ start.Buried headNum libNum →
    start.Identified os libNum libId
  buried : start.Buried headNum libNum → libId = Octets.zero 32

theorem Grown.identified (h : start.Grown bs m) (hm : m.Reachable)
    (ha : ∀ b ∈ bs, start.AcceptedAs os b.num b.raw)
    (hlow : start.low m.headNum.toNat ≤ num.toNat) (hle : num ≤ m.headNum) :
    ∃ x, m.idAt num = some x ∧ x.blockNum = num ∧ start.Identified os num x := by
  obtain ⟨b, hb⟩ := Option.isSome_iff_exists.mp ((h.isSome_get? num).mpr ⟨hlow, hle⟩)
  obtain ⟨hmem, -, hnum⟩ := h.get?.mp hb
  obtain ⟨header, hd, hbn, hid, -⟩ := hm.genuine b (Store.mem_of_get? hb).1
  refine ⟨b.id, hm.linked.idAt_of_get? hb, ?_, ?_⟩
  · rw [← hid, Header.blockNum_id, hbn, hnum]
  · have haccepted := ha b hmem
    rw [hnum] at haccepted
    exact .block haccepted hd hid

theorem Grown.untouched (h : start.Grown bs m) (hle : m.headNum ≤ start.headNum) :
    m.headNum = start.headNum ∧ m.headId = start.headId := by
  have hhead := h.headNum
  rw [UInt32.le_iff_toNat_le] at hle
  have hnil : bs = [] := List.length_eq_zero_iff.mp (by omega)
  subst hnil
  exact ⟨UInt32.toNat_inj.mp hhead, h.headId⟩

theorem Identified.eq_headId (h : start.Identified os start.headNum x)
    (hstart : start.blocks = [])
    (hroom : start.headNum.toNat + (start.accepted os).length < UInt32.size) :
    x = start.headId := by
  cases h with
  | start _ hx => exact hx
  | block ha =>
    obtain ⟨bs, hg, b, hb, hnum, -⟩ := Grown.exists_of_acceptedAs hstart hroom ha
    have habove := (hg.numbered.bounds hb).1
    rw [hnum] at habove
    exact absurd habove (Nat.lt_irrefl _)

theorem Grown.idAt_buried (h : start.Grown bs m) (hlt : start.headNum < m.headNum) :
    m.idAt start.headNum = none := by
  have hne : start.headNum ≠ m.headNum := fun heq => UInt32.lt_irrefl _ (heq ▸ hlt)
  rw [idAt, if_neg hne, Option.map_eq_none_iff, ← Option.not_isSome_iff_eq_none,
    h.isSome_get? start.headNum, low]
  omega

theorem toNat_libNum (m : Memory) : m.libNum.toNat = m.headNum.toNat - m.depth.toNat := by
  rw [libNum, toNat_satSub]

theorem settled_after (hstart : start.blocks = []) (hid : start.headId.blockNum = start.headNum)
    (os : List Offer)
    (hroom : start.headNum.toNat + (start.accepted os).length < UInt32.size) :
    start.Settled os (start.after os).headNum (start.after os).headId (start.after os).libNum
      (start.after os).libId := by
  obtain ⟨bs, hg, -, ha⟩ := (grown_start hstart).after os hroom
  rw [List.append_nil] at hg
  have hm := reachable_after (.empty hstart) os
  generalize start.after os = m at hg hm
  have hlib := toNat_libNum m
  rw [hg.depth] at hlib
  constructor
  · exact libNum_le m
  · by_cases hle : m.headNum ≤ start.headNum
    · obtain ⟨hnum, hhead⟩ := hg.untouched hle
      rw [hhead, hnum, hid]
    · rw [UInt32.le_iff_toNat_le] at hle
      have hlow : start.low m.headNum.toNat ≤ m.headNum.toNat := by
        rw [low]
        omega
      obtain ⟨x, hx, hnum, -⟩ := hg.identified hm ha hlow (UInt32.le_refl _)
      rw [idAt, if_pos rfl] at hx
      cases hx
      exact hnum
  · intro habove hburied
    by_cases heq : m.libNum = start.headNum
    · have hle : m.headNum ≤ start.headNum := UInt32.not_lt.mp fun hlt => hburied ⟨heq, hlt⟩
      obtain ⟨hnum, hhead⟩ := hg.untouched hle
      refine .start heq ?_
      rw [libId, idAt, if_pos (heq.trans hnum.symm), Option.getD_some, hhead]
    · have hne : m.libNum.toNat ≠ start.headNum.toNat := fun h => heq (UInt32.toNat_inj.mp h)
      rw [UInt32.le_iff_toNat_le] at habove
      have hlow : start.low m.headNum.toNat ≤ m.libNum.toNat := by
        rw [low]
        omega
      obtain ⟨x, hx, -, hidentified⟩ := hg.identified hm ha hlow (libNum_le m)
      rw [libId, hx]
      exact hidentified
  · rintro ⟨heq, hlt⟩
    rw [libId, heq, hg.idAt_buried hlt]
    rfl

end BlockSync.Chain.Memory

import BlockSync.Proofs.Chain.Irreversible

/-! Which blocks a chain accepts on top of a trusted start, and where its head goes. A start of which
number and identity agree takes every block that names the head, and one of which they do not agree
takes none. The head goes up by one, except that zero follows the greatest number. -/

namespace BlockSync.Chain.Memory

variable {start m : Memory} {bs : Store} {os : List Offer} {o : Offer}

theorem isOk_result_iff (m : Memory) (o : Offer) :
    (m.result o).isOk = true ↔ ∃ header, Header.ofBlock o.raw = .ok header ∧
      (m.blocks.get? header.blockNum).map (·.id) ≠ some header.id ∧
      header.previous = m.headId ∧ header.blockNum = m.headNum + 1 := by
  have hp := pushed m o.raw o.wantStatistics
  unfold result
  generalize m.push o.raw o.wantStatistics = p at hp
  cases hp with
  | malformed he =>
    refine ⟨nofun, ?_⟩
    rintro ⟨header, hd, -⟩
    cases he.symm.trans hd
  | known hd' hk =>
    refine ⟨nofun, ?_⟩
    rintro ⟨header, hd, hnew, -⟩
    cases hd'.symm.trans hd
    exact absurd hk hnew
  | unlinkable hd' hl =>
    refine ⟨nofun, ?_⟩
    rintro ⟨header, hd, -, hprev, hnum⟩
    cases hd'.symm.trans hd
    rcases hl with hl | hl
    · exact absurd hprev hl
    · exact absurd hnum hl
  | @linked header _ hd hnew hprev hnum =>
    exact ⟨fun _ => ⟨header, hd, hnew, hprev, hnum⟩, fun _ => rfl⟩

/-- Whether the identity of the head carries the number of the head. -/
def Consistent (m : Memory) : Prop := m.headId.blockNum = m.headNum

theorem Consistent.next (h : m.Consistent) (o : Offer) : (m.next o).Consistent := by
  rcases next_cases m o with ⟨-, hsame⟩ | ⟨header, -, -, -, -, hnext⟩
  · rwa [hsame]
  · rw [hnext]
    exact header.blockNum_id

theorem Consistent.after (h : m.Consistent) (os : List Offer) : (m.after os).Consistent := by
  induction os generalizing m with
  | nil => exact h
  | cons o os ih => exact ih (h.next o)

/-- The number of a block is one more than what the identity that it names carries, so a block that
names the head of a consistent chain has the next number. -/
theorem Consistent.blockNum_eq (h : m.Consistent) {header : Header}
    (hprev : header.previous = m.headId) : header.blockNum = m.headNum + 1 := by
  rw [Header.blockNum, hprev, h]

theorem not_isOk_of_not_consistent (h : ¬ m.Consistent) (o : Offer) :
    (m.result o).isOk = false := by
  rw [← Bool.not_eq_true, isOk_result_iff]
  rintro ⟨header, -, -, hprev, hnum⟩
  rw [Header.blockNum, hprev, UInt32.add_left_inj] at hnum
  exact h hnum

theorem Grown.get?_next (h : start.Grown bs m) : m.blocks.get? (m.headNum + 1) = none := by
  refine Option.eq_none_iff_forall_ne_some.mpr fun b hb => ?_
  obtain ⟨hmem, -, hnum⟩ := h.get?.mp hb
  obtain ⟨hlow, hhigh⟩ := h.numbered.bounds hmem
  have hhead := h.headNum
  have hlt := m.headNum.toNat_lt
  rw [hnum, UInt32.toNat_add, UInt32.toNat_one] at hlow hhigh
  omega

/-- On top of a trusted block: where number and identity agree, the blocks that are accepted are
those that name the head; where they do not, nothing ever is. -/
theorem trusted_start_works_iff_consistent (hstart : start.blocks = []) (os : List Offer) :
    (start.Consistent → start.headNum.toNat + (start.accepted os).length < UInt32.size →
      ∀ o, ((start.after os).result o).isOk = true ↔
        ∃ header, Header.ofBlock o.raw = .ok header ∧
          header.previous = (start.after os).headId) ∧
    (¬ start.Consistent →
      start.after os = start ∧ ∀ result ∈ start.results os, result.isOk = false) := by
  constructor
  · intro hc hroom o
    obtain ⟨bs, hg, -, -⟩ := (grown_start hstart).after os hroom
    rw [List.append_nil] at hg
    rw [isOk_result_iff]
    constructor
    · rintro ⟨header, hd, -, hprev, -⟩
      exact ⟨header, hd, hprev⟩
    · rintro ⟨header, hd, hprev⟩
      have hnum := (hc.after os).blockNum_eq hprev
      refine ⟨header, hd, ?_, hprev, hnum⟩
      rw [hnum, hg.get?_next]
      nofun
  · intro hc
    induction os with
    | nil => exact ⟨rfl, fun _ h => absurd h List.not_mem_nil⟩
    | cons o os ih =>
      have hno := not_isOk_of_not_consistent hc o
      have hsame : start.next o = start := by
        rcases next_cases start o with ⟨-, hsame⟩ | ⟨_, hok, -⟩
        · exact hsame
        · rw [hno] at hok
          cases hok
      rw [after, results, hsame]
      exact ⟨ih.1, List.forall_mem_cons.mpr ⟨hno, ih.2⟩⟩

/-- A start with the number of the block above the one that its identity names. -/
def strayChain : Memory := ofSnapshot (Octets.zero 32) 7 (Checksum.ofBlockNum 6)

theorem narrowChain_works_and_strayChain_does_not :
    (∀ o, ((narrowChain.after mixedOffers).result o).isOk = true ↔
      ∃ header, Header.ofBlock o.raw = .ok header ∧
        header.previous = (narrowChain.after mixedOffers).headId) ∧
    strayChain.after mixedOffers = strayChain ∧
      ∀ result ∈ strayChain.results mixedOffers, result.isOk = false := by
  have hagree : narrowChain.Consistent := by
    unfold Consistent
    decide +kernel
  have hstray : ¬ strayChain.Consistent := by
    unfold Consistent
    decide +kernel
  exact ⟨(trusted_start_works_iff_consistent rfl mixedOffers).1 hagree narrowChain_room,
    (trusted_start_works_iff_consistent rfl mixedOffers).2 hstray⟩

/-- Whether a block goes on top of the greatest number. -/
def Rolls (m : Memory) (o : Offer) : Prop :=
  m.headNum = 0xffffffff ∧ (m.result o).isOk = true

theorem headNum_le_next (h : ¬ m.Rolls o) : m.headNum ≤ (m.next o).headNum := by
  rcases next_cases m o with ⟨-, hsame⟩ | ⟨header, hok, -, -, hnum, hnext⟩
  · rw [hsame]
    exact UInt32.le_refl _
  · have hne : m.headNum.toNat ≠ 4294967295 := fun htop => h ⟨UInt32.toNat_inj.mp htop, hok⟩
    have hlt := m.headNum.toNat_lt
    have hhead : (m.next o).headNum = m.headNum + 1 := by
      rw [hnext]
      exact hnum
    rw [hhead, UInt32.le_iff_toNat_le, UInt32.toNat_add, UInt32.toNat_one]
    omega

theorem Rolls.headNum_next (h : m.Rolls o) : (m.next o).headNum = 0 := by
  obtain ⟨htop, hok⟩ := h
  rcases next_cases m o with ⟨hno, -⟩ | ⟨header, -, -, -, hnum, hnext⟩
  · rw [hok] at hno
    cases hno
  · have hhead : (m.next o).headNum = m.headNum + 1 := by
      rw [hnext]
      exact hnum
    rw [hhead, htop]
    rfl

theorem depth_next (m : Memory) (o : Offer) : (m.next o).depth = m.depth := by
  rcases next_cases m o with ⟨-, hsame⟩ | ⟨header, -, -, -, -, hnext⟩
  · rw [hsame]
  · rw [hnext]
    rfl

theorem libNum_le_libNum {m' : Memory} (hdepth : m'.depth = m.depth)
    (h : m.headNum ≤ m'.headNum) : m.libNum ≤ m'.libNum := by
  rw [UInt32.le_iff_toNat_le] at h ⊢
  rw [toNat_libNum, toNat_libNum, hdepth]
  omega

theorem Grown.num_le_headNum (h : start.Grown bs m) {b : StoredBlock} (hb : b ∈ m.blocks) :
    b.num ≤ m.headNum := by
  rw [h.blocks] at hb
  have hhigh := (h.numbered.bounds (Store.mem_keepFrom.mp hb).1).2
  rwa [UInt32.le_iff_toNat_le, h.headNum]

/-- With any offer the head goes up or stays, and so does the last irreversible block, except that
both start over with a block on top of the greatest number. Up to there the store ends with the
head. -/
theorem head_rises_or_rolls (hstart : start.blocks = []) (os : List Offer) (o : Offer) :
    (¬ (start.after os).Rolls o →
      (start.after os).headNum ≤ ((start.after os).next o).headNum ∧
      (start.after os).libNum ≤ ((start.after os).next o).libNum) ∧
    ((start.after os).Rolls o →
      ((start.after os).next o).headNum = 0 ∧ ((start.after os).next o).libNum = 0) ∧
    (start.headNum.toNat + (start.accepted (os ++ [o])).length < UInt32.size →
      ∀ b ∈ ((start.after os).next o).blocks, b.num ≤ ((start.after os).next o).headNum) := by
  refine ⟨fun h => ?_, fun h => ?_, fun hroom b hb => ?_⟩
  · have hle := headNum_le_next h
    exact ⟨hle, libNum_le_libNum (depth_next _ o) hle⟩
  · have hzero := h.headNum_next
    refine ⟨hzero, ?_⟩
    rw [← UInt32.toNat_inj, toNat_libNum, hzero]
    exact Nat.zero_sub _
  · obtain ⟨bs, hg, -, -⟩ := (grown_start hstart).after (os ++ [o]) hroom
    rw [after_append] at hg
    exact hg.num_le_headNum hb

/-- A start with room for one more number. -/
def highChain : Memory := ofSnapshot (Octets.zero 32) 0xfffffffe (Checksum.ofBlockNum 0xfffffffe)

def topOffer : Offer := ⟨(fixture highChain.headId highChain.headNum 2)[0], false⟩

def rollingOffer : Offer := ⟨(fixture highChain.headId highChain.headNum 2)[1], false⟩

theorem highChain_rises_and_rolls :
    (highChain.headNum ≤ (highChain.next topOffer).headNum ∧
      highChain.libNum ≤ (highChain.next topOffer).libNum) ∧
    (∀ b ∈ (highChain.next topOffer).blocks, b.num ≤ (highChain.next topOffer).headNum) ∧
    ((highChain.after [topOffer]).next rollingOffer).headNum = 0 ∧
      ((highChain.after [topOffer]).next rollingOffer).libNum = 0 := by
  have hrises : ¬ highChain.Rolls topOffer := by
    unfold Rolls
    decide +kernel
  have hroom : highChain.headNum.toNat + (highChain.accepted [topOffer]).length < UInt32.size := by
    decide +kernel
  have hrolls : (highChain.after [topOffer]).Rolls rollingOffer := by
    unfold Rolls
    decide +kernel
  have hempty : highChain.blocks = [] := rfl
  obtain ⟨hrisen, -, hbelow⟩ := head_rises_or_rolls hempty [] topOffer
  rw [after] at hrisen hbelow
  rw [List.nil_append] at hbelow
  exact ⟨hrisen hrises, hbelow hroom,
    (head_rises_or_rolls hempty [topOffer] rollingOffer).2.1 hrolls⟩

/-- With the block on top of the greatest number the head falls, and the last irreversible block
with it, below a block that stays in the store. -/
theorem highChain_falls :
    let before := highChain.after [topOffer]
    let rolled := before.next rollingOffer
    highChain.blocks = [] ∧ rolled.headNum < before.headNum ∧ rolled.libNum < before.libNum ∧
      ∃ b ∈ rolled.blocks, rolled.headNum < b.num := by
  decide +kernel

end BlockSync.Chain.Memory

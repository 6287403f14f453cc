import BlockSync.Proofs.Chain.Memory

/-! A chain that extends another one, and what the shorter one becomes as it takes the blocks of
the longer one in order. A block that is not stored still has a name where the block above it is
stored, since that names its predecessor. -/

namespace BlockSync.Chain

namespace Store

variable {b c : StoredBlock} {s : Store} {num n floor : UInt32}

theorem get?_insert (c : StoredBlock) (s : Store) (n : UInt32) :
    (insert c s).get? n = if n = c.num then some c else s.get? n := by
  induction s with
  | nil =>
    by_cases h : n = c.num
    · simp [insert, get?, h]
    · simp [insert, get?, h, Ne.symm h]
  | cons d rest ih =>
    have hcons (e : StoredBlock) (s : Store) :
        Store.get? n (e :: s) = if n = e.num then some e else s.get? n := by
      by_cases h : n = e.num
      · simp [get?, h]
      · simp [get?, h, Ne.symm h]
    unfold insert
    split
    · exact hcons c _
    split
    · next hd =>
      rw [hcons, hcons, hd]
      split <;> rfl
    · next hd =>
      rw [hcons, hcons, ih]
      by_cases hn : n = d.num
      · rw [if_pos hn, if_pos hn, if_neg fun h => hd (hn.symm.trans h)]
      · rw [if_neg hn, if_neg hn]

theorem get?_keepFrom (floor : UInt32) (s : Store) (n : UInt32) :
    (keepFrom floor s).get? n = if floor ≤ n then s.get? n else none := by
  rw [keepFrom, get?, List.find?_filter]
  by_cases h : floor ≤ n
  · rw [if_pos h, get?]
    congr 1
    funext d
    by_cases hd : d.num = n
    · simp [hd, h]
    · simp [hd]
  · rw [if_neg h, List.find?_eq_none]
    intro d _ hd
    simp only [decide_eq_true_eq, beq_iff_eq] at hd
    exact h (hd.2 ▸ hd.1)

end Store

namespace Memory

variable {a b m : Memory} {n : UInt32} {x y : StoredBlock} {header : Header}

theorem get?_extend (m : Memory) (c : StoredBlock) (n : UInt32) :
    (m.extend c).blocks.get? n =
      if m.floor c.num ≤ n then if n = c.num then some c else m.blocks.get? n else none := by
  rw [extend, Store.get?_keepFrom, Store.get?_insert]

theorem get?_extend_eq_some {c : StoredBlock} (h : (m.extend c).blocks.get? n = some x) :
    n = c.num ∧ x = c ∨ n ≠ c.num ∧ m.blocks.get? n = some x := by
  rw [get?_extend] at h
  split at h
  · split at h
    · next hn =>
      cases h
      exact .inl ⟨hn, rfl⟩
    · next hn => exact .inr ⟨hn, h⟩
  · cases h

def previousOf (x : StoredBlock) : Option Checksum :=
  (Header.ofBlock x.raw).toOption.map (·.previous)

/-- The identity at a number, of the block there or as the block above it has it. -/
def nameAt (m : Memory) (n : UInt32) : Option Checksum :=
  (m.idAt n).or ((m.blocks.get? (n + 1)).bind previousOf)

/-- Whether each stored block up to the head names the one below it. -/
structure Linked (m : Memory) : Prop where
  top : ∀ x, m.blocks.get? m.headNum = some x → x.id = m.headId
  link : ∀ n x y header, n < m.headNum → m.blocks.get? n = some x →
    m.blocks.get? (n + 1) = some y → Header.ofBlock y.raw = .ok header → header.previous = x.id

theorem Linked.push (h : m.Linked) (raw : Bytes) (wantStatistics : Bool) :
    (m.push raw wantStatistics).1.Linked := by
  have hp := pushed m raw wantStatistics
  generalize m.push raw wantStatistics = p at hp
  cases hp with
  | malformed | known | unlinkable => exact h
  | @linked header _ hd _ hprev hnum =>
    refine ⟨fun x hx => ?_, fun n x y header' hlt hx hy hd' => ?_⟩
    · obtain ⟨-, rfl⟩ | ⟨hne, -⟩ := get?_extend_eq_some hx
      · rfl
      · exact absurd rfl hne
    · change n < header.blockNum at hlt
      obtain ⟨rfl, -⟩ | ⟨-, hx⟩ := get?_extend_eq_some hx
      · exact absurd hlt (UInt32.lt_irrefl _)
      -- The upper block is the new one, which names the head, or both were stored before.
      obtain ⟨hnext, rfl⟩ | ⟨hnext, hy⟩ := get?_extend_eq_some hy
      · cases hd.symm.trans hd'
        change n + 1 = header.blockNum at hnext
        rw [hnum, UInt32.add_left_inj] at hnext
        subst hnext
        rw [hprev, h.top x hx]
      · refine h.link n x y header' ?_ hx hy hd'
        change n + 1 ≠ header.blockNum at hnext
        rw [hnum, UInt32.lt_iff_toNat_lt, UInt32.toNat_add, UInt32.toNat_one] at hlt
        rw [hnum, Ne, UInt32.add_left_inj, ← UInt32.toNat_inj] at hnext
        rw [UInt32.lt_iff_toNat_lt]
        omega

theorem Reachable.linked (h : m.Reachable) : m.Linked := by
  induction h with
  | @empty m he =>
    have hnone (n : UInt32) (x : StoredBlock) : m.blocks.get? n ≠ some x := by
      rw [he]
      exact fun h => nomatch h
    exact ⟨fun x hx => absurd hx (hnone _ x), fun n x _ _ _ hx => absurd hx (hnone n x)⟩
  | push raw wantStatistics _ ih => exact ih.push raw wantStatistics

theorem Linked.idAt_of_get? (h : b.Linked) (hy : b.blocks.get? n = some y) :
    b.idAt n = some y.id := by
  rw [idAt]
  split
  · next hn =>
    subst hn
    rw [h.top y hy]
  · rw [hy]
    rfl

theorem Linked.nameAt_of_get? (h : b.Linked) (hy : b.blocks.get? n = some y) :
    b.nameAt n = some y.id := by
  rw [nameAt, h.idAt_of_get? hy]
  rfl

theorem Linked.nameAt_previous (h : b.Linked) (hlt : n < b.headNum)
    (hy : b.blocks.get? (n + 1) = some y) (hd : Header.ofBlock y.raw = .ok header) :
    b.nameAt n = some header.previous := by
  cases hx : b.blocks.get? n with
  | some x =>
    rw [h.nameAt_of_get? hx, h.link n x y header hlt hx hy hd]
  | none =>
    have hne : n ≠ b.headNum := fun he => UInt32.lt_irrefl _ (he ▸ hlt)
    rw [nameAt, idAt, if_neg hne, hx, hy]
    change previousOf y = _
    rw [previousOf, hd]
    rfl

/-- Whether a chain goes on from the head of another one, which lacks an irreversible block of it
and has room for all of it. -/
structure Extends (a b : Memory) : Prop where
  name : b.nameAt a.headNum = some a.headId
  lib : a.headNum < b.libNum
  stored : ∀ n, a.headNum < n → n ≤ b.headNum → (b.blocks.get? n).isSome
  room : b.headNum.toNat ≤ a.depth.toNat + a.retention.toNat
  /-- The numbers of the shorter chain have not started over. -/
  below : ∀ x ∈ a.blocks, x.num ≤ a.headNum

structure Tracks (a b m : Memory) : Prop where
  depth : m.depth = a.depth
  retention : m.retention = a.retention
  above : a.headNum ≤ m.headNum
  within : m.headNum ≤ b.headNum
  name : b.nameAt m.headNum = some m.headId
  top : ∀ n, m.headNum < n → m.blocks.get? n = none
  shared : ∀ n, a.headNum < n → n ≤ m.headNum → m.blocks.get? n = b.blocks.get? n

theorem Tracks.idAt_of_le (h : a.Tracks b m) (hb : b.Linked) (hy : b.blocks.get? n = some y)
    (habove : a.headNum < n) (hle : n ≤ m.headNum) : m.idAt n = some y.id := by
  rw [idAt]
  split
  · next hn => rw [← h.name, ← hn, hb.nameAt_of_get? hy]
  · rw [h.shared n habove hle, hy]
    rfl

theorem toNat_headNum_succ (hlt : m.headNum < b.headNum) :
    (m.headNum + 1).toNat = m.headNum.toNat + 1 := by
  have := b.headNum.toNat_lt
  rw [UInt32.lt_iff_toNat_lt] at hlt
  rw [UInt32.toNat_add, UInt32.toNat_one]
  omega

theorem Tracks.extend (h : a.Tracks b m) (he : a.Extends b) (hb : b.Linked)
    (hlt : m.headNum < b.headNum) (hy : b.blocks.get? (m.headNum + 1) = some y) :
    a.Tracks b (m.extend y) := by
  have hnum := (Store.mem_of_get? hy).2
  have hnext := toNat_headNum_succ hlt
  have hhead : (m.extend y).headNum = m.headNum + 1 := hnum
  have hup : m.headNum < m.headNum + 1 := by
    rw [UInt32.lt_iff_toNat_lt]
    omega
  -- Depth and retention reach below the first block, so the store only grows.
  have hfloor : m.floor y.num = 0 := by
    have hroom := he.room
    rw [UInt32.lt_iff_toNat_lt] at hlt
    rw [floor, ← UInt32.toNat_inj, toNat_satSub, toNat_satSub, hnum, hnext, h.depth, h.retention,
      UInt32.toNat_zero]
    omega
  have hget (n : UInt32) :
      (m.extend y).blocks.get? n = if n = m.headNum + 1 then some y else m.blocks.get? n := by
    rw [get?_extend, hfloor, if_pos UInt32.zero_le, hnum]
  refine ⟨h.depth, h.retention, ?_, ?_, ?_, fun n hn => ?_, fun n hlow hn => ?_⟩
  · rw [hhead]
    exact UInt32.le_of_lt (UInt32.lt_of_le_of_lt h.above hup)
  · rw [hhead, UInt32.le_iff_toNat_le, hnext]
    exact UInt32.lt_iff_toNat_lt.mp hlt
  · rw [hhead, hb.nameAt_of_get? hy]
    rfl
  · rw [hhead] at hn
    rw [hget, if_neg fun hn' => UInt32.lt_irrefl _ (hn' ▸ hn)]
    exact h.top n (UInt32.lt_trans hup hn)
  · rw [hget]
    split
    · next hn' => rw [hn', hy]
    · next hn' =>
      refine h.shared n hlow ?_
      rw [hhead, UInt32.le_iff_toNat_le, hnext] at hn
      rw [← UInt32.toNat_inj, hnext] at hn'
      rw [UInt32.le_iff_toNat_le]
      omega

theorem Tracks.push (h : a.Tracks b m) (hb : b.Linked) (hg : b.Genuine fun _ => True)
    (hlt : m.headNum < b.headNum) (hy : b.blocks.get? (m.headNum + 1) = some y)
    (wantStatistics : Bool) :
    ∃ text, m.push y.raw wantStatistics = (m.extend y, .ok text) := by
  obtain ⟨hmem, hnum⟩ := Store.mem_of_get? hy
  obtain ⟨header, hd, hbn, hid, -⟩ := hg y hmem
  rw [hnum] at hbn
  have hup : m.headNum < m.headNum + 1 := by
    have := toNat_headNum_succ hlt
    rw [UInt32.lt_iff_toNat_lt]
    omega
  have hprev : header.previous = m.headId :=
    Option.some.inj ((hb.nameAt_previous hlt hy hd).symm.trans h.name)
  have hp := pushed m y.raw wantStatistics
  generalize m.push y.raw wantStatistics = p at hp
  cases hp with
  | malformed hd' => cases hd.symm.trans hd'
  | known hd' hk =>
    cases hd.symm.trans hd'
    rw [hbn, h.top _ hup] at hk
    cases hk
  | unlinkable hd' hl =>
    cases hd.symm.trans hd'
    exact absurd hl (not_or.mpr ⟨not_not_intro hprev, not_not_intro hbn⟩)
  | linked text hd' =>
    cases hd.symm.trans hd'
    refine ⟨text, ?_⟩
    rw [hbn, hid, ← hnum]

end Memory

end BlockSync.Chain

import BlockSync.Chain.Fixture
import BlockSync.Proofs.Chain.Extension

/-! Blocks pushed one after the other, whatever becomes of each. The chain is its start with the
accepted blocks on top, and the store holds those of them that are not below the floor. -/

namespace BlockSync.Chain

structure Offer where
  raw : Bytes
  wantStatistics : Bool

namespace Memory

def next (m : Memory) (o : Offer) : Memory := (m.push o.raw o.wantStatistics).1

def result (m : Memory) (o : Offer) : PushResult := (m.push o.raw o.wantStatistics).2

/-- The chain after all of the offers. -/
def after (m : Memory) : List Offer → Memory
  | [] => m
  | o :: os => (m.next o).after os

def results (m : Memory) : List Offer → List PushResult
  | [] => []
  | o :: os => m.result o :: (m.next o).results os

/-- The offers without those that are refused. -/
def accepted (m : Memory) : List Offer → List Offer
  | [] => []
  | o :: os =>
    if (m.result o).isOk then o :: (m.next o).accepted os else (m.next o).accepted os

def AcceptedAs (m : Memory) (os : List Offer) (num : UInt32) (raw : Bytes) : Prop :=
  ∃ before o rest header, os = before ++ o :: rest ∧ ((m.after before).result o).isOk = true ∧
    o.raw = raw ∧ Header.ofBlock raw = .ok header ∧ header.blockNum = num

/-- The lowest number above a start that is not forgotten with the head at `head`. -/
def low (start : Memory) (head : Nat) : Nat :=
  max (start.headNum.toNat + 1) (head - start.depth.toNat - start.retention.toNat)

/-- What a chain holds after offers to its start. -/
structure Retains (start : Memory) (os : List Offer) (m : Memory) : Prop where
  head : (m.answer .headNum).toNat = start.headNum.toNat + (start.accepted os).length
  numbers : m.blocks.map (·.num.toNat) =
    (List.range' (start.low m.headNum.toNat)
      (m.headNum.toNat + 1 - start.low m.headNum.toNat)).reverse
  count : m.blocks.length ≤ start.depth.toNat + start.retention.toNat + 1
  earliest : (m.answer .earliest).toNat =
    if start.low m.headNum.toNat ≤ m.headNum.toNat then start.low m.headNum.toNat
    else (satAdd m.headNum 1).toNat
  stored : ∀ num, (m.answer (.blockAt num)).isSome ↔
    start.low m.headNum.toNat ≤ num.toNat ∧ num ≤ m.headNum
  fetched : ∀ num raw, m.answer (.blockAt num) = some raw ↔
    start.low m.headNum.toNat ≤ num.toNat ∧ start.AcceptedAs os num raw

/-- A push either changes nothing or puts a block on top of the head. -/
theorem next_cases (m : Memory) (o : Offer) :
    (m.result o).isOk = false ∧ m.next o = m ∨
    ∃ header, (m.result o).isOk = true ∧ Header.ofBlock o.raw = .ok header ∧
      header.previous = m.headId ∧ header.blockNum = m.headNum + 1 ∧
      m.next o = m.extend ⟨header.blockNum, header.id, o.raw⟩ := by
  have hp := pushed m o.raw o.wantStatistics
  unfold next result
  generalize m.push o.raw o.wantStatistics = p at hp
  cases hp with
  | malformed | known | unlinkable => exact .inl ⟨rfl, rfl⟩
  | @linked header _ hd _ hprev hnum => exact .inr ⟨header, rfl, hd, hprev, hnum, rfl⟩

theorem after_append (m : Memory) (os os' : List Offer) :
    m.after (os ++ os') = (m.after os).after os' := by
  induction os generalizing m with
  | nil => rfl
  | cons o os ih => exact ih (m.next o)

theorem accepted_append (m : Memory) (os os' : List Offer) :
    m.accepted (os ++ os') = m.accepted os ++ (m.after os).accepted os' := by
  induction os generalizing m with
  | nil => rfl
  | cons o os ih =>
    simp only [List.cons_append, accepted, ih, after]
    split <;> rfl

theorem AcceptedAs.cons {m : Memory} {o : Offer} {os : List Offer} {num : UInt32} {raw : Bytes}
    (h : (m.next o).AcceptedAs os num raw) : m.AcceptedAs (o :: os) num raw := by
  obtain ⟨before, o', rest, header, rfl, h⟩ := h
  exact ⟨o :: before, o', rest, header, rfl, h⟩

end Memory

namespace Store

def Numbered (num : Nat) : Store → Prop
  | [] => True
  | b :: rest => b.num.toNat = num + rest.length + 1 ∧ Numbered num rest

variable {num : Nat} {b c : StoredBlock} {bs : Store}

theorem Numbered.bounds (h : Numbered num bs) (hb : b ∈ bs) :
    num < b.num.toNat ∧ b.num.toNat ≤ num + bs.length := by
  induction bs with
  | nil => cases hb
  | cons c rest ih =>
    obtain ⟨hc, hrest⟩ := h
    rw [List.length_cons]
    rcases List.mem_cons.mp hb with rfl | hb
    · omega
    · have := ih hrest hb
      omega

theorem Numbered.eq_of_num_eq (h : Numbered num bs) (hb : b ∈ bs) (hc : c ∈ bs)
    (hnum : b.num = c.num) : b = c := by
  induction bs with
  | nil => cases hb
  | cons d rest ih =>
    obtain ⟨hd, hrest⟩ := h
    have hlow {e : StoredBlock} (he : e ∈ rest) : e.num ≠ d.num := by
      intro heq
      have := (hrest.bounds he).2
      rw [heq] at this
      omega
    rcases List.mem_cons.mp hb with rfl | hb' <;> rcases List.mem_cons.mp hc with rfl | hc'
    · rfl
    · exact absurd hnum.symm (hlow hc')
    · exact absurd hnum (hlow hb')
    · exact ih hrest hb' hc'

theorem mem_keepFrom {floor : UInt32} : b ∈ keepFrom floor bs ↔ b ∈ bs ∧ floor ≤ b.num := by
  simp [keepFrom]

theorem Numbered.get?_keepFrom (h : Numbered num bs) (floor n : UInt32) :
    (keepFrom floor bs).get? n = some b ↔ b ∈ bs ∧ floor ≤ n ∧ b.num = n := by
  constructor
  · intro hb
    obtain ⟨hmem, rfl⟩ := mem_of_get? hb
    obtain ⟨hmem, hfloor⟩ := mem_keepFrom.mp hmem
    exact ⟨hmem, hfloor, rfl⟩
  · rintro ⟨hmem, hfloor, rfl⟩
    have hkept : b ∈ keepFrom floor bs := mem_keepFrom.mpr ⟨hmem, hfloor⟩
    cases hget : (keepFrom floor bs).get? b.num with
    | none =>
      have hnone := List.find?_eq_none.mp hget b hkept
      simp at hnone
    | some c =>
      obtain ⟨hc, hnum⟩ := mem_of_get? hget
      rw [h.eq_of_num_eq (mem_keepFrom.mp hc).1 hmem hnum]

theorem Numbered.map_keepFrom (h : Numbered num bs) (floor : UInt32) :
    (keepFrom floor bs).map (·.num.toNat) =
      (List.range' (max (num + 1) floor.toNat)
        (num + bs.length + 1 - max (num + 1) floor.toNat)).reverse := by
  induction bs with
  | nil =>
    have hnone : num + 0 + 1 - max (num + 1) floor.toNat = 0 := by omega
    rw [List.length_nil, hnone]
    rfl
  | cons b rest ih =>
    obtain ⟨hb, hrest⟩ := h
    have ih := ih hrest
    rw [List.length_cons]
    by_cases hfloor : floor ≤ b.num
    · have hle : max (num + 1) floor.toNat ≤ num + rest.length + 1 := by
        rw [UInt32.le_iff_toNat_le] at hfloor
        omega
      have hlen : num + (rest.length + 1) + 1 - max (num + 1) floor.toNat =
          num + rest.length + 1 - max (num + 1) floor.toNat + 1 := by omega
      have hlast : max (num + 1) floor.toNat + 1 *
          (num + rest.length + 1 - max (num + 1) floor.toNat) = b.num.toNat := by omega
      rw [keepFrom, List.filter_cons_of_pos (by simpa using hfloor), List.map_cons, hlen,
        List.range'_concat, hlast, List.reverse_append]
      exact congrArg _ ih
    · have hnone : num + (rest.length + 1) + 1 - max (num + 1) floor.toNat =
          num + rest.length + 1 - max (num + 1) floor.toNat := by
        rw [UInt32.le_iff_toNat_le] at hfloor
        omega
      rw [keepFrom, List.filter_cons_of_neg (by simpa using hfloor), hnone]
      exact ih

theorem insert_eq_cons (h : ∀ c ∈ bs, c.num < b.num) : insert b bs = b :: bs := by
  cases bs with
  | nil => rfl
  | cons c rest => rw [insert, if_pos (h c List.mem_cons_self)]

theorem keepFrom_cons_keepFrom {low high : UInt32} (h : low ≤ high) (b : StoredBlock)
    (bs : Store) : keepFrom high (b :: keepFrom low bs) = keepFrom high (b :: bs) := by
  have hkeep : keepFrom high (keepFrom low bs) = keepFrom high bs := by
    rw [keepFrom, keepFrom, List.filter_filter]
    refine List.filter_congr fun c _ => ?_
    by_cases hc : high ≤ c.num
    · simp [hc, UInt32.le_trans h hc]
    · simp [hc]
  simp only [keepFrom, List.filter_cons] at hkeep ⊢
  rw [hkeep]

end Store

namespace Memory

variable {start m : Memory} {bs : Store} {os : List Offer} {num n : UInt32} {raw : Bytes}

theorem toNat_floor (m : Memory) (num : UInt32) :
    (m.floor num).toNat = num.toNat - m.depth.toNat - m.retention.toNat := by
  rw [floor, toNat_satSub, toNat_satSub]

/-- Whether a chain is a start with blocks on top, the latest first. -/
structure Grown (start : Memory) (bs : Store) (m : Memory) : Prop where
  depth : m.depth = start.depth
  retention : m.retention = start.retention
  headNum : m.headNum.toNat = start.headNum.toNat + bs.length
  headId : m.headId = (bs.head?.map (·.id)).getD start.headId
  numbered : Store.Numbered start.headNum.toNat bs
  blocks : m.blocks = Store.keepFrom (m.floor m.headNum) bs

theorem grown_start (h : start.blocks = []) : start.Grown [] start where
  depth := rfl
  retention := rfl
  headNum := rfl
  headId := rfl
  numbered := trivial
  blocks := h

theorem Grown.extend (h : start.Grown bs m) {b : StoredBlock}
    (hnum : b.num.toNat = m.headNum.toNat + 1) : start.Grown (b :: bs) (m.extend b) where
  depth := h.depth
  retention := h.retention
  headNum := by
    change b.num.toNat = _
    rw [hnum, h.headNum, List.length_cons, Nat.add_assoc]
  headId := rfl
  numbered := ⟨by rw [hnum, h.headNum], h.numbered⟩
  blocks := by
    have hlow : m.floor m.headNum ≤ m.floor b.num := by
      rw [UInt32.le_iff_toNat_le, toNat_floor, toNat_floor, hnum]
      omega
    have habove : ∀ c ∈ m.blocks, c.num < b.num := by
      intro c hc
      rw [h.blocks] at hc
      have hle := (h.numbered.bounds (Store.mem_keepFrom.mp hc).1).2
      rw [UInt32.lt_iff_toNat_lt, hnum, h.headNum]
      omega
    change Store.keepFrom (m.floor b.num) (Store.insert b m.blocks) = _
    rw [Store.insert_eq_cons habove, h.blocks, Store.keepFrom_cons_keepFrom hlow]
    rfl

theorem toNat_blockNum_of_lt {header : Header} (hnum : header.blockNum = m.headNum + 1)
    (hroom : m.headNum.toNat + 1 < UInt32.size) :
    header.blockNum.toNat = m.headNum.toNat + 1 := by
  rw [hnum, UInt32.toNat_add, UInt32.toNat_one]
  exact Nat.mod_eq_of_lt hroom

theorem Grown.after (h : start.Grown bs m) (os : List Offer)
    (hroom : m.headNum.toNat + (m.accepted os).length < UInt32.size) :
    ∃ more, start.Grown (more ++ bs) (m.after os) ∧ more.length = (m.accepted os).length ∧
      ∀ b ∈ more, m.AcceptedAs os b.num b.raw := by
  induction os generalizing m bs with
  | nil => exact ⟨[], h, rfl, fun b hb => absurd hb List.not_mem_nil⟩
  | cons o os ih =>
    rcases next_cases m o with ⟨hno, hsame⟩ | ⟨header, hok, hd, hprev, hnum, hnext⟩
    · simp only [accepted, hno, hsame] at hroom
      obtain ⟨more, hg, hlen, hmore⟩ := ih h hroom
      refine ⟨more, ?_, ?_, fun b hb => ?_⟩
      · rwa [Memory.after, hsame]
      · rw [hlen]
        simp only [accepted, hno, hsame]
        rfl
      · have hb := hmore b hb
        rw [← hsame] at hb
        exact hb.cons
    · simp only [accepted, hok, if_true, List.length_cons] at hroom
      have htop := toNat_blockNum_of_lt hnum (by omega)
      have hhead : (m.next o).headNum.toNat = m.headNum.toNat + 1 := by
        rw [hnext]
        exact htop
      have hg : start.Grown (⟨header.blockNum, header.id, o.raw⟩ :: bs) (m.next o) := by
        rw [hnext]
        exact h.extend htop
      obtain ⟨more, hg, hlen, hmore⟩ := ih hg (by rw [hhead]; omega)
      refine ⟨more ++ [⟨header.blockNum, header.id, o.raw⟩], ?_, ?_, fun b hb => ?_⟩
      · rw [List.append_assoc]
        exact hg
      · simp only [accepted, hok, if_true, List.length_append, List.length_cons, List.length_nil,
          hlen]
      · rcases List.mem_append.mp hb with hb | hb
        · exact (hmore b hb).cons
        · cases List.mem_singleton.mp hb
          exact ⟨[], o, os, header, rfl, hok, rfl, hd, rfl⟩

theorem Grown.get? (h : start.Grown bs m) {b : StoredBlock} :
    m.blocks.get? n = some b ↔ b ∈ bs ∧ m.floor m.headNum ≤ n ∧ b.num = n := by
  rw [h.blocks]
  exact h.numbered.get?_keepFrom _ n

theorem Grown.low_eq (h : start.Grown bs m) :
    start.low m.headNum.toNat = max (start.headNum.toNat + 1) (m.floor m.headNum).toNat := by
  rw [low, toNat_floor, h.depth, h.retention]

theorem Grown.numbers (h : start.Grown bs m) :
    m.blocks.map (·.num.toNat) =
      (List.range' (start.low m.headNum.toNat)
        (m.headNum.toNat + 1 - start.low m.headNum.toNat)).reverse := by
  rw [h.low_eq, h.blocks, h.headNum]
  exact h.numbered.map_keepFrom _

theorem Grown.length_blocks (h : start.Grown bs m) :
    m.blocks.length = m.headNum.toNat + 1 - start.low m.headNum.toNat := by
  have hlen := congrArg List.length h.numbers
  rwa [List.length_map, List.length_reverse, List.length_range'] at hlen

theorem Grown.earliest (h : start.Grown bs m) :
    m.earliest.toNat =
      if start.low m.headNum.toNat ≤ m.headNum.toNat then start.low m.headNum.toNat
      else (satAdd m.headNum 1).toNat := by
  have hlast : m.blocks.lowest?.map UInt32.toNat =
      (m.blocks.map (·.num.toNat)).getLast? := by
    rw [Store.lowest?, List.getLast?_map, Option.map_map]
    rfl
  rw [h.numbers, List.getLast?_reverse] at hlast
  unfold Memory.earliest
  split
  · next hle =>
    obtain ⟨k, hk⟩ : ∃ k, m.headNum.toNat + 1 - start.low m.headNum.toNat = k + 1 :=
      ⟨m.headNum.toNat - start.low m.headNum.toNat, by omega⟩
    rw [hk, List.range'_succ, List.head?_cons] at hlast
    obtain ⟨num, hnum, hlow⟩ := Option.map_eq_some_iff.mp hlast
    rw [hnum]
    exact hlow
  · next hgt =>
    rw [Nat.sub_eq_zero_of_le (by omega)] at hlast
    rw [Option.map_eq_none_iff.mp hlast]
    rfl

theorem Grown.isSome_get? (h : start.Grown bs m) (n : UInt32) :
    (m.blocks.get? n).isSome ↔ start.low m.headNum.toNat ≤ n.toNat ∧ n ≤ m.headNum := by
  rw [UInt32.le_iff_toNat_le]
  constructor
  · intro hsome
    obtain ⟨b, hb⟩ := Option.isSome_iff_exists.mp hsome
    obtain ⟨hmem, hfloor, rfl⟩ := h.get?.mp hb
    have hbounds := h.numbered.bounds hmem
    rw [UInt32.le_iff_toNat_le] at hfloor
    rw [h.low_eq, h.headNum]
    omega
  · rintro ⟨hlow, hle⟩
    have hmem : n.toNat ∈ m.blocks.map (·.num.toNat) := by
      rw [h.numbers, List.mem_reverse, List.mem_range'_1]
      omega
    obtain ⟨b, hb, hnum⟩ := List.mem_map.mp hmem
    rw [h.blocks] at hb
    obtain ⟨hb, hfloor⟩ := Store.mem_keepFrom.mp hb
    have hget : m.blocks.get? n = some b :=
      h.get?.mpr ⟨hb, UInt32.toNat_inj.mp hnum ▸ hfloor, UInt32.toNat_inj.mp hnum⟩
    rw [hget]
    rfl

theorem Grown.exists_of_acceptedAs (h : start.blocks = [])
    (hroom : start.headNum.toNat + (start.accepted os).length < UInt32.size)
    (ha : start.AcceptedAs os num raw) :
    ∃ bs, start.Grown bs (start.after os) ∧ ∃ b ∈ bs, b.num = num ∧ b.raw = raw := by
  obtain ⟨before, o, rest, header, rfl, hok, rfl, hd, rfl⟩ := ha
  rw [accepted_append, List.length_append] at hroom
  obtain ⟨bs, hg, hlen, -⟩ := (grown_start h).after before (by omega)
  rw [List.append_nil] at hg
  have hhead := hg.headNum
  rcases next_cases (start.after before) o with ⟨hno, -⟩ | ⟨header', -, hd', -, hnum, hnext⟩
  · rw [hok] at hno
    cases hno
  · cases hd.symm.trans hd'
    simp only [accepted, hok, if_true, List.length_cons] at hroom
    have htop := toNat_blockNum_of_lt hnum (by omega)
    have hnew := hg.extend (b := ⟨header.blockNum, header.id, o.raw⟩) htop
    rw [← hnext] at hnew
    obtain ⟨more, hend, -, -⟩ := hnew.after rest (by rw [hnew.headNum, List.length_cons]; omega)
    rw [after_append]
    refine ⟨_, hend, ⟨header.blockNum, header.id, o.raw⟩, ?_, rfl, rfl⟩
    exact List.mem_append_right _ List.mem_cons_self

/-- Whatever is offered to an empty store, it holds the accepted blocks of an interval that ends
with the head, and no others. -/
theorem retains_after {start : Memory} (hstart : start.blocks = []) (os : List Offer)
    (hroom : start.headNum.toNat + (start.accepted os).length < UInt32.size) :
    start.Retains os (start.after os) := by
  obtain ⟨bs, hg, hlen, haccepted⟩ := (grown_start hstart).after os hroom
  rw [List.append_nil] at hg
  refine ⟨?_, hg.numbers, ?_, hg.earliest, fun num => ?_, fun num raw => ?_⟩
  · rw [← hlen]
    exact hg.headNum
  · rw [hg.length_blocks, low]
    omega
  · change (((start.after os).blocks.get? num).map (·.raw)).isSome ↔ _
    rw [Option.isSome_map]
    exact hg.isSome_get? num
  · constructor
    · intro hfetch
      obtain ⟨b, hb, rfl⟩ := Option.map_eq_some_iff.mp hfetch
      have hlow := ((hg.isSome_get? num).mp (by rw [hb]; rfl)).1
      obtain ⟨hmem, -, rfl⟩ := hg.get?.mp hb
      exact ⟨hlow, haccepted b hmem⟩
    · rintro ⟨hlow, ha⟩
      obtain ⟨bs', hg', b, hb, rfl, rfl⟩ := Grown.exists_of_acceptedAs hstart hroom ha
      have hfloor : (start.after os).floor (start.after os).headNum ≤ b.num := by
        rw [hg'.low_eq] at hlow
        rw [UInt32.le_iff_toNat_le]
        omega
      exact Option.map_eq_some_iff.mpr ⟨b, hg'.get?.mpr ⟨hb, hfloor, rfl⟩, rfl⟩

/-- A chain that keeps two blocks, on top of block 6. -/
def narrowChain : Memory :=
  { ofSnapshot (Octets.zero 32) 6 (Checksum.ofBlockNum 6) with depth := 1, retention := 0 }

/-- Three blocks that fit, among them one twice and octets that are no block. -/
def mixedOffers : List Offer :=
  let blocks := (fixture narrowChain.headId narrowChain.headNum 3).map (Offer.mk · false)
  blocks.take 1 ++ [⟨[1, 2], false⟩] ++ blocks

theorem narrowChain_room :
    narrowChain.headNum.toNat + (narrowChain.accepted mixedOffers).length < UInt32.size := by
  decide +kernel

theorem narrowChain_retains :
    narrowChain.headNum.toNat + (narrowChain.accepted mixedOffers).length < UInt32.size ∧
      narrowChain.Retains mixedOffers (narrowChain.after mixedOffers) :=
  ⟨narrowChain_room, retains_after rfl mixedOffers narrowChain_room⟩

end Memory

end BlockSync.Chain

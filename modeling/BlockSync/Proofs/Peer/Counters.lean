import BlockSync.Peer.State
import BlockSync.Peer.Throughput
import BlockSync.Proofs.Number.Checked

/-! The counters of a peer in machine words: the generations of handshakes, and what is counted of
blocks. The counters stay so far below the ends of their words that no sum of them leaves its
word. -/

namespace BlockSync

namespace PeerState

def Counts (p : PeerState) : Prop := 1 ≤ p.generation ∧ p.generation < generationLimit

/-- The state after the current generation was used, by a sum of signed words. -/
def advanceChecked (p : PeerState) : Option PeerState := do
  let following ← Checked.signed 16 (p.generation.toInt + 1)
  if Int16.ofInt following = generationLimit then return { p with generation := 1 }
  return { p with generation := Int16.ofInt following }

theorem Counts.bounds {p : PeerState} (h : p.Counts) :
    1 ≤ p.generation.toInt ∧ p.generation.toInt < 32767 := by
  obtain ⟨h₁, h₂⟩ := h
  rw [Int16.le_iff_toInt_le] at h₁
  rw [Int16.lt_iff_toInt_lt] at h₂
  exact ⟨h₁, h₂⟩

theorem Counts.toInt_add_one {p : PeerState} (h : p.Counts) :
    (p.generation + 1).toInt = p.generation.toInt + 1 := by
  have hbounds := h.bounds
  have hone : (1 : Int16).toInt = 1 := rfl
  rw [Int16.toInt_add, hone]
  exact Int.bmod_eq_of_le (by omega) (by omega)

theorem counts_reset (p : PeerState) : p.reset.Counts := by
  change (1 : Int16) ≤ 1 ∧ (1 : Int16) < generationLimit
  decide

theorem counts_fresh : fresh.Counts := counts_reset {}

theorem Counts.advanceGeneration {p : PeerState} (h : p.Counts) : p.advanceGeneration.Counts := by
  have hbounds := h.bounds
  have hnext := h.toInt_add_one
  have hg : p.advanceGeneration.generation = followingGeneration p.generation := rfl
  rw [Counts, hg, Int16.le_iff_toInt_le, Int16.lt_iff_toInt_lt]
  have hone : (1 : Int16).toInt = 1 := rfl
  have hlimit : generationLimit.toInt = 32767 := rfl
  rw [hone, hlimit]
  unfold followingGeneration
  split
  · decide
  · next hne =>
    have hne' : (p.generation + 1).toInt ≠ generationLimit.toInt :=
      fun h => hne (Int16.toInt_inj.mp h)
    omega

theorem Counts.advanceChecked {p : PeerState} (h : p.Counts) :
    p.advanceChecked = some p.advanceGeneration := by
  have hbounds := h.bounds
  have hfits : Checked.signed 16 (p.generation.toInt + 1) = some (p.generation.toInt + 1) :=
    if_pos (by omega)
  have hsum : Int16.ofInt (p.generation.toInt + 1) = p.generation + 1 := by
    rw [← h.toInt_add_one, Int16.ofInt_toInt]
  simp only [PeerState.advanceChecked, hfits, Option.bind_eq_bind, Option.bind_some, hsum]
  unfold PeerState.advanceGeneration followingGeneration
  split <;> rfl

end PeerState

namespace Throughput

def recordChecked (t : Throughput) (size : Nat) (now : Instant) : Option Throughput :=
  match t.slotStart with
  | none => some { t with slotStart := some now }
  | some start => do
    let count ← Checked.add 32 t.count 1
    let bytes ← Checked.add 64 t.bytes size
    if count = slotBlocks then
      return { t with
        count := 0
        bytes := 0
        slotStart := some now
        window := trim (t.window ++ [⟨bytes, now.since start⟩]) }
    return { t with count, bytes }

def ratesChecked (t : Throughput) : Option (Option (Float × Float)) := do
  let bytes ← t.window.foldlM (fun acc slot => Checked.add 64 acc slot.bytes) 0
  let seconds := t.window.foldl (fun acc slot => acc + secondsOf slot.duration) 0.0
  if t.window.isEmpty || seconds ≤ 0.0 then return none
  let blocks ← Checked.mul 64 t.window.length slotBlocks
  return some (Float.ofNat blocks / seconds, Float.ofNat bytes / seconds / 1024.0)

def remainingChecked (blockNum : UInt32) (remoteHead : Option UInt32) (blocksPerSecond : Float) :
    Option (Option (UInt32 × Duration)) :=
  match remoteHead with
  | none => some none
  | some head =>
    if blockNum < head then do
      let left ← Checked.sub head.toNat blockNum.toNat
      return some (UInt32.ofNat left, timeFor (UInt32.ofNat left) blocksPerSecond)
    else some none

def reportChecked (t : Throughput) (now : Instant) (blockNum : UInt32)
    (remoteHead : Option UInt32) : Option (Throughput × Option SpeedReport) :=
  let last := t.lastReport.getD now
  if now.since last < reportInterval then some ({ t with lastReport := some last }, none)
  else do
    let t := { t with lastReport := some now }
    match ← t.ratesChecked with
    | none => return (t, none)
    | some (blocksPerSecond, kilobytesPerSecond) =>
      let remaining ← remainingChecked blockNum remoteHead blocksPerSecond
      return (t, some { blocksPerSecond, kilobytesPerSecond, blockNum, remaining })

def tallyChecked (t : Throughput) (size : Nat) (now : Instant) (blockNum : UInt32)
    (remoteHead : Option UInt32) : Option Throughput := do
  let t ← t.recordChecked size now
  let (t, _) ← t.reportChecked now blockNum remoteHead
  return t

/-- Counters that grew by blocks of less than `limit` octets. -/
structure Bounded (limit : Nat) (t : Throughput) : Prop where
  count : t.count < slotBlocks
  bytes : t.bytes ≤ t.count * limit
  window : t.window.length ≤ windowSlots
  slots : ∀ slot ∈ t.window, slot.bytes ≤ slotBlocks * limit

section

variable {limit : Nat} {t : Throughput}

theorem bounded_empty (limit : Nat) : Bounded limit {} :=
  ⟨by decide, Nat.zero_le _, by decide, fun _ h => nomatch h⟩

theorem mem_trim {slot : Slot} {window : List Slot} (h : slot ∈ trim window) : slot ∈ window :=
  List.mem_of_mem_drop h

theorem length_trim_le (window : List Slot) : (trim window).length ≤ windowSlots := by
  rw [trim, List.length_drop]
  omega

theorem Bounded.record (h : t.Bounded limit) {size : Nat} (hsize : size ≤ limit) (now : Instant) :
    (t.record size now).Bounded limit := by
  obtain ⟨hcount, hbytes, hwindow, hslots⟩ := h
  have hsum : t.bytes + size ≤ (t.count + 1) * limit := by
    rw [Nat.add_mul, Nat.one_mul]
    exact Nat.add_le_add hbytes hsize
  unfold Throughput.record
  split
  · exact ⟨hcount, hbytes, hwindow, hslots⟩
  · dsimp only
    split
    · next hfull =>
      constructor
      · change 0 < slotBlocks
        decide
      · exact Nat.zero_le _
      · dsimp only
        exact length_trim_le _
      · intro slot hslot
        dsimp only at hslot
        rcases List.mem_append.mp (mem_trim hslot) with hslot | hslot
        · exact hslots slot hslot
        · rw [List.mem_singleton.mp hslot, ← hfull]
          exact hsum
    · next hroom => exact ⟨Nat.lt_of_le_of_ne hcount hroom, hsum, hwindow, hslots⟩

theorem Bounded.report (h : t.Bounded limit) (now : Instant) (blockNum : UInt32)
    (remoteHead : Option UInt32) : (t.report now blockNum remoteHead).1.Bounded limit := by
  obtain ⟨hcount, hbytes, hwindow, hslots⟩ := h
  unfold Throughput.report
  dsimp only
  split
  · exact ⟨hcount, hbytes, hwindow, hslots⟩
  · split <;> exact ⟨hcount, hbytes, hwindow, hslots⟩

theorem foldlM_add {slots : List Slot} {most acc : Nat} (h : ∀ slot ∈ slots, slot.bytes ≤ most)
    (hroom : acc + slots.length * most < 2 ^ 64) :
    slots.foldlM (fun acc slot => Checked.add 64 acc slot.bytes) acc =
      some (slots.foldl (fun acc slot => acc + slot.bytes) acc) := by
  induction slots generalizing acc with
  | nil => rfl
  | cons slot slots ih =>
    obtain ⟨hslot, hslots⟩ := List.forall_mem_cons.mp h
    rw [List.length_cons, Nat.add_mul, Nat.one_mul] at hroom
    have hadd : Checked.add 64 acc slot.bytes = some (acc + slot.bytes) := if_pos (by omega)
    rw [List.foldlM_cons, hadd, List.foldl_cons]
    exact ih hslots (by omega)

theorem recordChecked_eq {size : Nat} (hcount : t.count + 1 < 2 ^ 32)
    (hbytes : t.bytes + size < 2 ^ 64) (now : Instant) :
    t.recordChecked size now = some (t.record size now) := by
  have hadd : Checked.add 32 t.count 1 = some (t.count + 1) := if_pos hcount
  have hsum : Checked.add 64 t.bytes size = some (t.bytes + size) := if_pos hbytes
  unfold Throughput.recordChecked Throughput.record
  cases t.slotStart with
  | none => rfl
  | some start =>
    simp only [hadd, hsum, Option.bind_eq_bind, Option.bind_some]
    split <;> rfl

theorem Bounded.recordChecked (h : t.Bounded limit) (hlimit : limit < 2 ^ 32) {size : Nat}
    (hsize : size ≤ limit) (now : Instant) :
    t.recordChecked size now = some (t.record size now) := by
  obtain ⟨hcount, hbytes, -, -⟩ := h
  have hmost : t.count * limit ≤ slotBlocks * 2 ^ 32 := Nat.mul_le_mul (by omega) (by omega)
  rw [slotBlocks] at hcount hmost
  exact recordChecked_eq (by omega) (by omega) now

theorem Bounded.ratesChecked (h : t.Bounded limit) (hlimit : limit < 2 ^ 32) :
    t.ratesChecked = some t.rates := by
  obtain ⟨-, -, hwindow, hslots⟩ := h
  have hslot : slotBlocks * limit ≤ 120 * 2 ^ 32 := Nat.mul_le_mul (Nat.le_refl _) (by omega)
  have hmost : t.window.length * (slotBlocks * limit) ≤ 720 * (120 * 2 ^ 32) :=
    Nat.mul_le_mul hwindow hslot
  have hcount : t.window.length * slotBlocks ≤ 720 * 120 := Nat.mul_le_mul hwindow (Nat.le_refl _)
  have hsum : t.window.foldlM (fun acc slot => Checked.add 64 acc slot.bytes) 0 =
      some (t.window.foldl (fun acc slot => acc + slot.bytes) 0) :=
    foldlM_add hslots (by omega)
  have hblocks : Checked.mul 64 t.window.length slotBlocks = some (t.window.length * slotBlocks) :=
    if_pos (by omega)
  unfold Throughput.ratesChecked Throughput.rates
  simp only [hsum, hblocks, Option.bind_eq_bind, Option.bind_some]
  split <;> rfl

theorem remainingChecked_eq (blockNum : UInt32) (remoteHead : Option UInt32)
    (blocksPerSecond : Float) :
    remainingChecked blockNum remoteHead blocksPerSecond =
      some (match remoteHead with
        | none => none
        | some head =>
          if blockNum < head then
            some (head - blockNum, timeFor (head - blockNum) blocksPerSecond)
          else none) := by
  unfold remainingChecked
  cases remoteHead with
  | none => rfl
  | some head =>
    dsimp only
    split
    · next hlt =>
      have hle := UInt32.le_of_lt hlt
      have hsub : Checked.sub head.toNat blockNum.toNat = some (head - blockNum).toNat := by
        rw [UInt32.toNat_sub_of_le _ _ hle]
        exact if_pos (UInt32.le_iff_toNat_le.mp hle)
      rw [hsub]
      simp only [Option.bind_eq_bind, Option.bind_some, UInt32.ofNat_toNat]
      rfl
    · rfl

theorem Bounded.reportChecked (h : t.Bounded limit) (hlimit : limit < 2 ^ 32) (now : Instant)
    (blockNum : UInt32) (remoteHead : Option UInt32) :
    t.reportChecked now blockNum remoteHead = some (t.report now blockNum remoteHead) := by
  have hrates (last : Option Instant) : ({ t with lastReport := last } : Throughput).ratesChecked =
      some ({ t with lastReport := last } : Throughput).rates :=
    Bounded.ratesChecked ⟨h.count, h.bytes, h.window, h.slots⟩ hlimit
  unfold Throughput.reportChecked Throughput.report
  dsimp only
  split
  · rfl
  · simp only [hrates, remainingChecked_eq, Option.bind_eq_bind, Option.bind_some]
    cases ({ t with lastReport := some now } : Throughput).rates <;> rfl

theorem Bounded.tallyChecked (h : t.Bounded limit) (hlimit : limit < 2 ^ 32) {size : Nat}
    (hsize : size ≤ limit) (now : Instant) (blockNum : UInt32) (remoteHead : Option UInt32) :
    t.tallyChecked size now blockNum remoteHead =
      some ((t.record size now).report now blockNum remoteHead).1 := by
  rw [Throughput.tallyChecked, h.recordChecked hlimit hsize now, Option.bind_eq_bind,
    Option.bind_some, (h.record hsize now).reportChecked hlimit now blockNum remoteHead]
  rfl

end

end Throughput

end BlockSync

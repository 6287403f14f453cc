import BlockSync.Proofs.Peer.Counters
import Mathlib.Tactic.Common

/-! The window of a session's measures. What is counted block by block is what the whole sequence of
blocks gives when it is cut into slots, and the latest slots stand in the window. -/

namespace BlockSync.Throughput

structure Arrival where
  size : Nat
  time : Instant
  deriving DecidableEq

structure Inquiry where
  now : Instant
  blockNum : UInt32
  remoteHead : Option UInt32
  answer : Option SpeedReport

/-- What is done with measures. -/
inductive Use where
  | block (size : Nat) (now : Instant)
  | report (now : Instant) (blockNum : UInt32) (remoteHead : Option UInt32)
  | clear

/-- Measures with what they were used for since they were cleared. -/
structure Logbook where
  throughput : Throughput := {}
  arrivals : List Arrival := []
  inquiries : List Inquiry := []

namespace Logbook

def use (book : Logbook) : Use → Logbook
  | .block size now =>
    { book with
      throughput := book.throughput.record size now
      arrivals := book.arrivals ++ [⟨size, now⟩] }
  | .report now blockNum remoteHead =>
    let (throughput, answer) := book.throughput.report now blockNum remoteHead
    { book with
      throughput
      inquiries := book.inquiries ++ [⟨now, blockNum, remoteHead, answer⟩] }
  | .clear => {}

def after (uses : List Use) : Logbook := uses.foldl use {}

/-- What holds of new measures and is kept by every use of them holds whatever they are used for. -/
theorem after_induction {P : Logbook → Prop} (hnew : P {})
    (huse : ∀ book u, P book → P (book.use u)) (uses : List Use) : P (after uses) := by
  unfold after
  generalize ({} : Logbook) = book at hnew ⊢
  induction uses generalizing book with
  | nil => exact hnew
  | cons u uses ih => exact ih _ (huse book u hnew)

end Logbook

def total : List Arrival → Nat
  | [] => 0
  | a :: as => a.size + total as

def timeOf (as : List Arrival) (i : Nat) : Instant := (as[i]?.map Arrival.time).getD 0

/-- How many slots are full. The first block belongs to none. -/
def fullSlots (as : List Arrival) : Nat := (as.length - 1) / 120

/-- A slot by its number, from zero on: the octets of its blocks, and the time from the block before
them to the last of them. -/
def slot (as : List Arrival) (j : Nat) : Slot :=
  ⟨total ((as.drop (120 * j + 1)).take 120),
    (timeOf as (120 * (j + 1))).since (timeOf as (120 * j))⟩

/-- What measures come to when the whole sequence of blocks is cut into slots. -/
structure Windowed (as : List Arrival) (t : Throughput) : Prop where
  window : t.window = (List.range' (fullSlots as - 720) (min 720 (fullSlots as))).map (slot as)
  count : t.count = (as.length - 1) % 120
  bytes : t.bytes = total (as.drop (120 * fullSlots as + 1))
  /-- No difference of times is cut off, and a slot starts when the one before it ends. -/
  durations : ∀ j < fullSlots as,
    ((slot as j).duration : Int) = timeOf as (120 * (j + 1)) - timeOf as (120 * j)
  /-- The slots of the window leave no time out. -/
  spanned : ((t.window.foldl (fun acc slot => acc + slot.duration) 0 : Nat) : Int) =
    timeOf as (120 * fullSlots as) - timeOf as (120 * (fullSlots as - 720))
  /-- Every octet since the window starts is counted once. -/
  counted : t.window.foldl (fun acc slot => acc + slot.bytes) 0 + t.bytes =
    total (as.drop (120 * (fullSlots as - 720) + 1))
  /-- No word overflows as long as there is one for the octets of a slot. -/
  fits : ∀ size now, t.bytes + size < 2 ^ 64 →
    t.recordChecked size now = some (t.record size now)

/-- What every use of measures keeps, whatever the times of the blocks. -/
structure Tracks (as : List Arrival) (t : Throughput) : Prop where
  slotStart : t.slotStart = as[120 * fullSlots as]?.map Arrival.time
  count : t.count = (as.length - 1) % 120
  bytes : t.bytes = total (as.drop (120 * fullSlots as + 1))
  window : t.window = trim ((List.range (fullSlots as)).map (slot as))

section

variable {as : List Arrival} {t : Throughput}

theorem total_append (as bs : List Arrival) : total (as ++ bs) = total as + total bs := by
  induction as with
  | nil => exact (Nat.zero_add _).symm
  | cons a as ih => rw [List.cons_append, total, total, ih, Nat.add_assoc]

theorem trim_trim_append (window : List Slot) (s : Slot) :
    trim (trim window ++ [s]) = trim (window ++ [s]) := by
  have hkept : trim window ++ [s] = (window ++ [s]).drop (window.length - windowSlots) := by
    rw [trim, List.drop_append_of_le_length (Nat.sub_le _ _)]
  have hleft : window.length - windowSlots +
      (window.length + 1 - (window.length - windowSlots) - windowSlots) =
        window.length + 1 - windowSlots := by omega
  rw [hkept, trim, trim, List.drop_drop, List.length_drop, List.length_append,
    List.length_singleton, hleft]

theorem fullSlots_le (as : List Arrival) : 120 * fullSlots as ≤ as.length - 1 :=
  Nat.mul_div_le _ _

theorem timeOf_append {i : Nat} (h : i < as.length) (a : Arrival) :
    timeOf (as ++ [a]) i = timeOf as i := by
  rw [timeOf, timeOf, List.getElem?_append_left h]

theorem timeOf_last (as : List Arrival) (a : Arrival) :
    timeOf (as ++ [a]) as.length = a.time := by
  rw [timeOf, List.getElem?_concat_length]
  rfl

theorem slot_append {j : Nat} (h : j < fullSlots as) (a : Arrival) :
    slot (as ++ [a]) j = slot as j := by
  have hfull := fullSlots_le as
  have hblocks : ((as ++ [a]).drop (120 * j + 1)).take 120 = (as.drop (120 * j + 1)).take 120 := by
    rw [List.drop_append_of_le_length (by omega), List.take_append_of_le_length]
    rw [List.length_drop]
    omega
  rw [slot, slot, hblocks, timeOf_append (by omega), timeOf_append (by omega)]

theorem map_slot_append (as : List Arrival) (a : Arrival) :
    (List.range (fullSlots as)).map (slot (as ++ [a])) =
      (List.range (fullSlots as)).map (slot as) :=
  List.map_congr_left fun _ hj => slot_append (List.mem_range.mp hj) a

theorem trim_nil : trim [] = [] := List.drop_nil

theorem tracks_new : Tracks [] {} where
  slotStart := rfl
  count := rfl
  bytes := by rw [List.drop_nil, total]
  window := trim_nil.symm

theorem Tracks.first (h : Tracks [] t) (a : Arrival) :
    Tracks [a] { t with slotStart := some a.time } := by
  obtain ⟨-, hcount, hbytes, hwindow⟩ := h
  have hnone : fullSlots [a] = 0 := by rw [fullSlots, List.length_singleton]
  have hempty : fullSlots [] = 0 := rfl
  constructor
  · rw [hnone]
    rfl
  · exact hcount
  · rw [hnone, Nat.mul_zero, Nat.zero_add, List.drop_one, List.tail_cons]
    rwa [List.drop_nil] at hbytes
  · rw [hnone, List.range_zero, List.map_nil]
    rwa [hempty, List.range_zero, List.map_nil] at hwindow

theorem Tracks.more (h : Tracks as t) (hne : as ≠ []) (a : Arrival) (hopen : t.count + 1 ≠ 120) :
    Tracks (as ++ [a]) { t with count := t.count + 1, bytes := t.bytes + a.size } := by
  have hlength : 1 ≤ as.length := List.length_pos_iff.mpr hne
  have hcount := h.count
  have hfull : fullSlots (as ++ [a]) = fullSlots as := by
    rw [fullSlots, fullSlots, List.length_append, List.length_singleton]
    omega
  have hle := fullSlots_le as
  constructor
  · rw [hfull, List.getElem?_append_left (by omega)]
    exact h.slotStart
  · rw [List.length_append, List.length_singleton]
    dsimp only
    omega
  · rw [hfull, List.drop_append_of_le_length (by omega), total_append, ← h.bytes]
    rfl
  · rw [hfull, map_slot_append]
    exact h.window

theorem Tracks.last (h : Tracks as t) (hne : as ≠ []) (a : Arrival) (hfills : t.count + 1 = 120)
    {start : Instant} (hstart : t.slotStart = some start) :
    Tracks (as ++ [a])
      { t with
        count := 0
        bytes := 0
        slotStart := some a.time
        window := trim (t.window ++ [⟨t.bytes + a.size, a.time.since start⟩]) } := by
  have hlength : 1 ≤ as.length := List.length_pos_iff.mpr hne
  have hcount := h.count
  have hle := fullSlots_le as
  have hend : as.length = 120 * (fullSlots as + 1) := by
    rw [fullSlots]
    omega
  have hfull : fullSlots (as ++ [a]) = fullSlots as + 1 := by
    rw [fullSlots, List.length_append, List.length_singleton]
    omega
  -- The slot begins where the last full one ended, and this block is its last one.
  have hslot : slot (as ++ [a]) (fullSlots as) = ⟨t.bytes + a.size, a.time.since start⟩ := by
    have hblocks : ((as ++ [a]).drop (120 * fullSlots as + 1)).take 120 =
        as.drop (120 * fullSlots as + 1) ++ [a] := by
      rw [List.drop_append_of_le_length (by omega), List.take_of_length_le]
      rw [List.length_append, List.length_drop, List.length_singleton]
      omega
    have hbegin : timeOf as (120 * fullSlots as) = start := by
      rw [timeOf, ← h.slotStart, hstart]
      rfl
    rw [slot, hblocks, total_append, ← h.bytes, ← hend, timeOf_last, timeOf_append (by omega),
      hbegin]
    rfl
  constructor
  · rw [hfull, ← hend, List.getElem?_concat_length]
    rfl
  · rw [List.length_append, List.length_singleton]
    dsimp only
    omega
  · rw [hfull, ← hend, List.drop_eq_nil_of_le]
    · rfl
    · exact Nat.le_of_eq List.length_append
  · rw [hfull, List.range_succ, List.map_append, map_slot_append, List.map_singleton, hslot,
      ← trim_trim_append (List.map _ _), ← h.window]

theorem Tracks.record (h : Tracks as t) (size : Nat) (now : Instant) :
    Tracks (as ++ [⟨size, now⟩]) (t.record size now) := by
  have hstart := h.slotStart
  unfold Throughput.record
  by_cases hne : as = []
  · rw [hne] at h hstart ⊢
    rw [hstart]
    exact h.first ⟨size, now⟩
  · have hle := fullSlots_le as
    have hlength : 1 ≤ as.length := List.length_pos_iff.mpr hne
    rw [List.getElem?_eq_getElem (by omega), Option.map_some] at hstart
    have hmore := h.more hne ⟨size, now⟩
    rw [hstart] at hmore
    simp only [hstart]
    split
    · next hfills => exact h.last hne ⟨size, now⟩ hfills hstart
    · next hopen => exact hmore hopen

theorem Tracks.report (h : Tracks as t) (now : Instant) (blockNum : UInt32)
    (remoteHead : Option UInt32) : Tracks as (t.report now blockNum remoteHead).1 := by
  unfold Throughput.report
  dsimp only
  split
  · exact ⟨h.slotStart, h.count, h.bytes, h.window⟩
  · split <;> exact ⟨h.slotStart, h.count, h.bytes, h.window⟩

theorem tracks_after (uses : List Use) :
    Tracks (Logbook.after uses).arrivals (Logbook.after uses).throughput := by
  refine Logbook.after_induction (P := fun book => Tracks book.arrivals book.throughput)
    tracks_new (fun book u h => ?_) uses
  cases u with
  | block size now => exact h.record size now
  | report now blockNum remoteHead => exact h.report now blockNum remoteHead
  | clear => exact tracks_new

/-- The latest slots are those that are left when a window of all is trimmed. -/
theorem trim_map_range (n : Nat) (f : Nat → Slot) :
    trim ((List.range n).map f) = (List.range' (n - 720) (min 720 n)).map f := by
  have hslots : windowSlots = 720 := rfl
  have hcount : n - (n - 720) = min 720 n := by omega
  rw [trim, List.length_map, List.length_range, ← List.map_drop, List.range_eq_range',
    List.drop_range', hslots, hcount, Nat.mul_one, Nat.zero_add]

theorem foldl_bytes (as : List Arrival) (first n : Nat) :
    ((List.range' first n).map (slot as)).foldl (fun acc slot => acc + slot.bytes) 0 =
      total ((as.drop (120 * first + 1)).take (120 * n)) := by
  induction n with
  | zero => rfl
  | succ n ih =>
    have hnext : 120 * first + 1 + 120 * n = 120 * (first + n) + 1 := by omega
    rw [List.range'_1_concat, List.map_append, List.foldl_append, ih, Nat.mul_succ, List.take_add,
      total_append, List.drop_drop, hnext]
    rfl

theorem foldl_duration (first n : Nat)
    (h : ∀ j < first + n, ((slot as j).duration : Int) =
      timeOf as (120 * (j + 1)) - timeOf as (120 * j)) :
    ((((List.range' first n).map (slot as)).foldl (fun acc slot => acc + slot.duration) 0 : Nat)
      : Int) = timeOf as (120 * (first + n)) - timeOf as (120 * first) := by
  induction n with
  | zero => exact (Int.sub_self _).symm
  | succ n ih =>
    have hlast := h (first + n) (Nat.lt_succ_self _)
    rw [List.range'_1_concat, List.map_append, List.foldl_append, List.map_singleton,
      List.foldl_cons, List.foldl_nil, Int.natCast_add, ih fun j hj => h j (by omega), hlast,
      ← Nat.add_assoc]
    omega

theorem duration_slot (h : as.Pairwise fun a b => a.time ≤ b.time) {j : Nat}
    (hj : j < fullSlots as) :
    ((slot as j).duration : Int) = timeOf as (120 * (j + 1)) - timeOf as (120 * j) := by
  have hle := fullSlots_le as
  have hfirst : 120 * j < as.length := by omega
  have hlast : 120 * (j + 1) < as.length := by omega
  have htimes : timeOf as (120 * j) ≤ timeOf as (120 * (j + 1)) := by
    rw [timeOf, timeOf, List.getElem?_eq_getElem hfirst, List.getElem?_eq_getElem hlast]
    exact List.pairwise_iff_getElem.mp h _ _ hfirst hlast (by omega)
  exact Int.toNat_of_nonneg (Int.sub_nonneg_of_le htimes)

theorem Tracks.windowed (h : Tracks as t) (htimes : as.Pairwise fun a b => a.time ≤ b.time) :
    Windowed as t := by
  have hwindow := h.window
  rw [trim_map_range] at hwindow
  have hdurations (j : Nat) (hj : j < fullSlots as) := duration_slot htimes hj
  have hend : fullSlots as - 720 + min 720 (fullSlots as) = fullSlots as := by omega
  refine ⟨hwindow, h.count, h.bytes, hdurations, ?_, ?_, ?_⟩
  · have hspan := foldl_duration (fullSlots as - 720) (min 720 (fullSlots as)) fun j hj =>
      hdurations j (by omega)
    rw [hend] at hspan
    rw [hwindow]
    exact hspan
  · have hsplit : 120 * (fullSlots as - 720) + 1 + 120 * min 720 (fullSlots as) =
        120 * fullSlots as + 1 := by omega
    have hrest : as.drop (120 * fullSlots as + 1) =
        (as.drop (120 * (fullSlots as - 720) + 1)).drop (120 * min 720 (fullSlots as)) := by
      rw [List.drop_drop, hsplit]
    rw [hwindow, foldl_bytes, h.bytes, hrest, ← total_append, List.take_append_drop]
  · have hcount : t.count < 120 := by
      rw [h.count]
      exact Nat.mod_lt _ (by decide)
    exact fun size now hbytes => recordChecked_eq (by omega) hbytes now

end

/-- Whatever the measures of a session are used for: if the times of its blocks never went back, the
window holds the latest of the slots that the blocks since the last clearing are cut into, and the
rest of the blocks is what is counted of the next slot. -/
theorem window_is_latest_slots (uses : List Use)
    (h : (Logbook.after uses).arrivals.Pairwise fun a b => a.time ≤ b.time) :
    Windowed (Logbook.after uses).arrivals (Logbook.after uses).throughput :=
  (tracks_after uses).windowed h

/-- A block before the measures were cleared, and 243 blocks since, with a report in between. -/
def twoSlots : List Use :=
  .block 9 7 :: .clear :: .report 3 40 none ::
    (List.range 243).map fun i => .block (i + 1) (10 * i)

theorem window_is_latest_slots_of_two :
    (Logbook.after twoSlots).throughput.window = [⟨7380, 1200⟩, ⟨21780, 1200⟩] ∧
      Windowed (Logbook.after twoSlots).arrivals (Logbook.after twoSlots).throughput := by
  have harrivals : (Logbook.after twoSlots).arrivals =
      (List.range 243).map fun i => (⟨i + 1, 10 * i⟩ : Arrival) := by decide +kernel
  refine ⟨by decide +kernel, window_is_latest_slots twoSlots ?_⟩
  rw [harrivals, List.pairwise_map]
  refine List.pairwise_lt_range.imp fun {i j} hij => ?_
  change (10 * (i : Int)) ≤ 10 * j
  omega

end BlockSync.Throughput

import BlockSync.Chain.Header
import BlockSync.Proofs.Number.Checked
import BlockSync.Wire.Message

/-! Reading by positions in a buffer, with the arithmetic on positions checked. Wherever a position
lies in the buffer, reading there has a result, which is that of reading what stands behind it. -/

namespace BlockSync.Wire

/-- A reader at a position of a buffer. There is no result where arithmetic leaves its range. -/
def Cursor (α : Type) := Bytes → Nat → Option (Except Fault α × Nat)

namespace Cursor

variable {α β γ : Type}

protected def pure (a : α) : Cursor α := fun _ pos => some (.ok a, pos)

protected def bind (c : Cursor α) (f : α → Cursor β) : Cursor β := fun data pos =>
  match c data pos with
  | none => none
  | some (.ok a, pos) => f a data pos
  | some (.error fault, pos) => some (.error fault, pos)

instance : Monad Cursor where
  pure := Cursor.pure
  bind := Cursor.bind

def fail (fault : Fault) : Cursor α := fun _ pos => some (.error fault, pos)

def lift : Except Fault α → Cursor α
  | .ok a => pure a
  | .error fault => fail fault

def checked (value? : Option α) : Cursor α := fun _ pos => value?.map fun a => (.ok a, pos)

def remaining : Cursor Nat := fun data pos => do
  let left ← Checked.sub data.length pos
  return (.ok left, pos)

def take (n : Nat) : Cursor Bytes := fun data pos => do
  let left ← Checked.sub data.length pos
  if left < n then return (.error (.endOfInput n left), pos)
  let stop ← Checked.add 64 pos n
  let bytes ← Checked.slice data pos stop
  return (.ok bytes, stop)

def rest : Cursor Bytes := fun data pos => do
  let bytes ← Checked.slice data pos data.length
  return (.ok bytes, data.length)

def times (c : Cursor α) : Nat → Cursor (List α)
  | 0 => pure []
  | n + 1 => do
    let a ← c
    let as ← times c n
    return a :: as

/-- At every position of a buffer that words can address, a cursor has the result of a reader and
comes to a position further on, where what the reader leaves begins. -/
def Follows (c : Cursor α) (r : Reader α) : Prop :=
  ∀ (data : Bytes) (pos : Nat), data.length < 2 ^ 64 → pos ≤ data.length →
    ∃ stop, pos ≤ stop ∧ stop ≤ data.length ∧
      c data pos = some ((r (data.drop pos)).1, stop) ∧ (r (data.drop pos)).2 = data.drop stop

section

variable {c : Cursor α} {r : Reader α} {f : α → Cursor β} {g : α → Reader β}

theorem Follows.pure (a : α) : Follows (Pure.pure a) (Pure.pure a) :=
  fun _ pos _ hpos => ⟨pos, Nat.le_refl pos, hpos, rfl, rfl⟩

theorem Follows.fail (fault : Fault) : Follows (fail fault : Cursor α) (Reader.fail fault) :=
  fun _ pos _ hpos => ⟨pos, Nat.le_refl pos, hpos, rfl, rfl⟩

theorem Follows.lift (result : Except Fault α) : Follows (lift result) (Reader.lift result) := by
  cases result with
  | ok a => exact .pure a
  | error fault => exact .fail fault

theorem Follows.bind (hc : Follows c r) (hf : ∀ a, Follows (f a) (g a)) :
    Follows (c >>= f) (r >>= g) := by
  intro data pos hdata hpos
  obtain ⟨stop, hle, hstop, hresult, hrest⟩ := hc data pos hdata hpos
  change ∃ stop, _ ∧ _ ∧ Cursor.bind c f data pos = some ((Reader.bind r g _).1, stop) ∧
    (Reader.bind r g _).2 = _
  rw [Cursor.bind, hresult, Reader.bind]
  generalize r (data.drop pos) = answer at hrest
  obtain ⟨fault | a, rest⟩ := answer
  · obtain rfl : rest = _ := hrest
    exact ⟨stop, hle, hstop, rfl, rfl⟩
  · obtain rfl : rest = _ := hrest
    obtain ⟨stop', hle', hstop', hresult', hrest'⟩ := hf a data stop hdata hstop
    exact ⟨stop', by omega, hstop', hresult', hrest'⟩

theorem Follows.map (h : α → β) (hc : Follows c r) : Follows (h <$> c) (h <$> r) :=
  hc.bind fun a => .pure (h a)

theorem Follows.checked {a : α} {value? : Option α} {r : Reader β} (h : value? = some a)
    (hf : Follows (f a) r) : Follows (Cursor.checked value? >>= f) r := by
  intro data pos hdata hpos
  subst h
  exact hf data pos hdata hpos

theorem follows_remaining : Follows remaining Reader.remaining := by
  intro data pos _ hpos
  refine ⟨pos, Nat.le_refl pos, hpos, ?_, rfl⟩
  have hleft : Checked.sub data.length pos = some (data.length - pos) := if_pos hpos
  simp only [remaining, hleft, Reader.remaining, List.length_drop]
  rfl

theorem follows_take (n : Nat) : Follows (take n) (Reader.take n) := by
  intro data pos hdata hpos
  have hleft : Checked.sub data.length pos = some (data.length - pos) := if_pos hpos
  by_cases hn : data.length - pos < n
  · refine ⟨pos, Nat.le_refl pos, hpos, ?_, ?_⟩
    · simp [take, hleft, hn, Reader.take]
    · simp [hn, Reader.take]
  · -- The guard leaves room for the end of the slice.
    have hadd : Checked.add 64 pos n = some (pos + n) := if_pos (by omega)
    have hslice : Checked.slice data pos (pos + n) = some ((data.take (pos + n)).drop pos) :=
      if_pos (by omega)
    have htake : (data.take (pos + n)).drop pos = (data.drop pos).take n := by
      rw [List.drop_take, Nat.add_sub_cancel_left]
    refine ⟨pos + n, Nat.le_add_right pos n, by omega, ?_, ?_⟩
    · simp [take, hleft, hn, hadd, hslice, htake, Reader.take]
    · simp [hn, Reader.take]

theorem follows_rest : Follows rest Reader.rest := by
  intro data pos _ hpos
  have hslice : Checked.slice data pos data.length = some (data.drop pos) := by
    rw [Checked.slice, if_pos ⟨hpos, Nat.le_refl _⟩, List.take_length]
  refine ⟨data.length, hpos, Nat.le_refl _, ?_, ?_⟩
  · simp [rest, hslice, Reader.rest]
  · exact List.drop_length.symm

theorem Follows.times (hc : Follows c r) (n : Nat) : Follows (times c n) (Reader.times r n) := by
  induction n with
  | zero => exact .pure []
  | succ n ih => exact .bind hc fun _ => .bind ih fun _ => .pure _

end

end Cursor

open Cursor

class Tracked (α : Type) [Format α] where
  readAt : Cursor α
  follows : Follows readAt (read : Reader α)

export Tracked (readAt)

def readNumberAt (k : Nat) : Cursor Nat := do return ofLittleEndian (← take k)

theorem follows_readNumberAt (k : Nat) : Follows (readNumberAt k) (readNumber k) :=
  (follows_take k).bind fun _ => .pure _

instance : Tracked UInt8 where
  readAt := do return UInt8.ofNat (← readNumberAt 1)
  follows := (follows_readNumberAt 1).bind fun _ => .pure _

instance : Tracked UInt16 where
  readAt := do return UInt16.ofNat (← readNumberAt 2)
  follows := (follows_readNumberAt 2).bind fun _ => .pure _

instance : Tracked UInt32 where
  readAt := do return UInt32.ofNat (← readNumberAt 4)
  follows := (follows_readNumberAt 4).bind fun _ => .pure _

instance : Tracked UInt64 where
  readAt := do return UInt64.ofNat (← readNumberAt 8)
  follows := (follows_readNumberAt 8).bind fun _ => .pure _

instance : Tracked Int16 where
  readAt := do return UInt16.toInt16 (← readAt)
  follows := Tracked.follows.bind fun _ => .pure _

instance : Tracked Int64 where
  readAt := do return UInt64.toInt64 (← readAt)
  follows := Tracked.follows.bind fun _ => .pure _

instance {n : Nat} : Tracked (Octets n) where
  readAt := do lift (Octets.ofBytes (← take n))
  follows := (follows_take n).bind fun _ => .lift _

/-- At most `k` groups of seven bits, each at its place in a word. -/
def readGroupsAt : Nat → Nat → Nat → Cursor Nat
  | 0, _, _ => fail .lengthOverflow
  | k + 1, shift, value => do
    let b : UInt8 ← readAt
    let part ← checked (Checked.shiftLeft 64 (b.toNat % 128) shift)
    if b < 128 then return value ||| part
    let shift ← checked (Checked.add 32 shift 7)
    readGroupsAt k shift (value ||| part)

theorem Reader.map_bind {α β γ : Type} (h : β → γ) (r : Reader α) (g : α → Reader β) :
    h <$> (r >>= g) = r >>= fun a => h <$> g a := by
  funext input
  change Reader.bind (Reader.bind r g) _ input = Reader.bind r (fun a => Reader.bind (g a) _) input
  simp only [Reader.bind]
  rcases r input with ⟨fault | a, rest⟩ <;> rfl

/-- The groups before have values below the place of the next one, so that no place is taken
twice, and the place of the last one is in a word. -/
theorem follows_readGroupsAt {k shift value : Nat} (hk : shift + 7 * k ≤ 35)
    (hvalue : value < 2 ^ shift) :
    Follows (readGroupsAt k shift value) ((fun n => value + 2 ^ shift * n) <$> readGroups k) := by
  induction k generalizing shift value with
  | zero => exact .fail _
  | succ k ih =>
    rw [readGroupsAt, readGroups, Reader.map_bind]
    refine .bind Tracked.follows fun b => ?_
    have hlow : b.toNat % 128 < 128 := Nat.mod_lt _ (by decide)
    have hshift : 2 ^ shift ≤ 2 ^ 35 := Nat.pow_le_pow_right (by decide) (by omega)
    have hpart : Checked.shiftLeft 64 (b.toNat % 128) shift = some (b.toNat % 128 * 2 ^ shift) := by
      refine Checked.shiftLeft_of_lt (by omega) ?_
      calc b.toNat % 128 * 2 ^ shift ≤ 128 * 2 ^ 35 := Nat.mul_le_mul (by omega) hshift
        _ < 2 ^ 64 := by decide
    have hor : value ||| b.toNat % 128 * 2 ^ shift = value + 2 ^ shift * (b.toNat % 128) := by
      rw [Nat.or_comm, Nat.mul_comm, ← Nat.two_pow_add_eq_or_of_lt hvalue, Nat.add_comm]
    have hadd : Checked.add 32 shift 7 = some (shift + 7) := if_pos (by omega)
    refine .checked hpart ?_
    rw [hor]
    split
    · next hb =>
      have hb' : b.toNat % 128 = b.toNat := Nat.mod_eq_of_lt (UInt8.lt_iff_toNat_lt.mp hb)
      rw [hb']
      exact .pure _
    · refine .checked hadd ?_
      have hnext : value + 2 ^ shift * (b.toNat % 128) < 2 ^ (shift + 7) := by
        have hplace := Nat.mul_le_mul_left (2 ^ shift) (show b.toNat % 128 + 1 ≤ 128 by omega)
        rw [Nat.mul_add, Nat.mul_one] at hplace
        rw [Nat.pow_add]
        omega
      have hvalue' (n : Nat) : value + 2 ^ shift * (b.toNat % 128) + 2 ^ (shift + 7) * n =
          value + 2 ^ shift * (b.toNat % 128 + 128 * n) := by
        rw [Nat.pow_add, Nat.mul_add, Nat.mul_assoc, Nat.add_assoc]
      have hrest := ih (by omega) hnext
      simp only [hvalue'] at hrest
      rw [Reader.map_bind]
      exact hrest

theorem follows_readGroups : Follows (readGroupsAt 5 0 0) (readGroups 5) := by
  have h : Follows (readGroupsAt 5 0 0) ((fun n => 0 + 2 ^ 0 * n) <$> readGroups 5) :=
    follows_readGroupsAt (by decide) (by decide)
  have hid : ((fun n => 0 + 2 ^ 0 * n) <$> readGroups 5 : Reader Nat) = readGroups 5 := by
    funext input
    change Reader.bind (readGroups 5) _ input = readGroups 5 input
    unfold Reader.bind
    rcases readGroups 5 input with ⟨fault | n, rest⟩
    · rfl
    · change (Except.ok (0 + 2 ^ 0 * n), rest) = (Except.ok n, rest)
      rw [Nat.zero_add, Nat.pow_zero, Nat.one_mul]
  rwa [hid] at h

def readLengthAt : Cursor UInt32 := do
  let n ← readGroupsAt 5 0 0
  if n < UInt32.size then return UInt32.ofNat n
  fail .lengthOverflow

theorem follows_readLength : Follows readLengthAt readLength := by
  refine follows_readGroups.bind fun n => ?_
  split
  · exact .pure _
  · exact .fail _

def readCountedAt : Cursor Bytes := do
  let n ← readLengthAt
  take n.toNat

theorem follows_readCounted : Follows readCountedAt readCounted :=
  follows_readLength.bind fun _ => follows_take _

instance : Tracked String where
  readAt := do
    let bytes ← readCountedAt
    lift ((Text.ofUtf8 bytes).mapError Fault.text)
  follows := follows_readCounted.bind fun _ => .lift _

instance {α : Type} [Format α] [Tracked α] : Tracked (List α) where
  readAt := do
    let n ← readLengthAt
    let left ← remaining
    if left < n.toNat then fail (.endOfInput n.toNat left)
    times readAt n.toNat
  follows := by
    refine follows_readLength.bind fun n => follows_remaining.bind fun left => ?_
    split
    · exact .bind (.fail _) fun _ => Tracked.follows.times _
    · exact Tracked.follows.times _

instance {α : Type} [Format α] [Tracked α] : Tracked (Option α) where
  readAt := do
    let present : UInt8 ← readAt
    if present = 0 then return none
    return some (← readAt)
  follows := by
    refine Tracked.follows.bind fun present => ?_
    split
    · exact .pure none
    · exact Tracked.follows.map some

end BlockSync.Wire

namespace BlockSync

open Wire (Tracked Cursor readAt readCountedAt)
open Wire.Cursor (Follows lift)

instance : Tracked Handshake where
  readAt := do
    let networkVersion ← readAt
    let chainId ← readAt
    let nodeId ← readAt
    let key ← readAt
    let time ← readAt
    let token ← readAt
    let sig ← readAt
    let p2pAddress ← readAt
    let libNum ← readAt
    let libId ← readAt
    let headNum ← readAt
    let headId ← readAt
    let os ← readAt
    let agent ← readAt
    let generation ← readAt
    return {
      networkVersion, chainId, nodeId, key, time, token, sig, p2pAddress, libNum, libId, headNum,
      headId, os, agent, generation }
  follows := by
    iterate 15 refine .bind Tracked.follows fun _ => ?_
    exact .pure _

instance : Tracked ChainSize where
  readAt := do
    let libNum ← readAt
    let libId ← readAt
    let headNum ← readAt
    let headId ← readAt
    return { libNum, libId, headNum, headId }
  follows := by
    iterate 4 refine .bind Tracked.follows fun _ => ?_
    exact .pure _

instance : Tracked GoAwayReason where
  readAt := do lift (GoAwayReason.ofCode (← readAt))
  follows := .bind Tracked.follows fun _ => .lift _

instance : Tracked GoAway where
  readAt := do
    let reason ← readAt
    let nodeId ← readAt
    return { reason, nodeId }
  follows := .bind Tracked.follows fun _ => .bind Tracked.follows fun _ => .pure _

instance : Tracked TimeStamps where
  readAt := do
    let origin ← readAt
    let receive ← readAt
    let transmit ← readAt
    let destination ← readAt
    return { origin, receive, transmit, destination }
  follows := by
    iterate 4 refine .bind Tracked.follows fun _ => ?_
    exact .pure _

instance : Tracked IdListMode where
  readAt := do lift (IdListMode.ofCode (← readAt))
  follows := .bind Tracked.follows fun _ => .lift _

instance : Tracked IdList where
  readAt := do
    let mode ← readAt
    let pending ← readAt
    let ids ← readAt
    return { mode, pending, ids }
  follows := by
    iterate 3 refine .bind Tracked.follows fun _ => ?_
    exact .pure _

instance : Tracked Notice where
  readAt := do
    let transactions ← readAt
    let blocks ← readAt
    return { transactions, blocks }
  follows := .bind Tracked.follows fun _ => .bind Tracked.follows fun _ => .pure _

instance : Tracked Request where
  readAt := do
    let transactions ← readAt
    let blocks ← readAt
    return { transactions, blocks }
  follows := .bind Tracked.follows fun _ => .bind Tracked.follows fun _ => .pure _

instance : Tracked BlockRange where
  readAt := do
    let first : UInt32 ← readAt
    let last : UInt32 ← readAt
    lift (BlockRange.of first last)
  follows := .bind Tracked.follows fun _ => .bind Tracked.follows fun _ => .lift _

instance : Tracked ProducerKey where
  readAt := do
    let name ← readAt
    let key ← readAt
    return { name, key }
  follows := .bind Tracked.follows fun _ => .bind Tracked.follows fun _ => .pure _

instance : Tracked ProducerSchedule where
  readAt := do
    let version ← readAt
    let producers ← readAt
    return { version, producers }
  follows := .bind Tracked.follows fun _ => .bind Tracked.follows fun _ => .pure _

instance : Tracked HeaderExtension where
  readAt := do
    let id ← readAt
    let data ← readCountedAt
    return { id, data }
  follows := .bind Tracked.follows fun _ => .bind Wire.follows_readCounted fun _ => .pure _

instance : Tracked Header where
  readAt := do
    let slot ← readAt
    let producer ← readAt
    let confirmed ← readAt
    let previous ← readAt
    let transactionRoot ← readAt
    let actionRoot ← readAt
    let scheduleVersion ← readAt
    let newProducers ← readAt
    let extensions ← readAt
    return {
      slot, producer, confirmed, previous, transactionRoot, actionRoot, scheduleVersion,
      newProducers, extensions }
  follows := by
    iterate 9 refine .bind Tracked.follows fun _ => ?_
    exact .pure _

/-- What is read from the beginning of a buffer. -/
def Wire.Cursor.value {α : Type} (c : Cursor α) (data : Bytes) : Option (Except Wire.Fault α) :=
  (c data 0).map (·.1)

theorem Wire.Cursor.Follows.value {α : Type} {c : Cursor α} {r : Wire.Reader α}
    (h : Follows c r) {data : Bytes} (hdata : data.length < 2 ^ 64) :
    c.value data = some (r.value data) := by
  obtain ⟨stop, -, -, hresult, -⟩ := h data 0 hdata (Nat.zero_le _)
  rw [Wire.Cursor.value, hresult]
  rfl

namespace Message

def readerAt : MessageKind → Cursor Message
  | .handshake => handshake <$> readAt
  | .chainSize => chainSize <$> readAt
  | .goAway => goAway <$> readAt
  | .time => time <$> readAt
  | .notice => notice <$> readAt
  | .request => request <$> readAt
  | .syncRequest => syncRequest <$> readAt
  | .signedBlock => signedBlock <$> Wire.Cursor.rest
  | .transaction => transaction <$> Wire.Cursor.rest

theorem follows_readerAt (kind : MessageKind) : Follows (readerAt kind) (reader kind) := by
  cases kind with
  | signedBlock | transaction => exact .map _ Wire.Cursor.follows_rest
  | _ => exact .map _ Tracked.follows

def ofPayloadAt (tag : UInt8) (payload : Bytes) : Option (Except Wire.Fault Message) :=
  match MessageKind.ofTag tag with
  | .ok kind => (readerAt kind).value payload
  | .error fault => some (.error fault)

theorem ofPayloadAt_eq (tag : UInt8) {payload : Bytes} (h : payload.length < 2 ^ 64) :
    ofPayloadAt tag payload = some (ofPayload tag payload) := by
  unfold ofPayloadAt ofPayload
  cases MessageKind.ofTag tag with
  | ok kind => exact (follows_readerAt kind).value h
  | error fault => rfl

end Message

def Header.ofBlockAt (raw : Bytes) : Option (Except Wire.Fault Header) :=
  (readAt : Cursor Header).value raw

theorem Header.ofBlockAt_eq {raw : Bytes} (h : raw.length < 2 ^ 64) :
    ofBlockAt raw = some (ofBlock raw) := Tracked.follows.value h

end BlockSync

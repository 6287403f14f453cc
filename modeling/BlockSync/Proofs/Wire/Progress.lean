import BlockSync.Proofs.Wire.Cursor
import BlockSync.Proofs.Wire.Spelling

/-! Readings one after the other, some of which may fail. Whatever is read next, and whatever was
wrong before, a reader takes octets off the front of what is left, and when it says that there are
too few of them it says how many there are. -/

namespace BlockSync.Wire

variable {α β : Type}

structure Proper (input : Bytes) (answer : Except Fault α × Bytes) : Prop where
  suffix : answer.2 <:+ input
  short : ∀ needed left, answer.1 = .error (.endOfInput needed left) →
    left = answer.2.length ∧ left < needed

def Steady (r : Reader α) : Prop := ∀ input, Proper input (r input)

namespace Steady

variable {r : Reader α} {f : α → Reader β}

theorem pure (a : α) : Steady (Pure.pure a) := by
  intro input
  exact ⟨List.suffix_rfl, fun _ _ h => by cases h⟩

theorem lift {x : Except Fault α} (h : ∀ needed left, x ≠ .error (.endOfInput needed left)) :
    Steady (Reader.lift x) := by
  intro input
  cases x with
  | ok a => exact pure a input
  | error fault => exact ⟨List.suffix_rfl, fun needed left heq => absurd heq (h needed left)⟩

theorem bind (hr : Steady r) (hf : ∀ a, Steady (f a)) : Steady (r >>= f) := by
  intro input
  have hproper := hr input
  rcases hread : r input with ⟨fault | a, rest⟩
  · rw [Reader.bind_of_error hread]
    rw [hread] at hproper
    exact ⟨hproper.suffix, fun needed left heq => hproper.short needed left (by cases heq; rfl)⟩
  · rw [Reader.bind_of_ok hread]
    rw [hread] at hproper
    exact ⟨(hf a rest).suffix.trans hproper.suffix, (hf a rest).short⟩

theorem map (g : α → β) (hr : Steady r) : Steady (g <$> r) := hr.bind fun a => pure (g a)

theorem take (n : Nat) : Steady (Reader.take n) := by
  intro input
  rw [Reader.take]
  split
  · next hshort =>
    refine ⟨List.suffix_rfl, ?_⟩
    intro needed left heq
    cases heq
    exact ⟨rfl, hshort⟩
  · exact ⟨List.drop_suffix n input, fun _ _ h => by cases h⟩

theorem rest : Steady Reader.rest := by
  intro input
  exact ⟨List.nil_suffix, fun _ _ h => by cases h⟩

theorem times (hr : Steady r) (n : Nat) : Steady (Reader.times r n) := by
  induction n with
  | zero => exact pure []
  | succ n ih => exact hr.bind fun a => ih.bind fun as => pure (a :: as)

theorem counted {n : Nat} (hr : Steady r) :
    Steady (do
      let left ← Reader.remaining
      if left < n then Reader.fail (.endOfInput n left)
      r) := by
  intro input
  have hleft : Reader.remaining input = (.ok input.length, input) := rfl
  rw [Reader.bind_of_ok hleft]
  by_cases hcount : input.length < n
  · rw [if_pos hcount]
    refine ⟨List.suffix_rfl, ?_⟩
    intro needed left heq
    cases heq
    exact ⟨rfl, hcount⟩
  · rw [if_neg hcount]
    exact hr input

end Steady

/-- A reader that leaves everything where it fails. -/
def Still (r : Reader α) : Prop :=
  ∀ input fault rest, r input = (.error fault, rest) → rest = input

theorem still_take (n : Nat) : Still (Reader.take n) := by
  intro input fault rest h
  unfold Reader.take at h
  split at h <;> cases h
  rfl

theorem Still.map {r : Reader α} (hr : Still r) (g : α → β) :
    Still (r >>= fun a => pure (g a)) := by
  intro input fault rest h
  rcases hread : r input with ⟨fault' | a, mid⟩
  · rw [Reader.bind_of_error hread] at h
    cases h
    exact hr _ _ _ hread
  · rw [Reader.bind_of_ok hread] at h
    cases h

theorem still_readNumber (k : Nat) : Still (readNumber k) := (still_take k).map _

theorem still_octets (n : Nat) : Still (read : Reader (Octets n)) := by
  intro input fault rest h
  rcases htake : Reader.take n input with ⟨fault' | bytes, mid⟩
  · have hread : (read : Reader (Octets n)) input = (.error fault', mid) :=
      Reader.bind_of_error htake
    rw [hread] at h
    cases h
    exact still_take n _ _ _ htake
  · have hread : (read : Reader (Octets n)) input = Reader.lift (Octets.ofBytes bytes) mid :=
      Reader.bind_of_ok htake
    rw [hread, Octets.ofBytes, dif_pos (of_take_ok htake).1] at h
    cases h

class SteadyFormat (α : Type) [Format α] : Prop where
  steady : Steady (read : Reader α)

open SteadyFormat (steady)

theorem steady_readNumber (k : Nat) : Steady (readNumber k) := .map _ (.take k)

instance : SteadyFormat UInt8 := ⟨.map _ (steady_readNumber 1)⟩

instance : SteadyFormat UInt16 := ⟨.map _ (steady_readNumber 2)⟩

instance : SteadyFormat UInt32 := ⟨.map _ (steady_readNumber 4)⟩

instance : SteadyFormat UInt64 := ⟨.map _ (steady_readNumber 8)⟩

instance : SteadyFormat Int16 := ⟨.map _ steady⟩

instance : SteadyFormat Int64 := ⟨.map _ steady⟩

theorem ofBytes_not_short {n : Nat} (bytes : Bytes) (needed left : Nat) :
    Octets.ofBytes (n := n) bytes ≠ .error (.endOfInput needed left) := by
  unfold Octets.ofBytes
  split <;> simp

instance {n : Nat} : SteadyFormat (Octets n) :=
  ⟨.bind (.take n) fun bytes => .lift (ofBytes_not_short bytes)⟩

theorem steady_fail {fault : Fault} (h : ∀ needed left, fault ≠ .endOfInput needed left) :
    Steady (Reader.fail fault : Reader α) :=
  .lift (x := .error fault) fun needed left heq => h needed left (by cases heq; rfl)

theorem steady_readGroups (k : Nat) : Steady (readGroups k) := by
  induction k with
  | zero => exact steady_fail (by simp)
  | succ k ih =>
    refine .bind steady fun b => ?_
    split
    · exact .pure _
    · exact .map _ ih

theorem steady_readLength : Steady readLength := by
  refine .bind (steady_readGroups 5) fun n => ?_
  split
  · exact .pure _
  · exact steady_fail (by simp)

theorem steady_readCounted : Steady readCounted := .bind steady_readLength fun n => .take n.toNat

instance : SteadyFormat String := by
  refine ⟨.bind steady_readCounted fun bytes => .lift fun needed left h => ?_⟩
  cases htext : Text.ofUtf8 bytes <;> rw [htext] at h <;> cases h

instance [Format α] [SteadyFormat α] : SteadyFormat (List α) :=
  ⟨.bind steady_readLength fun n => .counted (.times steady n.toNat)⟩

instance [Format α] [SteadyFormat α] : SteadyFormat (Option α) := by
  refine ⟨.bind steady fun present => ?_⟩
  split
  · exact .pure none
  · exact .map some steady

end BlockSync.Wire

namespace BlockSync

open Wire
open Wire.SteadyFormat (steady)

instance : SteadyFormat Handshake := by
  constructor
  iterate 15 refine .bind steady fun _ => ?_
  exact .pure _

instance : SteadyFormat ChainSize := by
  constructor
  iterate 4 refine .bind steady fun _ => ?_
  exact .pure _

instance : SteadyFormat GoAwayReason := by
  refine ⟨.bind steady fun value => .lift fun needed left h => ?_⟩
  unfold GoAwayReason.ofCode at h
  split at h <;> cases h

instance : SteadyFormat GoAway := ⟨.bind steady fun _ => .bind steady fun _ => .pure _⟩

instance : SteadyFormat TimeStamps := by
  constructor
  iterate 4 refine .bind steady fun _ => ?_
  exact .pure _

instance : SteadyFormat IdListMode := by
  refine ⟨.bind steady fun value => .lift fun needed left h => ?_⟩
  unfold IdListMode.ofCode at h
  split at h <;> cases h

instance : SteadyFormat IdList := by
  constructor
  iterate 3 refine .bind steady fun _ => ?_
  exact .pure _

instance : SteadyFormat Notice := ⟨.bind steady fun _ => .bind steady fun _ => .pure _⟩

instance : SteadyFormat Request := ⟨.bind steady fun _ => .bind steady fun _ => .pure _⟩

instance : SteadyFormat BlockRange := by
  refine ⟨.bind steady fun first => .bind steady fun last => .lift fun needed left h => ?_⟩
  unfold BlockRange.of at h
  split at h <;> cases h

instance : SteadyFormat ProducerKey := ⟨.bind steady fun _ => .bind steady fun _ => .pure _⟩

instance : SteadyFormat ProducerSchedule := ⟨.bind steady fun _ => .bind steady fun _ => .pure _⟩

instance : SteadyFormat HeaderExtension :=
  ⟨.bind steady fun _ => .bind steady_readCounted fun _ => .pure _⟩

instance : SteadyFormat Header := by
  constructor
  iterate 9 refine .bind steady fun _ => ?_
  exact .pure _

namespace Wire

structure Codec where
  Value : Type
  [format : Format Value]
  [tracked : Tracked Value]
  [steadyFormat : SteadyFormat Value]

attribute [instance] Codec.format Codec.tracked Codec.steadyFormat

inductive Shape where
  | uint8
  | uint16
  | uint32
  | uint64
  | int16
  | int64
  | string
  | checksum
  | publicKey
  | signature
  | list (element : Shape)
  | option (value : Shape)
  | producerKey
  | producerSchedule
  | headerExtension
  | header
  | handshake
  | chainSize
  | goAway
  | timeStamps
  | idList
  | notice
  | request
  | blockRange
  deriving DecidableEq

def Shape.codec : Shape → Codec
  | uint8 => ⟨UInt8⟩
  | uint16 => ⟨UInt16⟩
  | uint32 => ⟨UInt32⟩
  | uint64 => ⟨UInt64⟩
  | int16 => ⟨Int16⟩
  | int64 => ⟨Int64⟩
  | string => ⟨String⟩
  | checksum => ⟨Checksum⟩
  | publicKey => ⟨PublicKey⟩
  | signature => ⟨Signature⟩
  | list element => ⟨List element.codec.Value⟩
  | option value => ⟨Option value.codec.Value⟩
  | producerKey => ⟨ProducerKey⟩
  | producerSchedule => ⟨ProducerSchedule⟩
  | headerExtension => ⟨HeaderExtension⟩
  | header => ⟨Header⟩
  | handshake => ⟨Handshake⟩
  | chainSize => ⟨ChainSize⟩
  | goAway => ⟨GoAway⟩
  | timeStamps => ⟨TimeStamps⟩
  | idList => ⟨IdList⟩
  | notice => ⟨Notice⟩
  | request => ⟨Request⟩
  | blockRange => ⟨BlockRange⟩

/-- What a buffer may be asked for. -/
inductive Wanted where
  | value (shape : Shape)
  | length
  | octets (n : Nat)
  | counted
  | rest
  deriving DecidableEq

namespace Wanted

def Value : Wanted → Type
  | value shape => shape.codec.Value
  | length => UInt32
  | octets _ | counted | rest => Bytes

def reader : (w : Wanted) → Reader w.Value
  | value shape => (read : Reader shape.codec.Value)
  | length => readLength
  | octets n => Reader.take n
  | counted => readCounted
  | rest => Reader.rest

def cursor : (w : Wanted) → Cursor w.Value
  | value shape => (readAt : Cursor shape.codec.Value)
  | length => readLengthAt
  | octets n => Cursor.take n
  | counted => readCountedAt
  | rest => Cursor.rest

def isFixed : Wanted → Bool
  | octets _ => true
  | value .uint8 | value .uint16 | value .uint32 | value .uint64 | value .int16 | value .int64 => true
  | value .checksum | value .publicKey | value .signature => true
  | _ => false

theorem steady_reader (w : Wanted) : Steady w.reader := by
  cases w with
  | value shape => exact shape.codec.steadyFormat.steady
  | length => exact steady_readLength
  | octets n => exact .take n
  | counted => exact steady_readCounted
  | rest => exact .rest

theorem follows_cursor (w : Wanted) : Cursor.Follows w.cursor w.reader := by
  cases w with
  | value shape => exact shape.codec.tracked.follows
  | length => exact follows_readLength
  | octets n => exact Cursor.follows_take n
  | counted => exact follows_readCounted
  | rest => exact Cursor.follows_rest

theorem still_reader {w : Wanted} (h : w.isFixed = true) : Still w.reader := by
  cases w with
  | octets n => exact still_take n
  | value shape =>
    cases shape with
    | uint8 => exact (still_readNumber 1).map _
    | uint16 => exact (still_readNumber 2).map _
    | uint32 => exact (still_readNumber 4).map _
    | uint64 => exact (still_readNumber 8).map _
    | int16 => exact ((still_readNumber 2).map _).map _
    | int64 => exact ((still_readNumber 8).map _).map _
    | checksum => exact still_octets 32
    | publicKey => exact still_octets 34
    | signature => exact still_octets 66
    | _ => cases h
  | _ => cases h

end Wanted

/-- One reading: from where to where, what came of it, and what it left. -/
structure Step (w : Wanted) where
  start : Nat
  result : Except Fault w.Value
  stop : Nat
  rest : Bytes

def Wanted.step (w : Wanted) (start : Nat) (input : Bytes) : Step w where
  start
  result := (w.reader input).1
  stop := start + (input.length - (w.reader input).2.length)
  rest := (w.reader input).2

/-- Readings one after the other. Each takes over where the one before stopped, also when that one
failed. -/
def steps : Nat → Bytes → List Wanted → List (Σ w, Step w)
  | _, _, [] => []
  | start, input, w :: ws =>
    ⟨w, w.step start input⟩ :: steps (w.step start input).stop (w.step start input).rest ws

/-- A reading keeps to the buffer and tells the truth about what is left of it. -/
structure Step.Sound {w : Wanted} (data : Bytes) (s : Step w) : Prop where
  forward : s.start ≤ s.stop
  within : s.stop ≤ data.length
  behind : s.rest = data.drop s.stop
  balanced : s.stop + s.rest.length = data.length
  short : ∀ needed left, s.result = .error (.endOfInput needed left) →
    left = s.rest.length ∧ left < needed
  still : w.isFixed = true → ∀ fault, s.result = .error fault → s.stop = s.start
  /-- Positions and their arithmetic come to the same. -/
  placed : data.length < 2 ^ 64 → w.cursor data s.start = some (s.result, s.stop)

section

variable {data : Bytes} {start : Nat} {ws : List Wanted}

theorem Wanted.sound_step (w : Wanted) (hstart : start ≤ data.length) :
    (w.step start (data.drop start)).Sound data := by
  obtain ⟨hsuffix, hshort⟩ := w.steady_reader (data.drop start)
  rcases hanswer : w.reader (data.drop start) with ⟨result, rest⟩
  rw [hanswer] at hsuffix hshort
  have hle : rest.length ≤ (data.drop start).length := hsuffix.length_le
  have hinput : (data.drop start).length = data.length - start := List.length_drop
  obtain ⟨stop, hstop⟩ : ∃ stop, stop = start + ((data.drop start).length - rest.length) :=
    ⟨_, rfl⟩
  have hstep : w.step start (data.drop start) = ⟨start, result, stop, rest⟩ := by
    rw [Wanted.step, hanswer, hstop]
  have hbehind : rest = data.drop stop := by
    rw [hstop, ← List.drop_drop]
    exact List.suffix_iff_eq_drop.mp hsuffix
  rw [hstep]
  refine ⟨?_, ?_, hbehind, ?_, hshort, ?_, ?_⟩
  · exact hstop ▸ Nat.le_add_right _ _
  · change stop ≤ data.length
    omega
  · change stop + rest.length = data.length
    omega
  · rintro hfixed fault rfl
    have hrest := w.still_reader hfixed _ _ _ hanswer
    change stop = start
    rw [hstop, hrest, Nat.sub_self, Nat.add_zero]
  · intro hdata
    obtain ⟨stop', -, hwithin, hcursor, hrest⟩ := w.follows_cursor data start hdata hstart
    rw [hanswer] at hcursor hrest
    -- Both positions lie in the buffer, and as much stands behind the one as behind the other.
    have hlength : rest.length = data.length - stop' :=
      (congrArg List.length hrest).trans List.length_drop
    have hsame : stop' = stop := by omega
    exact hsame ▸ hcursor

theorem exists_of_mem_steps {w : Wanted} {s : Step w} (hstart : start ≤ data.length)
    (h : ⟨w, s⟩ ∈ steps start (data.drop start) ws) :
    ∃ pos, start ≤ pos ∧ pos ≤ data.length ∧ s = w.step pos (data.drop pos) := by
  induction ws generalizing start with
  | nil => cases h
  | cons v ws ih =>
    rcases List.mem_cons.mp h with heq | htail
    · cases heq
      exact ⟨start, Nat.le_refl start, hstart, rfl⟩
    · have hsound := v.sound_step hstart
      rw [hsound.behind] at htail
      obtain ⟨pos, hle, hpos, hs⟩ := ih hsound.within htail
      exact ⟨pos, Nat.le_trans hsound.forward hle, hpos, hs⟩

theorem pairwise_steps (hstart : start ≤ data.length) :
    (steps start (data.drop start) ws).Pairwise fun s t => s.2.stop ≤ t.2.start := by
  induction ws generalizing start with
  | nil => exact .nil
  | cons w ws ih =>
    have hsound := w.sound_step hstart
    rw [steps, hsound.behind]
    refine .cons ?_ (ih hsound.within)
    rintro ⟨v, t⟩ ht
    obtain ⟨pos, hle, -, rfl⟩ := exists_of_mem_steps hsound.within ht
    exact hle

theorem fst_steps (start : Nat) (input : Bytes) (ws : List Wanted) :
    (steps start input ws).map Sigma.fst = ws := by
  induction ws generalizing start input with
  | nil => rfl
  | cons w ws ih => rw [steps, List.map_cons, ih]

theorem octets_of_step {n pos : Nat} {bytes : Bytes}
    (h : ((Wanted.octets n).step pos (data.drop pos)).result = .ok bytes) :
    bytes = (data.take ((Wanted.octets n).step pos (data.drop pos)).stop).drop pos := by
  obtain ⟨rest, htake⟩ : ∃ rest, Reader.take n (data.drop pos) = (.ok bytes, rest) :=
    ⟨_, Prod.ext h rfl⟩
  have hsplit := (of_take_ok htake).2
  have hstop : ((Wanted.octets n).step pos (data.drop pos)).stop = pos + bytes.length := by
    change pos + ((data.drop pos).length - (Reader.take n (data.drop pos)).2.length) = _
    rw [htake, hsplit, List.length_append, Nat.add_sub_cancel]
  rw [hstop, List.drop_take, Nat.add_sub_cancel_left, hsplit, List.take_left]

end

/-- In all readings from a buffer, whatever is wanted and whatever has failed, the position goes
forward within the buffer, and octets that are wanted as they are stand between two positions. -/
theorem readings_stay_in_buffer (data : Bytes) (ws : List Wanted) :
    (steps 0 data ws).map Sigma.fst = ws ∧
    (∀ w (s : Step w), ⟨w, s⟩ ∈ steps 0 data ws → s.Sound data) ∧
    ((steps 0 data ws).Pairwise fun s t => s.2.stop ≤ t.2.start) ∧
    ∀ n (s : Step (.octets n)) bytes, ⟨.octets n, s⟩ ∈ steps 0 data ws → s.result = .ok bytes →
      bytes = (data.take s.stop).drop s.start := by
  have hstart : 0 ≤ data.length := Nat.zero_le _
  refine ⟨fst_steps 0 data ws, ?_, pairwise_steps hstart, ?_⟩
  · intro w s hs
    obtain ⟨pos, -, hpos, rfl⟩ := exists_of_mem_steps hstart hs
    exact w.sound_step hpos
  · intro n s bytes hs hbytes
    obtain ⟨pos, -, hpos, rfl⟩ := exists_of_mem_steps hstart hs
    exact octets_of_step hbytes

/-- A text that breaks off behind its count. -/
def brokenText : Step (.value .string) := ⟨0, .error (.endOfInput 5 2), 1, [0x61, 0x62]⟩

/-- An octet behind it. -/
def nextOctet : Step (.octets 1) := ⟨1, .ok [0x61], 2, [0x62]⟩

theorem steps_brokenText :
    steps 0 [5, 0x61, 0x62] [.value .string, .octets (2 ^ 64 - 1), .octets 1, .value .uint16] =
      [⟨_, brokenText⟩,
       ⟨.octets (2 ^ 64 - 1), 1, .error (.endOfInput (2 ^ 64 - 1) 2), 1, [0x61, 0x62]⟩,
       ⟨_, nextOctet⟩,
       ⟨.value .uint16, 2, .error (.endOfInput 2 1), 2, [0x62]⟩] := rfl

theorem readings_stay_in_buffer_of_brokenText :
    brokenText.Sound [5, 0x61, 0x62] ∧
    nextOctet.result = .ok [0x61] ∧
    ([0x61] : Bytes) = (([5, 0x61, 0x62] : Bytes).take nextOctet.stop).drop nextOctet.start := by
  obtain ⟨-, hsound, -, hoctets⟩ := readings_stay_in_buffer [5, 0x61, 0x62]
    [.value .string, .octets (2 ^ 64 - 1), .octets 1, .value .uint16]
  rw [steps_brokenText] at hsound hoctets
  refine ⟨?_, rfl, ?_⟩
  · exact hsound _ brokenText (by simp)
  · exact hoctets 1 nextOctet [0x61] (by simp) rfl

end Wire

end BlockSync

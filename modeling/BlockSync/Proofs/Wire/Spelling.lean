import BlockSync.Proofs.Wire.Splitting
import Mathlib.Data.List.Forall2

/-! In how many ways a value is spelled. What a reader takes for a value falls into parts. A length
may be padded with groups that add nothing, the octet before an optional value may be any but zero,
and everything else is spelled in one way. -/

namespace BlockSync.Wire

variable {α β : Type}

/-- What stands at a place of an encoding, as the value tells it. -/
inductive Cell where
  | plain (octets : Bytes)
  | length (n : UInt32)
  /-- Whether an optional value follows. -/
  | presence (present : Bool)

namespace Cell

def octets : Cell → Bytes
  | plain octets => octets
  | length n => writeLength n
  | presence present => [if present then 1 else 0]

/-- Which octets a reader takes for a cell. -/
def Spells : Cell → Bytes → Prop
  | plain octets, part => part = octets
  | length n, part => readLength part = (.ok n, [])
  | presence present, part => ∃ b : UInt8, part = [b] ∧ (present ↔ b ≠ 0)

def Canonical : Cell → Bytes → Prop
  | plain _, _ => True
  | length n, part => ∀ other, (length n).Spells other → part.length ≤ other.length
  | presence _, part => part = [0] ∨ part = [1]

def presence? : Cell → Option Bool
  | presence present => some present
  | _ => none

end Cell

theorem Reader.of_bind_ok {r : Reader α} {f : α → Reader β} {input rest : Bytes} {b : β}
    (h : (r >>= f) input = (.ok b, rest)) :
    ∃ a mid, r input = (.ok a, mid) ∧ f a mid = (.ok b, rest) := by
  change Reader.bind r f input = _ at h
  unfold Reader.bind at h
  split at h
  · next a mid hr => exact ⟨a, mid, hr, h⟩
  · cases h

theorem of_take_ok {n : Nat} {input bytes rest : Bytes}
    (h : Reader.take n input = (.ok bytes, rest)) : bytes.length = n ∧ input = bytes ++ rest := by
  unfold Reader.take at h
  split at h
  · cases h
  · next hlength =>
    cases h
    constructor
    · rw [List.length_take]
      omega
    · exact (List.take_append_drop n input).symm

theorem of_readNumber_ok {k n : Nat} {input rest : Bytes}
    (h : readNumber k input = (.ok n, rest)) : n < 256 ^ k ∧ input = littleEndian k n ++ rest := by
  obtain ⟨bytes, mid, htake, hpure⟩ := Reader.of_bind_ok h
  obtain ⟨hlength, rfl⟩ := of_take_ok htake
  cases hpure
  rw [← hlength, littleEndian_ofLittleEndian]
  exact ⟨ofLittleEndian_lt bytes, rfl⟩

theorem of_read_uint8_ok {b : UInt8} {input rest : Bytes} (h : read input = (.ok b, rest)) :
    input = b :: rest := by
  obtain ⟨n, mid, hn, hpure⟩ := Reader.of_bind_ok h
  obtain ⟨hlt, rfl⟩ := of_readNumber_ok hn
  cases hpure
  rw [← List.singleton_append, ← write_uint8]
  change _ = littleEndian 1 _ ++ _
  rw [UInt8.toNat_ofNat', Nat.mod_eq_of_lt (by omega)]

theorem of_readGroups_ok {k n : Nat} {input rest : Bytes} (h : readGroups k input = (.ok n, rest)) :
    ∃ part, input = part ++ rest ∧ ∀ more, readGroups k (part ++ more) = (.ok n, more) := by
  induction k generalizing input n with
  | zero => cases h
  | succ k ih =>
    obtain ⟨b, mid, hb, hmid⟩ := Reader.of_bind_ok h
    obtain rfl := of_read_uint8_ok hb
    -- A group below 128 is the last one; any other has a group behind it.
    by_cases hlast : b < 128
    · rw [if_pos hlast] at hmid
      cases hmid
      refine ⟨[b], rfl, ?_⟩
      intro more
      exact (read_uint8_bind b _ more).trans (by rw [if_pos hlast]; rfl)
    · rw [if_neg hlast] at hmid
      obtain ⟨high, mid', hhigh, hpure⟩ := Reader.of_bind_ok hmid
      cases hpure
      obtain ⟨part, rfl, hpart⟩ := ih hhigh
      refine ⟨b :: part, rfl, ?_⟩
      intro more
      refine (read_uint8_bind b _ _).trans ?_
      rw [if_neg hlast]
      exact Reader.bind_of_ok (hpart more)

/-- The writer's groups are the fewest, and no others are as few. -/
theorem writeGroups_of_readGroups {k n : Nat} {part : Bytes}
    (h : readGroups k part = (.ok n, [])) :
    (writeGroups k n).length ≤ part.length ∧
      (part.length ≤ (writeGroups k n).length → part = writeGroups k n) := by
  induction k generalizing part n with
  | zero => cases h
  | succ k ih =>
    obtain ⟨b, mid, hb, hmid⟩ := Reader.of_bind_ok h
    obtain rfl := of_read_uint8_ok hb
    have hlt := b.toNat_lt
    by_cases hlast : b < 128
    · rw [if_pos hlast] at hmid
      cases hmid
      have hn : b.toNat < 128 := UInt8.lt_iff_toNat_lt.mp hlast
      rw [writeGroups, if_pos hn, UInt8.ofNat_toNat]
      exact ⟨Nat.le_refl _, fun _ => rfl⟩
    · rw [if_neg hlast] at hmid
      obtain ⟨high, rest, hhigh, hpure⟩ := Reader.of_bind_ok hmid
      cases hpure
      have hb : 128 ≤ b.toNat := by
        rw [UInt8.lt_iff_toNat_lt, show (128 : UInt8).toNat = 128 from rfl] at hlast
        omega
      obtain ⟨hle, heq⟩ := ih hhigh
      rw [writeGroups]
      split
      · -- What could stand in one group has others behind it that add nothing.
        have hpos : 0 < mid.length := by
          rw [List.length_pos_iff]
          rintro rfl
          cases k <;> cases hhigh
        simp only [List.length_cons, List.length_nil]
        omega
      · have hlow : (b.toNat % 128 + 128 * high) % 128 + 128 = b.toNat := by omega
        have hdiv : (b.toNat % 128 + 128 * high) / 128 = high := by omega
        rw [hlow, hdiv, UInt8.ofNat_toNat, List.length_cons, List.length_cons]
        constructor
        · omega
        · intro hlength
          rw [heq (by omega)]

theorem readLength_eq_ok {n : UInt32} {input rest : Bytes} :
    readLength input = (.ok n, rest) ↔ readGroups 5 input = (.ok n.toNat, rest) := by
  constructor
  · intro h
    obtain ⟨m, mid, hm, h⟩ := Reader.of_bind_ok h
    split at h
    · next hsize =>
      cases h
      rw [UInt32.toNat_ofNat', Nat.mod_eq_of_lt hsize]
      exact hm
    · cases h
  · intro h
    refine (Reader.bind_of_ok h).trans ?_
    rw [if_pos n.toNat_lt, UInt32.ofNat_toNat]
    rfl

theorem of_readLength_ok {n : UInt32} {input rest : Bytes}
    (h : readLength input = (.ok n, rest)) :
    ∃ part, input = part ++ rest ∧ ∀ more, readLength (part ++ more) = (.ok n, more) := by
  obtain ⟨part, hinput, hpart⟩ := of_readGroups_ok (readLength_eq_ok.mp h)
  exact ⟨part, hinput, fun more => readLength_eq_ok.mpr (hpart more)⟩

theorem readLength_append {n : UInt32} {part : Bytes} (h : readLength part = (.ok n, []))
    (rest : Bytes) : readLength (part ++ rest) = (.ok n, rest) := by
  obtain ⟨part', heq, hpart⟩ := of_readLength_ok h
  rw [List.append_nil] at heq
  rw [heq]
  exact hpart rest

namespace Cell

variable {cell : Cell} {part : Bytes}

theorem spells_octets (cell : Cell) : cell.Spells cell.octets := by
  cases cell with
  | plain octets => exact rfl
  | length n =>
    have h := readLength_writeLength n []
    rwa [List.append_nil] at h
  | presence present =>
    refine ⟨_, rfl, ?_⟩
    cases present <;> decide

theorem length_octets_le (h : cell.Spells part) : cell.octets.length ≤ part.length := by
  cases cell with
  | plain octets => exact Nat.le_of_eq (congrArg _ h.symm)
  | length n => exact (writeGroups_of_readGroups (readLength_eq_ok.mp h)).1
  | presence present =>
    obtain ⟨b, rfl, -⟩ := h
    exact Nat.le_refl 1

theorem canonical_iff (h : cell.Spells part) : cell.Canonical part ↔ part = cell.octets := by
  cases cell with
  | plain octets => exact iff_of_true trivial h
  | length n =>
    constructor
    · intro hshort
      apply (writeGroups_of_readGroups (readLength_eq_ok.mp h)).2
      exact hshort _ (spells_octets (length n))
    · rintro rfl other hother
      exact length_octets_le hother
  | presence present =>
    obtain ⟨b, rfl, hb⟩ := h
    simp only [Canonical, octets, List.cons.injEq, and_true]
    cases present with
    | false =>
      have hzero : b = 0 := by simpa using hb
      simp [hzero]
    | true =>
      have hne : b ≠ 0 := by simpa using hb
      simp [hne]

end Cell

abbrev Spelling : List Cell → List Bytes → Prop := List.Forall₂ Cell.Spells

def fill (cells : List Cell) : Bytes := cells.flatMap Cell.octets

theorem fill_append (cells more : List Cell) : fill (cells ++ more) = fill cells ++ fill more :=
  List.flatMap_append

namespace Spelling

variable {cells more : List Cell} {parts parts' : List Bytes}

theorem append (h : Spelling cells parts) (h' : Spelling more parts') :
    Spelling (cells ++ more) (parts ++ parts') := List.rel_append h h'

theorem of_append (h : Spelling (cells ++ more) parts) :
    ∃ before behind, Spelling cells before ∧ Spelling more behind ∧ parts = before ++ behind := by
  induction cells generalizing parts with
  | nil => exact ⟨[], parts, .nil, h, rfl⟩
  | cons cell cells ih =>
    cases h with
    | cons hcell hcells =>
      obtain ⟨before, behind, hbefore, hbehind, rfl⟩ := ih hcells
      exact ⟨_, behind, .cons hcell hbefore, hbehind, rfl⟩

theorem written (cells : List Cell) : Spelling cells (cells.map Cell.octets) := by
  rw [Spelling, List.forall₂_map_right_iff, List.forall₂_same]
  exact fun cell _ => cell.spells_octets

theorem flatten_written (cells : List Cell) : (cells.map Cell.octets).flatten = fill cells :=
  List.flatMap_def.symm

theorem length_fill_le (h : Spelling cells parts) : (fill cells).length ≤ parts.flatten.length := by
  induction h with
  | nil => exact Nat.le_refl 0
  | cons hcell _ ih =>
    have := Cell.length_octets_le hcell
    rw [fill, List.flatMap_cons, List.flatten_cons, List.length_append, List.length_append]
    exact Nat.add_le_add this ih

theorem canonical_iff (h : Spelling cells parts) :
    List.Forall₂ Cell.Canonical cells parts ↔ parts.flatten = fill cells := by
  induction h with
  | nil => simp [fill]
  | @cons cell part cells parts hcell hcells ih =>
    have hle := Cell.length_octets_le hcell
    have hle' := Spelling.length_fill_le hcells
    rw [List.forall₂_cons, Cell.canonical_iff hcell, ih, List.flatten_cons]
    change _ ↔ _ = cell.octets ++ fill cells
    constructor
    · rintro ⟨rfl, hrest⟩
      rw [hrest]
    · -- Neither the first part nor the rest can make up for octets too many in the other.
      intro heq
      have hlength := congrArg List.length heq
      rw [List.length_append, List.length_append] at hlength
      exact List.append_inj heq (by omega)

end Spelling

def Reads (r : Reader α) (cells : List Cell) (a : α) : Prop :=
  ∀ parts, Spelling cells parts → ∀ rest, r (parts.flatten ++ rest) = (.ok a, rest)

def Finds (r : Reader α) (Q : α → List Bytes → Prop) : Prop :=
  ∀ input a rest, r input = (.ok a, rest) → ∃ parts, Q a parts ∧ input = parts.flatten ++ rest

section

variable {r : Reader α} {f : α → Reader β} {cells more : List Cell} {a : α} {b : β}
  {P : α → List Bytes → Prop} {Q : β → List Bytes → Prop}

theorem reads_pure (a : α) : Reads (pure a) [] a := by
  intro parts hparts rest
  cases hparts
  rfl

theorem Reads.bind (h : Reads r cells a) (hf : Reads (f a) more b) :
    Reads (r >>= f) (cells ++ more) b := by
  intro parts hparts rest
  obtain ⟨before, behind, hbefore, hbehind, rfl⟩ := hparts.of_append
  rw [List.flatten_append, List.append_assoc]
  exact (Reader.bind_of_ok (h before hbefore _)).trans (hf behind hbehind rest)

theorem finds_pure (h : Q b []) : Finds (pure b) Q := by
  intro input b rest hpure
  cases hpure
  exact ⟨[], h, rfl⟩

theorem Finds.bind (h : Finds r P)
    (hf : ∀ a parts, P a parts → Finds (f a) fun b parts' => Q b (parts ++ parts')) :
    Finds (r >>= f) Q := by
  intro input b rest hread
  obtain ⟨a, mid, ha, hb⟩ := Reader.of_bind_ok hread
  obtain ⟨parts, hP, rfl⟩ := h input a mid ha
  obtain ⟨parts', hQ, rfl⟩ := hf a parts hP mid b rest hb
  refine ⟨parts ++ parts', hQ, ?_⟩
  rw [List.flatten_append, List.append_assoc]

end

/-- A format whose values tell the cells of their encodings. -/
class Laid (α : Type) [Format α] where
  cells : α → List Cell
  /-- Whether the lengths in a value can be written. -/
  fits : α → Prop
  written : ∀ a, fill (cells a) = write a
  reads : ∀ {a}, fits a → Reads read (cells a) a
  finds : Finds (read : Reader α) fun a parts => fits a ∧ Spelling (cells a) parts

export Laid (cells fits)

@[reducible] def Laid.exact [Format α] (hreads : ∀ a : α, ReadsBack a)
    (hfinds : ∀ {input rest : Bytes} {a : α}, read input = (.ok a, rest) →
      input = write a ++ rest) : Laid α where
  cells a := [.plain (write a)]
  fits _ := True
  written a := List.append_nil (write a)
  reads {a} _ := by
    intro parts hparts rest
    cases hparts with
    | cons hpart hnil =>
      cases hpart
      cases hnil
      rw [List.flatten_cons, List.flatten_nil, List.append_nil]
      exact hreads a rest
  finds := by
    intro input a rest h
    refine ⟨[write a], ⟨trivial, .cons rfl .nil⟩, ?_⟩
    rw [List.flatten_cons, List.flatten_nil, List.append_nil]
    exact hfinds h

theorem of_read_number_ok {k : Nat} {ofNat : Nat → α} {write : α → Bytes} {input rest : Bytes}
    {a : α} (hwrite : ∀ n < 256 ^ k, write (ofNat n) = littleEndian k n)
    (h : (readNumber k >>= fun n => pure (ofNat n)) input = (.ok a, rest)) :
    input = write a ++ rest := by
  obtain ⟨n, mid, hn, hpure⟩ := Reader.of_bind_ok h
  obtain ⟨hlt, rfl⟩ := of_readNumber_ok hn
  cases hpure
  rw [hwrite n hlt]

theorem of_read_uint16_ok {input rest : Bytes} {n : UInt16} (h : read input = (.ok n, rest)) :
    input = write n ++ rest := by
  apply of_read_number_ok _ h
  intro m hm
  exact congrArg (littleEndian 2) (UInt16.toNat_ofNat_of_lt' hm)

theorem of_read_uint32_ok {input rest : Bytes} {n : UInt32} (h : read input = (.ok n, rest)) :
    input = write n ++ rest := by
  apply of_read_number_ok _ h
  intro m hm
  exact congrArg (littleEndian 4) (UInt32.toNat_ofNat_of_lt' hm)

theorem of_read_uint64_ok {input rest : Bytes} {n : UInt64} (h : read input = (.ok n, rest)) :
    input = write n ++ rest := by
  apply of_read_number_ok _ h
  intro m hm
  exact congrArg (littleEndian 8) (UInt64.toNat_ofNat_of_lt' hm)

instance : Laid UInt8 := .exact readsBack_uint8 fun h => by
  rw [of_read_uint8_ok h, write_uint8, List.singleton_append]

instance : Laid UInt16 := .exact readsBack_uint16 of_read_uint16_ok

instance : Laid UInt32 := .exact readsBack_uint32 of_read_uint32_ok

instance : Laid UInt64 := .exact readsBack_uint64 of_read_uint64_ok

instance : Laid Int16 := .exact readsBack_int16 fun h => by
  obtain ⟨n, mid, hn, hpure⟩ := Reader.of_bind_ok h
  cases hpure
  exact of_read_uint16_ok hn

instance : Laid Int64 := .exact readsBack_int64 fun h => by
  obtain ⟨n, mid, hn, hpure⟩ := Reader.of_bind_ok h
  cases hpure
  exact of_read_uint64_ok hn

theorem of_lift_ok {x : Except Fault α} {input rest : Bytes} {a : α}
    (h : Reader.lift x input = (.ok a, rest)) : x = .ok a ∧ input = rest := by
  cases x <;> cases h
  exact ⟨rfl, rfl⟩

instance {n : Nat} : Laid (Octets n) := .exact readsBack_octets fun {input rest o} h => by
  obtain ⟨bytes, mid, htake, hlift⟩ := Reader.of_bind_ok h
  obtain ⟨hlength, rfl⟩ := of_take_ok htake
  obtain ⟨hbytes, rfl⟩ := of_lift_ok hlift
  rw [Octets.ofBytes, dif_pos hlength] at hbytes
  cases hbytes
  rfl

section

variable [Format α] [Laid α] {f : α → Reader β} {g : α → β} {more : List Cell} {a : α} {b : β}
  {Q : β → List Bytes → Prop}

theorem Reads.field (ha : fits a) (hf : Reads (f a) more b) :
    Reads (read >>= f) (cells a ++ more) b := (Laid.reads ha).bind hf

theorem Reads.last (ha : fits a) : Reads (read >>= fun a => pure (g a)) (cells a) (g a) := by
  rw [← List.append_nil (cells a)]
  apply Reads.field ha
  exact reads_pure (g a)

theorem Finds.field
    (hf : ∀ a parts, fits a → Spelling (cells a) parts →
      Finds (f a) fun b parts' => Q b (parts ++ parts')) : Finds (read >>= f) Q :=
  Laid.finds.bind fun a parts ha => hf a parts ha.1 ha.2

theorem Finds.last
    (hg : ∀ a parts, fits a → Spelling (cells a) parts → Q (g a) parts) :
    Finds (read >>= fun a => pure (g a)) Q := by
  apply Finds.field
  intro a parts ha hparts
  apply finds_pure
  rw [List.append_nil]
  exact hg a parts ha hparts

end

def countedCells (bytes : Bytes) : List Cell := [.length (UInt32.ofNat bytes.length), .plain bytes]

theorem fill_countedCells (bytes : Bytes) : fill (countedCells bytes) = writeCounted bytes := by
  simp [fill, countedCells, Cell.octets, writeCounted]

theorem reads_readLength (n : UInt32) : Reads readLength [.length n] n := by
  intro parts hparts rest
  cases hparts with
  | cons hpart hnil =>
    cases hnil
    rw [List.flatten_cons, List.flatten_nil, List.append_nil]
    exact readLength_append hpart rest

theorem finds_readLength : Finds readLength fun n parts => Spelling [.length n] parts := by
  intro input n rest h
  obtain ⟨part, rfl, hpart⟩ := of_readLength_ok h
  refine ⟨[part], .cons ?_ .nil, ?_⟩
  · have := hpart []
    rwa [List.append_nil] at this
  · rw [List.flatten_cons, List.flatten_nil, List.append_nil]

theorem reads_readCounted {bytes : Bytes} (h : bytes.length < UInt32.size) :
    Reads readCounted (countedCells bytes) bytes := by
  apply (reads_readLength _).bind
  intro parts hparts rest
  cases hparts with
  | cons hpart hnil =>
    cases hpart
    cases hnil
    rw [List.flatten_cons, List.flatten_nil, List.append_nil]
    exact take_append (toNat_ofNat_length h).symm rest

theorem finds_readCounted : Finds readCounted fun bytes parts =>
    bytes.length < UInt32.size ∧ Spelling (countedCells bytes) parts := by
  apply finds_readLength.bind
  intro n parts hparts input bytes rest htake
  obtain ⟨hlength, rfl⟩ := of_take_ok htake
  refine ⟨[bytes], ⟨?_, ?_⟩, ?_⟩
  · rw [hlength]
    exact n.toNat_lt
  · rw [countedCells, hlength, UInt32.ofNat_toNat]
    exact Spelling.append hparts (.cons rfl .nil)
  · rw [List.flatten_cons, List.flatten_nil, List.append_nil]

instance : Laid String where
  cells s := countedCells (Text.utf8 s)
  fits s := Short s
  written s := fill_countedCells (Text.utf8 s)
  reads {s} hs := by
    rw [← List.append_nil (countedCells _)]
    apply (reads_readCounted hs).bind
    rw [Text.ofUtf8_utf8]
    exact reads_pure s
  finds := by
    apply finds_readCounted.bind
    intro bytes parts hbytes input s rest h
    obtain ⟨htext, rfl⟩ := of_lift_ok h
    have hs : Text.utf8 s = bytes := by
      apply Text.utf8_of_ofUtf8
      cases hx : Text.ofUtf8 bytes <;> rw [hx] at htext <;> cases htext
      rfl
    refine ⟨[], ⟨?_, ?_⟩, rfl⟩
    · rw [Short, hs]
      exact hbytes.1
    · rw [List.append_nil, hs]
      exact hbytes.2

class Solid (α : Type) [Format α] : Prop where
  pos : ∀ a : α, 0 < (write a : Bytes).length

section

variable [Format α] [Laid α]

theorem fill_flatMap_cells (as : List α) : fill (as.flatMap cells) = as.flatMap write := by
  induction as with
  | nil => rfl
  | cons a as ih => rw [List.flatMap_cons, List.flatMap_cons, fill_append, ih, Laid.written]

theorem reads_times {as : List α} (h : ∀ a ∈ as, fits a) :
    Reads (Reader.times read as.length) (as.flatMap cells) as := by
  induction as with
  | nil => exact reads_pure []
  | cons a as ih =>
    rw [List.flatMap_cons]
    apply Reads.field (h a List.mem_cons_self)
    rw [← List.append_nil (as.flatMap _)]
    apply (ih fun b hb => h b (List.mem_cons_of_mem a hb)).bind
    exact reads_pure (a :: as)

theorem finds_times (n : Nat) : Finds (Reader.times (read : Reader α) n) fun as parts =>
    as.length = n ∧ (∀ a ∈ as, fits a) ∧ Spelling (as.flatMap cells) parts := by
  induction n with
  | zero =>
    apply finds_pure
    exact ⟨rfl, by simp, .nil⟩
  | succ n ih =>
    apply Finds.field
    intro a parts ha hparts
    apply ih.bind
    rintro as parts' ⟨hlength, has, hparts'⟩
    apply finds_pure
    rw [List.append_nil]
    refine ⟨congrArg (· + 1) hlength, ?_, Spelling.append hparts hparts'⟩
    exact List.forall_mem_cons.mpr ⟨ha, has⟩

theorem length_le_of_spelling [Solid α] {as : List α} {parts : List Bytes}
    (h : Spelling (as.flatMap cells) parts) : as.length ≤ parts.flatten.length :=
  calc as.length ≤ (as.flatMap write).length := length_le_flatMap fun a _ => Solid.pos a
    _ = (fill (as.flatMap cells)).length := by rw [fill_flatMap_cells]
    _ ≤ parts.flatten.length := Spelling.length_fill_le h

instance [Solid α] : Laid (List α) where
  cells as := .length (UInt32.ofNat as.length) :: as.flatMap cells
  fits as := as.length < UInt32.size ∧ ∀ a ∈ as, fits a
  written as := congrArg (writeLength _ ++ ·) (fill_flatMap_cells as)
  reads {as} h := by
    apply (reads_readLength _).bind
    rw [toNat_ofNat_length h.1]
    intro parts hparts rest
    have hle := length_le_of_spelling hparts
    have hleft : Reader.remaining (parts.flatten ++ rest) = (.ok _, parts.flatten ++ rest) := rfl
    refine (Reader.bind_of_ok hleft).trans ?_
    rw [if_neg (by rw [List.length_append]; omega)]
    exact reads_times h.2 parts hparts rest
  finds := by
    apply finds_readLength.bind
    intro n parts hparts input as rest h
    obtain ⟨left, mid, hleft, htimes⟩ := Reader.of_bind_ok h
    cases hleft
    split at htimes
    · cases htimes
    · obtain ⟨parts', ⟨hlength, has, hparts'⟩, rfl⟩ := finds_times n.toNat _ _ _ htimes
      refine ⟨parts', ⟨⟨?_, has⟩, ?_⟩, rfl⟩
      · rw [hlength]
        exact n.toNat_lt
      · rw [hlength, UInt32.ofNat_toNat]
        exact Spelling.append hparts hparts'

instance : Laid (Option α) where
  cells
    | none => [.presence false]
    | some a => .presence true :: cells a
  fits o := ∀ a, o = some a → fits a
  written o := by
    cases o with
    | none => rfl
    | some a => exact congrArg ([1] ++ ·) (Laid.written a)
  reads {o} h := by
    intro parts hparts rest
    cases o with
    | none =>
      cases hparts with
      | cons hpart hnil =>
        obtain ⟨b, rfl, hb⟩ := hpart
        cases hnil
        obtain rfl : b = 0 := by simpa using hb
        exact (read_uint8_bind 0 _ rest).trans rfl
    | some a =>
      cases hparts with
      | cons hpart hcells =>
        obtain ⟨b, rfl, hb⟩ := hpart
        have hne : b ≠ 0 := by simpa using hb
        rw [List.flatten_cons, List.append_assoc]
        refine (read_uint8_bind b _ _).trans ?_
        rw [if_neg hne]
        exact Reader.bind_of_ok (Laid.reads (h a rfl) _ hcells rest)
  finds := by
    intro input o rest h
    obtain ⟨b, mid, hb, hrest⟩ := Reader.of_bind_ok h
    obtain rfl := of_read_uint8_ok hb
    by_cases hzero : b = 0
    · rw [if_pos hzero] at hrest
      cases hrest
      refine ⟨[[b]], ⟨by simp, .cons ⟨b, rfl, by simpa using hzero⟩ .nil⟩, rfl⟩
    · rw [if_neg hzero] at hrest
      obtain ⟨a, mid', ha, hpure⟩ := Reader.of_bind_ok hrest
      cases hpure
      obtain ⟨parts, ⟨hfits, hparts⟩, rfl⟩ := Laid.finds _ _ _ ha
      refine ⟨[b] :: parts, ⟨?_, .cons ⟨b, rfl, by simpa using hzero⟩ hparts⟩, ?_⟩
      · rintro _ ⟨⟩
        exact hfits
      · rw [List.flatten_cons, List.append_assoc]
        rfl

end

end BlockSync.Wire

import BlockSync.Proofs.Text.Hexadecimal
import BlockSync.Proofs.Wire.Spelling
import Mathlib.Algebra.BigOperators.Fin

/-! Which octets are lengths. Groups are counted off up to the first that has none behind it: five
at most, and no more than 32 bits in all. What breaks off before is short of one octet, and there is
nothing else that can be wrong. -/

namespace BlockSync.Wire

def HasNext (b : UInt8) : Prop := b.toNat.testBit 7 = true

instance (b : UInt8) : Decidable (HasNext b) := inferInstanceAs (Decidable (_ = true))

theorem hasNext_iff (b : UInt8) : HasNext b ↔ ¬ b < 128 := by
  have hb := b.toNat_lt
  rw [HasNext, Nat.testBit_eq_decide_div_mod_eq, decide_eq_true_iff, UInt8.lt_iff_toNat_lt,
    show (128 : UInt8).toNat = 128 from rfl]
  omega

/-- What groups of seven bits stand for, the lowest first. -/
def groupSum (groups : Bytes) : Nat :=
  ∑ i : Fin groups.length, groups[i].toNat % 128 * 128 ^ (i : Nat)

theorem groupSum_singleton (b : UInt8) : groupSum [b] = b.toNat % 128 := by
  simp [groupSum]

theorem groupSum_cons (b : UInt8) (groups : Bytes) :
    groupSum (b :: groups) = b.toNat % 128 + 128 * groupSum groups := by
  simp only [groupSum]
  rw [Finset.mul_sum]
  refine (Fin.sum_univ_succ _).trans ?_
  congr 1
  · simp
  · apply Finset.sum_congr rfl
    intro i _
    simp only [Fin.getElem_fin, Fin.val_succ, List.getElem_cons_succ, pow_succ']
    exact Nat.mul_left_comm _ _ _

theorem groupSum_lt (groups : Bytes) : groupSum groups < 128 ^ groups.length := by
  induction groups with
  | nil => decide
  | cons b groups ih =>
    rw [groupSum_cons, List.length_cons, pow_succ]
    omega

section Groups

variable {k : Nat} {groups input rest : Bytes} {last b : UInt8}

theorem readGroups_cons_of_hasNext (h : HasNext b) :
    readGroups (k + 1) (b :: rest) =
      (readGroups k >>= fun high => pure (b.toNat % 128 + 128 * high)) rest := by
  rw [readGroups]
  refine (read_uint8_bind b _ rest).trans ?_
  rw [if_neg ((hasNext_iff b).mp h)]

theorem readGroups_of_ended (hlength : groups.length < k) (hnext : ∀ b ∈ groups, HasNext b)
    (hlast : ¬ HasNext last) :
    readGroups k (groups ++ last :: rest) = (.ok (groupSum (groups ++ [last])), rest) := by
  induction groups generalizing k with
  | nil =>
    obtain ⟨k, rfl⟩ : ∃ j, k = j + 1 := ⟨k - 1, by simp at hlength; omega⟩
    have hlow : last < 128 := by
      rw [hasNext_iff, not_not] at hlast
      exact hlast
    have hvalue : groupSum [last] = last.toNat := by
      rw [groupSum_singleton]
      exact Nat.mod_eq_of_lt (UInt8.lt_iff_toNat_lt.mp hlow)
    rw [List.nil_append, List.nil_append, hvalue, readGroups]
    refine (read_uint8_bind last _ rest).trans ?_
    rw [if_pos hlow]
    rfl
  | cons b groups ih =>
    rw [List.length_cons] at hlength
    obtain ⟨k, rfl⟩ : ∃ j, k = j + 1 := ⟨k - 1, by omega⟩
    obtain ⟨hb, hnext⟩ := List.forall_mem_cons.mp hnext
    rw [List.cons_append, List.cons_append, readGroups_cons_of_hasNext hb, groupSum_cons]
    exact Reader.bind_of_ok (ih (by omega) hnext)

/-- As many groups as there may be, and each with one behind it, are too many. -/
theorem readGroups_of_endless (hlength : groups.length = k) (hnext : ∀ b ∈ groups, HasNext b) :
    readGroups k (groups ++ rest) = (.error .lengthOverflow, rest) := by
  induction groups generalizing k with
  | nil =>
    subst hlength
    rfl
  | cons b groups ih =>
    subst hlength
    obtain ⟨hb, hnext⟩ := List.forall_mem_cons.mp hnext
    rw [List.cons_append, List.length_cons, readGroups_cons_of_hasNext hb]
    exact Reader.bind_of_error (ih rfl hnext)

theorem readGroups_of_cut (hlength : input.length < k) (hnext : ∀ b ∈ input, HasNext b) :
    readGroups k input = (.error (.endOfInput 1 0), []) := by
  induction input generalizing k with
  | nil =>
    obtain ⟨k, rfl⟩ : ∃ j, k = j + 1 := ⟨k - 1, by simp at hlength; omega⟩
    rfl
  | cons b input ih =>
    rw [List.length_cons] at hlength
    obtain ⟨k, rfl⟩ : ∃ j, k = j + 1 := ⟨k - 1, by omega⟩
    obtain ⟨hb, hnext⟩ := List.forall_mem_cons.mp hnext
    rw [readGroups_cons_of_hasNext hb]
    exact Reader.bind_of_error (ih (by omega) hnext)

end Groups

/-- Octets that start with a length of at most five groups and 32 bits. -/
def StartsWithLength (input : Bytes) (n : UInt32) (rest : Bytes) : Prop :=
  ∃ groups last, input = groups ++ last :: rest ∧ groups.length + 1 ≤ 5 ∧
    (∀ b ∈ groups, HasNext b) ∧ ¬ HasNext last ∧ n.toNat = groupSum (groups ++ [last])

/-- Octets that start with five groups, of which the last has another one behind it or which take
more than 32 bits. -/
def StartsWithExcess (input rest : Bytes) : Prop :=
  ∃ groups last, input = groups ++ last :: rest ∧ groups.length + 1 = 5 ∧
    (∀ b ∈ groups, HasNext b) ∧ (HasNext last ∨ UInt32.size ≤ groupSum (groups ++ [last]))

section Lengths

variable {input rest : Bytes} {n : UInt32}

theorem readLength_of_startsWithLength (h : StartsWithLength input n rest) :
    readLength input = (.ok n, rest) := by
  obtain ⟨groups, last, rfl, hlength, hnext, hlast, hn⟩ := h
  rw [readLength_eq_ok, hn]
  exact readGroups_of_ended hlength hnext hlast

theorem readLength_of_startsWithExcess (h : StartsWithExcess input rest) :
    readLength input = (.error .lengthOverflow, rest) := by
  obtain ⟨groups, last, rfl, hlength, hnext, hexcess⟩ := h
  by_cases hlast : HasNext last
  · have hnext' : ∀ b ∈ groups ++ [last], HasNext b := by
      simpa [or_imp, forall_and] using ⟨hnext, hlast⟩
    have hlength' : (groups ++ [last]).length = 5 := by
      rw [List.length_append, List.length_singleton, hlength]
    have hread : readGroups 5 (groups ++ [last] ++ rest) = (.error .lengthOverflow, rest) :=
      readGroups_of_endless hlength' hnext'
    rw [List.append_assoc, List.singleton_append] at hread
    exact Reader.bind_of_error hread
  · have hsize : ¬ groupSum (groups ++ [last]) < UInt32.size :=
      Nat.not_lt.mpr (hexcess.resolve_left hlast)
    refine (Reader.bind_of_ok (readGroups_of_ended (by omega) hnext hlast)).trans ?_
    rw [if_neg hsize]
    rfl

theorem readLength_of_cut (hlength : input.length < 5) (hnext : ∀ b ∈ input, HasNext b) :
    readLength input = (.error (.endOfInput 1 0), []) :=
  Reader.bind_of_error (readGroups_of_cut hlength hnext)

theorem startsWithExcess_of_hasNext {groups : Bytes} (hlength : 5 ≤ groups.length)
    (hnext : ∀ b ∈ groups, HasNext b) (behind : Bytes) :
    ∃ rest, StartsWithExcess (groups ++ behind) rest := by
  have hsplit : groups = groups.take 4 ++ groups[4] :: groups.drop 5 := by
    rw [List.getElem_cons_drop, List.take_append_drop]
  have hfour : (groups.take 4).length + 1 = 5 := by
    rw [List.length_take]
    omega
  refine ⟨groups.drop 5 ++ behind, groups.take 4, groups[4], ?_, hfour, ?_, ?_⟩
  · rw [← List.cons_append, ← List.append_assoc, ← hsplit]
  · exact fun b hb => hnext b (List.mem_of_mem_take hb)
  · exact .inl (hnext _ (List.getElem_mem _))

/-- Four groups take 28 bits, so a number that is too large has five. -/
theorem length_cases (input : Bytes) :
    (∃ n rest, StartsWithLength input n rest) ∨ (∃ rest, StartsWithExcess input rest) ∨
      (input.length < 5 ∧ ∀ b ∈ input, HasNext b) := by
  rcases Text.forall_or_first HasNext input with hnext | ⟨groups, last, rest, rfl, hnext, hlast⟩
  · by_cases hmany : 5 ≤ input.length
    · obtain ⟨rest, hexcess⟩ := startsWithExcess_of_hasNext hmany hnext []
      rw [List.append_nil] at hexcess
      exact .inr (.inl ⟨rest, hexcess⟩)
    · exact .inr (.inr ⟨by omega, hnext⟩)
  · by_cases hmany : 5 ≤ groups.length
    · exact .inr (.inl (startsWithExcess_of_hasNext hmany hnext _))
    · by_cases hsize : groupSum (groups ++ [last]) < UInt32.size
      · refine .inl ⟨UInt32.ofNat (groupSum (groups ++ [last])), rest, groups, last, rfl, by omega,
          hnext, hlast, ?_⟩
        rw [UInt32.toNat_ofNat', Nat.mod_eq_of_lt hsize]
      · have hfour : groups.length + 1 = 5 := by
          by_contra hfew
          have hlt := groupSum_lt (groups ++ [last])
          have hpow : 128 ^ (groups ++ [last]).length ≤ 128 ^ 4 := by
            apply Nat.pow_le_pow_right (by decide)
            rw [List.length_append, List.length_singleton]
            omega
          rw [UInt32.size] at hsize
          omega
        exact .inr (.inl ⟨rest, groups, last, rfl, hfour, hnext, .inr (Nat.not_lt.mp hsize)⟩)

theorem readLength_eq_ok_iff :
    readLength input = (.ok n, rest) ↔ StartsWithLength input n rest := by
  refine ⟨fun hread => ?_, readLength_of_startsWithLength⟩
  rcases length_cases input with ⟨n', rest', h⟩ | ⟨rest', h⟩ | ⟨hlength, hnext⟩
  · have hread' := readLength_of_startsWithLength h
    rw [hread] at hread'
    cases hread'
    exact h
  · rw [readLength_of_startsWithExcess h] at hread
    cases hread
  · rw [readLength_of_cut hlength hnext] at hread
    cases hread

theorem readLength_eq_overflow_iff :
    readLength input = (.error .lengthOverflow, rest) ↔ StartsWithExcess input rest := by
  refine ⟨fun hread => ?_, readLength_of_startsWithExcess⟩
  rcases length_cases input with ⟨n', rest', h⟩ | ⟨rest', h⟩ | ⟨hlength, hnext⟩
  · rw [readLength_of_startsWithLength h] at hread
    cases hread
  · have hread' := readLength_of_startsWithExcess h
    rw [hread] at hread'
    cases hread'
    exact h
  · rw [readLength_of_cut hlength hnext] at hread
    cases hread

theorem readLength_eq_end_iff :
    readLength input = (.error (.endOfInput 1 0), []) ↔
      (¬ ∃ n rest, StartsWithLength input n rest) ∧ ¬ ∃ rest, StartsWithExcess input rest := by
  constructor
  · intro hread
    constructor
    · rintro ⟨n, rest, h⟩
      rw [readLength_of_startsWithLength h] at hread
      cases hread
    · rintro ⟨rest, h⟩
      rw [readLength_of_startsWithExcess h] at hread
      cases hread
  · rintro ⟨hlength, hexcess⟩
    obtain ⟨hshort, hnext⟩ := ((length_cases input).resolve_left hlength).resolve_left hexcess
    exact readLength_of_cut hshort hnext

theorem length_writeLength_lt {other : Bytes} (hvalue : readLength.value other = .ok n)
    (hne : other ≠ writeLength n) : (writeLength n).length < other.length := by
  have hread : readLength other = (.ok n, (readLength other).2) := Prod.ext hvalue rfl
  generalize (readLength other).2 = rest at hread
  obtain ⟨part, rfl, hpart⟩ := of_readLength_ok hread
  have hexact := hpart []
  rw [List.append_nil] at hexact
  obtain ⟨hle, heq⟩ := writeGroups_of_readGroups (readLength_eq_ok.mp hexact)
  change (writeLength n).length ≤ part.length at hle
  rw [List.length_append]
  by_cases hrest : rest = []
  · -- Nothing follows, so the groups themselves are others.
    subst hrest
    rw [List.append_nil] at hne
    have hlt : ¬ part.length ≤ (writeLength n).length := fun hlength => hne (heq hlength)
    omega
  · have hpos := List.length_pos_iff.mpr hrest
    omega

end Lengths

/-- A length is what its groups add up to where there are at most five of them and 32 bits. Five
that are more are too much, and anything else is short of an octet when all of it is gone. Of all
octets that start with a length, those that are written for it are the fewest. -/
theorem lengths_are_groups :
    (∀ input n rest, readLength input = (.ok n, rest) ↔ StartsWithLength input n rest) ∧
    (∀ input rest,
      readLength input = (.error .lengthOverflow, rest) ↔ StartsWithExcess input rest) ∧
    (∀ input, readLength input = (.error (.endOfInput 1 0), []) ↔
      (¬ ∃ n rest, StartsWithLength input n rest) ∧ ¬ ∃ rest, StartsWithExcess input rest) ∧
    (∀ n, readLength (writeLength n) = (.ok n, []) ∧
      ∀ other, readLength.value other = .ok n → other ≠ writeLength n →
        (writeLength n).length < other.length) := by
  refine ⟨fun _ _ _ => readLength_eq_ok_iff, fun _ _ => readLength_eq_overflow_iff,
    fun _ => readLength_eq_end_iff, fun n => ⟨?_, fun _ => length_writeLength_lt⟩⟩
  have hread := readLength_writeLength n []
  rwa [List.append_nil] at hread

/-- Five in three groups, and two to the power of 32 in five. -/
theorem lengths_are_groups_of_padding :
    (readLength.value [0x85, 0x80, 0x00, 0x07] = .ok 5 ∧
      ([0x85, 0x80, 0x00, 0x07] : Bytes) ≠ writeLength 5 ∧ (writeLength 5).length < 4) ∧
    StartsWithExcess [0x80, 0x80, 0x80, 0x80, 0x10, 0x07] [0x07] := by
  obtain ⟨-, hexcess, -, hwritten⟩ := lengths_are_groups
  have hvalue : readLength.value [0x85, 0x80, 0x00, 0x07] = .ok 5 := rfl
  have hne : ([0x85, 0x80, 0x00, 0x07] : Bytes) ≠ writeLength 5 := by decide
  constructor
  · exact ⟨hvalue, hne, (hwritten 5).2 _ hvalue hne⟩
  · exact (hexcess _ _).mp rfl

end BlockSync.Wire

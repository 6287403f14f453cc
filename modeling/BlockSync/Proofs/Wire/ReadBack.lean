import BlockSync.Wire.Identity
import Mathlib.Tactic.Common
import Mathlib.Algebra.Group.Nat.Defs

/-! Formats are prefix codes: a value that fits its format is read back from what was written,
whatever follows it. The law is stated for one value, so that each field of a record brings its
own bound and a record is read back field by field. -/

namespace BlockSync.Wire

variable {α β : Type}

/-- Reading what was written gives the value back and leaves what follows. -/
def ReadsBack [Format α] (a : α) : Prop := ∀ rest, read (write a ++ rest) = (.ok a, rest)

theorem Reader.bind_of_ok {r : Reader α} {f : α → Reader β} {input rest : Bytes} {a : α}
    (h : r input = (.ok a, rest)) : (r >>= f) input = f a rest := by
  change Reader.bind r f input = f a rest
  simp only [Reader.bind, h]

theorem Reader.bind_of_error {r : Reader α} {f : α → Reader β} {input rest : Bytes}
    {fault : Fault} (h : r input = (.error fault, rest)) :
    (r >>= f) input = (.error fault, rest) := by
  change Reader.bind r f input = (.error fault, rest)
  simp only [Reader.bind, h]

theorem ReadsBack.bind [Format α] {a : α} (h : ReadsBack a) (f : α → Reader β) (rest : Bytes) :
    (read >>= f) (write a ++ rest) = f a rest :=
  Reader.bind_of_ok (h rest)

theorem take_append {bytes : Bytes} {n : ℕ} (h : bytes.length = n) (rest : Bytes) :
    Reader.take n (bytes ++ rest) = (.ok bytes, rest) := by
  subst h
  simp [Reader.take]

theorem length_littleEndian (k n : ℕ) : (littleEndian k n).length = k := by
  induction k generalizing n with
  | zero => rfl
  | succ k ih => simp only [littleEndian, List.length_cons, ih]

theorem ofLittleEndian_littleEndian {k n : ℕ} (h : n < 256 ^ k) :
    ofLittleEndian (littleEndian k n) = n := by
  induction k generalizing n with
  | zero => simp only [pow_zero] at h; simp only [littleEndian, ofLittleEndian]; omega
  | succ k ih =>
    have hd : n / 256 < 256 ^ k := by
      rw [Nat.div_lt_iff_lt_mul (by decide), ← pow_succ]
      exact h
    simp only [littleEndian, ofLittleEndian, ih hd, UInt8.toNat_ofNat']
    omega

theorem readNumber_littleEndian {k n : ℕ} (h : n < 256 ^ k) (rest : Bytes) :
    readNumber k (littleEndian k n ++ rest) = (.ok n, rest) := by
  have ht := take_append (length_littleEndian k n) rest
  exact (Reader.bind_of_ok ht).trans (by rw [ofLittleEndian_littleEndian h]; rfl)

theorem readsBack_uint8 (n : UInt8) : ReadsBack n := fun rest =>
  (Reader.bind_of_ok (readNumber_littleEndian n.toNat_lt rest)).trans (by
    rw [UInt8.ofNat_toNat]; rfl)

theorem readsBack_uint16 (n : UInt16) : ReadsBack n := fun rest =>
  (Reader.bind_of_ok (readNumber_littleEndian n.toNat_lt rest)).trans (by
    rw [UInt16.ofNat_toNat]; rfl)

theorem readsBack_uint32 (n : UInt32) : ReadsBack n := fun rest =>
  (Reader.bind_of_ok (readNumber_littleEndian n.toNat_lt rest)).trans (by
    rw [UInt32.ofNat_toNat]; rfl)

theorem readsBack_uint64 (n : UInt64) : ReadsBack n := fun rest =>
  (Reader.bind_of_ok (readNumber_littleEndian n.toNat_lt rest)).trans (by
    rw [UInt64.ofNat_toNat]; rfl)

theorem readsBack_int16 (n : Int16) : ReadsBack n := fun rest =>
  ((readsBack_uint16 n.toUInt16).bind _ rest).trans (by rw [Int16.toInt16_toUInt16]; rfl)

theorem readsBack_int64 (n : Int64) : ReadsBack n := fun rest =>
  ((readsBack_uint64 n.toUInt64).bind _ rest).trans (by rw [Int64.toInt64_toUInt64]; rfl)

theorem readsBack_octets {n : ℕ} (o : Octets n) : ReadsBack o := fun rest =>
  (Reader.bind_of_ok (take_append o.length_eq rest)).trans (by
    simp only [Octets.ofBytes, o.length_eq, dif_pos]; rfl)

theorem write_uint8 (b : UInt8) : (write b : Bytes) = [b] := by
  change [UInt8.ofNat (b.toNat % 256)] = [b]
  rw [Nat.mod_eq_of_lt b.toNat_lt, UInt8.ofNat_toNat]

theorem read_uint8_bind (b : UInt8) (f : UInt8 → Reader β) (rest : Bytes) :
    (read >>= f) (b :: rest) = f b rest := by
  rw [← List.singleton_append, ← write_uint8 b]
  exact (readsBack_uint8 b).bind f rest

theorem readGroups_last {k n : ℕ} (h : n < 128) (rest : Bytes) :
    readGroups (k + 1) (UInt8.ofNat n :: rest) = (.ok n, rest) := by
  have hb : (UInt8.ofNat n).toNat = n := by rw [UInt8.toNat_ofNat']; omega
  have hl : UInt8.ofNat n < 128 := by rw [UInt8.lt_iff_toNat_lt, hb]; exact h
  refine (read_uint8_bind _ _ rest).trans ?_
  rw [if_pos hl, hb]
  rfl

theorem readGroups_writeGroups {k n : ℕ} (h : n < 128 ^ (k + 1)) (rest : Bytes) :
    readGroups (k + 1) (writeGroups (k + 1) n ++ rest) = (.ok n, rest) := by
  induction k generalizing n with
  | zero =>
    have hn : n < 128 := by omega
    rw [writeGroups, if_pos hn]
    exact readGroups_last hn rest
  | succ k ih =>
    rw [writeGroups]
    split
    · next hn => exact readGroups_last hn rest
    · next hn =>
      have hd : n / 128 < 128 ^ (k + 1) := by
        rw [Nat.div_lt_iff_lt_mul (by decide), ← pow_succ]
        exact h
      have hb : (UInt8.ofNat (n % 128 + 128)).toNat = n % 128 + 128 := by
        rw [UInt8.toNat_ofNat']; omega
      have hl : ¬ UInt8.ofNat (n % 128 + 128) < 128 := by
        rw [UInt8.lt_iff_toNat_lt, hb, show (128 : UInt8).toNat = 128 from rfl]
        omega
      refine (read_uint8_bind _ _ _).trans ?_
      rw [if_neg hl, hb]
      refine (Reader.bind_of_ok (ih hd)).trans ?_
      change (Except.ok ((n % 128 + 128) % 128 + 128 * (n / 128)), rest) = _
      rw [show (n % 128 + 128) % 128 + 128 * (n / 128) = n by omega]

theorem readLength_writeLength (n : UInt32) (rest : Bytes) :
    readLength (writeLength n ++ rest) = (.ok n, rest) := by
  have hn := n.toNat_lt
  have hg : n.toNat < 128 ^ 5 := by omega
  refine (Reader.bind_of_ok (readGroups_writeGroups hg rest)).trans ?_
  rw [if_pos hn, UInt32.ofNat_toNat]
  rfl

theorem toNat_ofNat_length {as : List α} (h : as.length < UInt32.size) :
    (UInt32.ofNat as.length).toNat = as.length := by
  rw [UInt32.toNat_ofNat']
  exact Nat.mod_eq_of_lt h

theorem readCounted_writeCounted {bytes : Bytes} (h : bytes.length < UInt32.size)
    (rest : Bytes) : readCounted (writeCounted bytes ++ rest) = (.ok bytes, rest) := by
  rw [writeCounted, List.append_assoc]
  refine (Reader.bind_of_ok (readLength_writeLength _ _)).trans ?_
  exact take_append (toNat_ofNat_length h).symm rest

theorem readsBack_string {s : String} (h : (Text.utf8 s).length < UInt32.size) :
    ReadsBack s := fun rest =>
  (Reader.bind_of_ok (readCounted_writeCounted h rest)).trans (by
    rw [Text.ofUtf8_utf8]; rfl)

theorem times_flatMap [Format α] {as : List α} (h : ∀ a ∈ as, ReadsBack a) (rest : Bytes) :
    Reader.times read as.length (as.flatMap write ++ rest) = (.ok as, rest) := by
  induction as with
  | nil => rfl
  | cons a as ih =>
    rw [List.flatMap_cons, List.append_assoc]
    refine ((h a List.mem_cons_self).bind _ _).trans ?_
    exact Reader.bind_of_ok (ih fun b hb => h b (List.mem_cons_of_mem a hb))

theorem length_le_flatMap [Format α] {as : List α} (h : ∀ a ∈ as, 0 < (write a).length) :
    as.length ≤ (as.flatMap write).length := by
  induction as with
  | nil => exact Nat.le_refl 0
  | cons a as ih =>
    have ha := h a List.mem_cons_self
    have := ih fun b hb => h b (List.mem_cons_of_mem a hb)
    rw [List.flatMap_cons, List.length_append, List.length_cons]
    omega

theorem readsBack_list [Format α] {as : List α} (h : ∀ a ∈ as, ReadsBack a)
    (hpos : ∀ a ∈ as, 0 < (write a).length) (hlen : as.length < UInt32.size) :
    ReadsBack as := by
  intro rest
  have hn := toNat_ofNat_length hlen
  have hle := length_le_flatMap hpos
  rw [show (write as : Bytes) = writeLength (UInt32.ofNat as.length) ++ as.flatMap write from rfl,
    List.append_assoc]
  refine (Reader.bind_of_ok (readLength_writeLength _ _)).trans ?_
  refine (Reader.bind_of_ok rfl).trans ?_
  rw [if_neg (by rw [hn, List.length_append]; omega), hn]
  exact times_flatMap h rest

theorem readsBack_option [Format α] {o : Option α} (h : ∀ a, o = some a → ReadsBack a) :
    ReadsBack o := by
  intro rest
  cases o with
  | none => exact (readsBack_uint8 0).bind _ rest
  | some a =>
    rw [show (write (some a) : Bytes) = write (1 : UInt8) ++ write a from rfl, List.append_assoc]
    exact ((readsBack_uint8 1).bind _ _).trans ((h a rfl).bind _ rest)

end BlockSync.Wire

import BlockSync.Wire.Identity
import Mathlib.Tactic.Common

/-! Identities in hexadecimal digits. A text of as many digits as an identity has halves is one, in
either case, and it is shown again in lower case. Any other text is refused for the first of these
that holds: an odd number of octets, an octet that is no digit, the wrong number of digits. -/

namespace BlockSync.Text

def IsHexDigit (c : Char) : Prop :=
  ('0'.toNat ≤ c.toNat ∧ c.toNat ≤ '9'.toNat) ∨ ('a'.toNat ≤ c.toNat ∧ c.toNat ≤ 'f'.toNat) ∨
    ('A'.toNat ≤ c.toNat ∧ c.toNat ≤ 'F'.toNat)

instance (c : Char) : Decidable (IsHexDigit c) := inferInstanceAs (Decidable (_ ∨ _))

def charOf (b : UInt8) : Char := Char.ofNat b.toNat

section Octets

theorem forall_or_first (P : UInt8 → Prop) [DecidablePred P] (bytes : Bytes) :
    (∀ b ∈ bytes, P b) ∨
      ∃ before b behind, bytes = before ++ b :: behind ∧ (∀ d ∈ before, P d) ∧ ¬ P b := by
  cases hfind : bytes.find? fun b => decide ¬ P b with
  | none => exact .inl (by simpa using List.find?_eq_none.mp hfind)
  | some b =>
    obtain ⟨hb, before, behind, rfl, hbefore⟩ := List.find?_eq_some_iff_append.mp hfind
    exact .inr ⟨before, b, behind, rfl, by simpa using hbefore, by simpa using hb⟩

theorem forall_octet {P : UInt8 → Prop} (h : ∀ i : Fin 256, P (UInt8.ofNat i)) (b : UInt8) :
    P b := by
  have hb := h ⟨b.toNat, b.toNat_lt⟩
  rwa [UInt8.ofNat_toNat] at hb

end Octets

section Digits

variable {b n : UInt8}

theorem hexValue?_table : ∀ b : UInt8, ((hexValue? b).isSome = true ↔ IsHexDigit (charOf b)) ∧
    (hexValue? b).all (fun n => n.toNat < 16 ∧ charOf (hexDigit n) = (charOf b).toLower) = true :=
  forall_octet (by decide +kernel)

theorem exists_hexValue? (h : IsHexDigit (charOf b)) : ∃ n, hexValue? b = some n :=
  Option.isSome_iff_exists.mp ((hexValue?_table b).1.mpr h)

theorem hexValue?_eq_none (h : ¬ IsHexDigit (charOf b)) : hexValue? b = none := by
  rw [← Option.not_isSome_iff_eq_none, (hexValue?_table b).1]
  exact h

theorem of_hexValue? (h : hexValue? b = some n) :
    n.toNat < 16 ∧ charOf (hexDigit n) = (charOf b).toLower := by
  have hall := (hexValue?_table b).2
  rw [h] at hall
  exact of_decide_eq_true hall

theorem hexDigit_table : ∀ n : UInt8, n.toNat < 16 →
    hexValue? (hexDigit n) = some n ∧ (hexDigit n).toNat < 128 :=
  forall_octet (by decide +kernel)

end Digits

section Pairs

variable {index : Nat} {digits before behind bytes : Bytes} {b : UInt8}

theorem toNat_halves {high low : UInt8} (hhigh : high.toNat < 16) (hlow : low.toNat < 16) :
    (high * 16 + low) / 16 = high ∧ (high * 16 + low) % 16 = low := by
  have hsum : (high * 16 + low).toNat = high.toNat * 16 + low.toNat := by
    rw [UInt8.toNat_add, UInt8.toNat_mul, show (16 : UInt8).toNat = 16 from rfl]
    omega
  constructor
  · apply UInt8.toNat_inj.mp
    rw [UInt8.toNat_div, hsum, show (16 : UInt8).toNat = 16 from rfl]
    omega
  · apply UInt8.toNat_inj.mp
    rw [UInt8.toNat_mod, hsum, show (16 : UInt8).toNat = 16 from rfl]
    omega

theorem toNat_halves_lt (b : UInt8) : (b / 16).toNat < 16 ∧ (b % 16).toNat < 16 := by
  have hb := b.toNat_lt
  rw [UInt8.toNat_div, UInt8.toNat_mod, show (16 : UInt8).toNat = 16 from rfl]
  omega

theorem halves_joined (b : UInt8) : b / 16 * 16 + b % 16 = b := by
  have hb := b.toNat_lt
  apply UInt8.toNat_inj.mp
  rw [UInt8.toNat_add, UInt8.toNat_mul, UInt8.toNat_div, UInt8.toNat_mod,
    show (16 : UInt8).toNat = 16 from rfl]
  omega

theorem ofHexDigits_of_digits : ∀ (index : Nat) (digits : Bytes), digits.length % 2 = 0 →
    (∀ d ∈ digits, IsHexDigit (charOf d)) →
    ∃ bytes, ofHexDigits index digits = .ok bytes ∧ bytes.length = digits.length / 2 ∧
      (hexDigits bytes).map charOf = digits.map fun d => (charOf d).toLower
  | _, [], _, _ => ⟨[], rfl, rfl, rfl⟩
  | _, [_], heven, _ => by simp at heven
  | index, high :: low :: digits, heven, hdigits => by
    obtain ⟨hhigh, hdigits⟩ := List.forall_mem_cons.mp hdigits
    obtain ⟨hlow, hdigits⟩ := List.forall_mem_cons.mp hdigits
    obtain ⟨h, hh⟩ := exists_hexValue? hhigh
    obtain ⟨l, hl⟩ := exists_hexValue? hlow
    have heven' : digits.length % 2 = 0 := by
      simp only [List.length_cons] at heven
      omega
    obtain ⟨bytes, hbytes, hlength, hshown⟩ :=
      ofHexDigits_of_digits (index + 2) digits heven' hdigits
    have hhalves := toNat_halves (of_hexValue? hh).1 (of_hexValue? hl).1
    refine ⟨(h * 16 + l) :: bytes, ?_, ?_, ?_⟩
    · simp only [ofHexDigits, hh, hl, hbytes]
    · simp only [List.length_cons, hlength]
      omega
    · rw [hexDigits, hhalves.1, hhalves.2]
      simp only [List.map_cons, (of_hexValue? hh).2, (of_hexValue? hl).2, hshown]

theorem ofHexDigits_of_bad (hb : ¬ IsHexDigit (charOf b)) : ∀ (index : Nat) (before : Bytes),
    (before ++ b :: behind).length % 2 = 0 → (∀ d ∈ before, IsHexDigit (charOf d)) →
    ofHexDigits index (before ++ b :: behind) = .error (.badDigit b (index + before.length))
  | index, [], heven, _ => by
    cases behind with
    | nil => simp at heven
    | cons c behind => simp only [List.nil_append, ofHexDigits, hexValue?_eq_none hb]; rfl
  | index, [d], _, hbefore => by
    obtain ⟨h, hh⟩ := exists_hexValue? (hbefore d List.mem_cons_self)
    simp only [List.cons_append, List.nil_append, ofHexDigits, hh, hexValue?_eq_none hb]
    rfl
  | index, high :: low :: before, heven, hbefore => by
    obtain ⟨hhigh, hbefore⟩ := List.forall_mem_cons.mp hbefore
    obtain ⟨hlow, hbefore⟩ := List.forall_mem_cons.mp hbefore
    obtain ⟨h, hh⟩ := exists_hexValue? hhigh
    obtain ⟨l, hl⟩ := exists_hexValue? hlow
    have heven' : (before ++ b :: behind).length % 2 = 0 := by
      simp only [List.cons_append, List.length_cons] at heven
      omega
    have hrest := ofHexDigits_of_bad hb (index + 2) before heven' hbefore
    have hindex : index + 2 + before.length = index + (high :: low :: before).length := by
      simp only [List.length_cons]
      omega
    simp only [List.cons_append, ofHexDigits, hh, hl, hrest, hindex]

theorem ofHexDigits_hexDigits (index : Nat) (bytes : Bytes) :
    ofHexDigits index (hexDigits bytes) = .ok bytes := by
  induction bytes generalizing index with
  | nil => rfl
  | cons b bytes ih =>
    obtain ⟨hhigh, hlow⟩ := toNat_halves_lt b
    simp only [hexDigits, ofHexDigits, (hexDigit_table _ hhigh).1, (hexDigit_table _ hlow).1, ih,
      halves_joined]

theorem length_hexDigits (bytes : Bytes) : (hexDigits bytes).length = 2 * bytes.length := by
  induction bytes with
  | nil => rfl
  | cons b bytes ih =>
    simp only [hexDigits, List.length_cons, ih]
    omega

theorem toNat_lt_of_mem_hexDigits {d : UInt8} (h : d ∈ hexDigits bytes) : d.toNat < 128 := by
  induction bytes with
  | nil => cases h
  | cons b bytes ih =>
    obtain ⟨hhigh, hlow⟩ := toNat_halves_lt b
    simp only [hexDigits, List.mem_cons] at h
    rcases h with rfl | rfl | h
    · exact (hexDigit_table _ hhigh).2
    · exact (hexDigit_table _ hlow).2
    · exact ih h

end Pairs

section Texts

theorem utf8_eq_flatMap (s : String) : utf8 s = s.toList.flatMap String.utf8EncodeChar := by
  rw [utf8, ← String.utf8Encode_toList, List.utf8Encode]
  simp

/-- A character of several octets starts with one that no character of one octet has. -/
theorem toNat_lt_of_utf8EncodeChar {c : Char}
    (h : ∀ b ∈ String.utf8EncodeChar c, b.toNat < 128) : c.toNat < 128 := by
  by_contra hge
  have hval : ¬ c.val.toNat ≤ 127 := fun hle => hge (Nat.lt_succ_of_le hle)
  rw [String.utf8EncodeChar] at h
  simp only [if_neg hval] at h
  split at h
  · have hfirst := h _ List.mem_cons_self
    rw [UInt8.toNat_ofNat'] at hfirst
    omega
  split at h
  · have hfirst := h _ List.mem_cons_self
    rw [UInt8.toNat_ofNat'] at hfirst
    omega
  · have hfirst := h _ List.mem_cons_self
    rw [UInt8.toNat_ofNat'] at hfirst
    omega

theorem utf8_of_lt {s : String} (h : ∀ c ∈ s.toList, c.toNat < 128) :
    utf8 s = s.toList.map fun c => UInt8.ofNat c.toNat := by
  rw [utf8_eq_flatMap, List.map_eq_flatMap, List.flatMap_def, List.flatMap_def]
  congr 1
  apply List.map_congr_left
  intro c hc
  rw [String.utf8EncodeChar]
  exact if_pos (Nat.le_of_lt_succ (h c hc))

theorem charOf_ofNat_toNat {c : Char} (h : c.toNat < 128) : charOf (UInt8.ofNat c.toNat) = c := by
  rw [charOf, UInt8.toNat_ofNat', Nat.mod_eq_of_lt (by omega), Char.ofNat_toNat]

theorem toNat_charOf (b : UInt8) : (charOf b).toNat = b.toNat := by
  have hvalid : b.toNat.isValidChar := .inl (Nat.lt_trans b.toNat_lt (by decide))
  rw [charOf, Char.ofNat, dif_pos hvalid]
  rfl

theorem ofNat_toNat_charOf (b : UInt8) : UInt8.ofNat (charOf b).toNat = b := by
  rw [toNat_charOf, UInt8.ofNat_toNat]

theorem IsHexDigit.toNat_lt {c : Char} (h : IsHexDigit c) : c.toNat < 128 := by
  rcases h with ⟨-, h⟩ | ⟨-, h⟩ | ⟨-, h⟩
  · exact Nat.lt_of_le_of_lt h (by decide)
  · exact Nat.lt_of_le_of_lt h (by decide)
  · exact Nat.lt_of_le_of_lt h (by decide)

theorem map_charOf_utf8 {s : String} (h : ∀ c ∈ s.toList, IsHexDigit c) :
    (utf8 s).map charOf = s.toList := by
  rw [utf8_of_lt fun c hc => (h c hc).toNat_lt, List.map_map]
  refine (List.map_congr_left ?_).trans (List.map_id _)
  intro c hc
  exact charOf_ofNat_toNat (h c hc).toNat_lt

theorem digits_iff (s : String) :
    (∀ d ∈ utf8 s, IsHexDigit (charOf d)) ↔ ∀ c ∈ s.toList, IsHexDigit c := by
  constructor
  · intro h
    have hshort : ∀ c ∈ s.toList, c.toNat < 128 := by
      intro c hc
      apply toNat_lt_of_utf8EncodeChar
      intro b hb
      rw [← toNat_charOf]
      apply IsHexDigit.toNat_lt
      apply h
      rw [utf8_eq_flatMap]
      exact List.mem_flatMap.mpr ⟨c, hc, hb⟩
    intro c hc
    have hd := h (UInt8.ofNat c.toNat) (by
      rw [utf8_of_lt hshort]
      exact List.mem_map.mpr ⟨c, hc, rfl⟩)
    rwa [charOf_ofNat_toNat (hshort c hc)] at hd
  · intro h d hd
    apply h
    rw [← map_charOf_utf8 h]
    exact List.mem_map.mpr ⟨d, hd, rfl⟩

theorem toList_toLower (s : String) : s.toLower.toList = s.toList.map Char.toLower :=
  String.toList_map

theorem utf8_toHex (bytes : Bytes) : utf8 (toHex bytes) = hexDigits bytes := by
  have htext : (toHex bytes).toList = (hexDigits bytes).map charOf := String.toList_ofList
  have hshort : ∀ c ∈ (toHex bytes).toList, c.toNat < 128 := by
    rw [htext]
    intro c hc
    obtain ⟨d, hd, rfl⟩ := List.mem_map.mp hc
    rw [toNat_charOf]
    exact toNat_lt_of_mem_hexDigits hd
  rw [utf8_of_lt hshort, htext, List.map_map]
  refine (List.map_congr_left ?_).trans (List.map_id _)
  intro d _
  exact ofNat_toNat_charOf d

end Texts

/-- Why octets are not the digits of an identity of a given size. -/
inductive NoIdentity (size : Nat) (digits : Bytes) : Wire.Fault → Prop
  | odd : digits.length % 2 = 1 → NoIdentity size digits (.hex .oddLength)
  | digit {before b behind} : digits.length % 2 = 0 → digits = before ++ b :: behind →
      (∀ d ∈ before, IsHexDigit (charOf d)) → ¬ IsHexDigit (charOf b) →
      NoIdentity size digits (.hex (.badDigit b before.length))
  | size : digits.length % 2 = 0 → (∀ d ∈ digits, IsHexDigit (charOf d)) →
      digits.length / 2 ≠ size → NoIdentity size digits (.size size (digits.length / 2))

section Identities

variable {n : Nat} {s : String} {fault : Wire.Fault}

theorem ofHex_of_digits (hlength : s.length = 2 * n) (hdigits : ∀ c ∈ s.toList, IsHexDigit c) :
    ∃ o : Octets n, Octets.ofHex s = .ok o ∧ o.toHex = s.toLower := by
  have hchars := map_charOf_utf8 hdigits
  have hutf8 : (utf8 s).length = 2 * n := by
    rw [← hlength, ← String.length_toList, ← hchars, List.length_map]
  obtain ⟨bytes, hbytes, hn, hshown⟩ :=
    ofHexDigits_of_digits 0 (utf8 s) (by omega) ((digits_iff s).mpr hdigits)
  have hsize : bytes.length = n := by omega
  refine ⟨⟨bytes, hsize⟩, ?_, ?_⟩
  · rw [Octets.ofHex, ofHex, if_neg (by omega), hbytes]
    exact dif_pos hsize
  · apply String.toList_inj.mp
    calc (toHex bytes).toList = (hexDigits bytes).map charOf := String.toList_ofList
      _ = ((utf8 s).map charOf).map Char.toLower := by rw [hshown, List.map_map]; rfl
      _ = s.toLower.toList := by rw [hchars, toList_toLower]

theorem ofHex_of_noIdentity (h : NoIdentity n (utf8 s) fault) :
    (Octets.ofHex s : Except Wire.Fault (Octets n)) = .error fault := by
  cases h with
  | odd hodd => rw [Octets.ofHex, ofHex, if_pos hodd]
  | @digit before b behind heven hsplit hbefore hb =>
    have heven' : (before ++ b :: behind).length % 2 = 0 := hsplit ▸ heven
    have hbad := ofHexDigits_of_bad hb 0 before heven' hbefore
    rw [← hsplit, Nat.zero_add] at hbad
    rw [Octets.ofHex, ofHex, if_neg (by omega), hbad]
  | size heven hdigits hsize =>
    obtain ⟨bytes, hbytes, hlength, -⟩ := ofHexDigits_of_digits 0 (utf8 s) heven hdigits
    rw [Octets.ofHex, ofHex, if_neg (by omega), hbytes]
    change Octets.ofBytes bytes = _
    rw [Octets.ofBytes, dif_neg (by omega), hlength]

theorem ofHex_cases (n : Nat) (s : String) :
    (s.length = 2 * n ∧ ∀ c ∈ s.toList, IsHexDigit c) ∨ ∃ fault, NoIdentity n (utf8 s) fault := by
  by_cases hodd : (utf8 s).length % 2 = 1
  · exact .inr ⟨_, .odd hodd⟩
  have heven : (utf8 s).length % 2 = 0 := by omega
  rcases forall_or_first (fun d => IsHexDigit (charOf d)) (utf8 s) with
    hdigits | ⟨before, b, behind, hsplit, hbefore, hb⟩
  · by_cases hsize : (utf8 s).length / 2 = n
    · have hchars := map_charOf_utf8 ((digits_iff s).mp hdigits)
      refine .inl ⟨?_, (digits_iff s).mp hdigits⟩
      rw [← String.length_toList, ← hchars, List.length_map]
      omega
    · exact .inr ⟨_, .size heven hdigits hsize⟩
  · exact .inr ⟨_, .digit heven hsplit hbefore hb⟩

theorem exists_ofHex_iff : (∃ o : Octets n, Octets.ofHex s = .ok o) ↔
    s.length = 2 * n ∧ ∀ c ∈ s.toList, IsHexDigit c := by
  constructor
  · rintro ⟨o, ho⟩
    rcases ofHex_cases n s with h | ⟨fault, h⟩
    · exact h
    · rw [ofHex_of_noIdentity h] at ho
      cases ho
  · rintro ⟨hlength, hdigits⟩
    obtain ⟨o, ho, -⟩ := ofHex_of_digits hlength hdigits
    exact ⟨o, ho⟩

theorem toHex_of_ofHex {o : Octets n} (h : Octets.ofHex s = .ok o) : o.toHex = s.toLower := by
  obtain ⟨hlength, hdigits⟩ := exists_ofHex_iff.mp ⟨o, h⟩
  obtain ⟨o', ho', hshown⟩ := ofHex_of_digits hlength hdigits
  rw [h] at ho'
  cases ho'
  exact hshown

theorem ofHex_toHex (o : Octets n) : Octets.ofHex o.toHex = .ok o := by
  have heven : ¬ (hexDigits o.toList).length % 2 = 1 := by
    rw [length_hexDigits]
    omega
  have hread : ofHex o.toHex = .ok o.toList := by
    rw [ofHex, Octets.toHex, utf8_toHex, if_neg heven, ofHexDigits_hexDigits]
  rw [Octets.ofHex, hread]
  exact dif_pos o.length_eq

theorem ofHex_eq_error_iff :
    (Octets.ofHex s : Except Wire.Fault (Octets n)) = .error fault ↔
      NoIdentity n (utf8 s) fault := by
  refine ⟨fun h => ?_, ofHex_of_noIdentity⟩
  rcases ofHex_cases n s with ⟨hlength, hdigits⟩ | ⟨fault', h'⟩
  · obtain ⟨o, ho, -⟩ := ofHex_of_digits hlength hdigits
    rw [h] at ho
    cases ho
  · rw [ofHex_of_noIdentity h'] at h
    cases h
    exact h'

end Identities

/-- Checksums are the texts of 64 digits in either case. They are shown in lower case and read
again, and the first thing that is wrong with any other text is what it is refused for. -/
theorem checksums_are_hex :
    (∀ s, (∃ id : Checksum, Octets.ofHex s = .ok id) ↔
      s.length = 64 ∧ ∀ c ∈ s.toList, IsHexDigit c) ∧
    (∀ s (id : Checksum), Octets.ofHex s = .ok id → id.toHex = s.toLower) ∧
    (∀ id : Checksum, Octets.ofHex id.toHex = .ok id) ∧
    ∀ s fault, (Octets.ofHex s : Except Wire.Fault Checksum) = .error fault ↔
      NoIdentity 32 (utf8 s) fault :=
  ⟨fun _ => exists_ofHex_iff, fun _ _ => toHex_of_ofHex, ofHex_toHex,
    fun _ _ => ofHex_eq_error_iff⟩

/-- Sixteen of each character. -/
def sixteenOfEach (cs : List Char) : String := String.ofList (cs.flatMap (List.replicate 16))

theorem toLower_sixteenOfEach (cs : List Char) :
    (sixteenOfEach cs).toLower = sixteenOfEach (cs.map Char.toLower) := by
  apply String.toList_inj.mp
  rw [toList_toLower, sixteenOfEach, sixteenOfEach, String.toList_ofList, String.toList_ofList,
    List.map_flatMap, List.flatMap_map]
  simp only [List.map_replicate]

/-- Digits of both cases, a letter of two octets between two digits, and two digits alone. -/
theorem checksums_are_hex_of_both_cases :
    (∃ id : Checksum, Octets.ofHex (sixteenOfEach ['A', 'b', '9', 'F']) = .ok id ∧
      id.toHex = sixteenOfEach ['a', 'b', '9', 'f']) ∧
    NoIdentity 32 (utf8 "0é1") (.hex (.badDigit 0xc3 1)) ∧
    NoIdentity 32 (utf8 "0F") (.size 32 1) := by
  obtain ⟨hread, hshown, -, hrefused⟩ := checksums_are_hex
  have hchars : (sixteenOfEach ['A', 'b', '9', 'F']).toList =
      ['A', 'b', '9', 'F'].flatMap (List.replicate 16) := String.toList_ofList
  have hlength : (sixteenOfEach ['A', 'b', '9', 'F']).length = 64 := by
    rw [← String.length_toList, hchars]
    rfl
  have hdigits : ∀ c ∈ (sixteenOfEach ['A', 'b', '9', 'F']).toList, IsHexDigit c := by
    rw [hchars]
    intro c hc
    obtain ⟨d, hd, hmem⟩ := List.mem_flatMap.mp hc
    rw [(List.mem_replicate.mp hmem).2]
    simp only [List.mem_cons, List.not_mem_nil, or_false] at hd
    rcases hd with rfl | rfl | rfl | rfl
    all_goals decide
  refine ⟨?_, ?_, ?_⟩
  · obtain ⟨id, hid⟩ := (hread _).mpr ⟨hlength, hdigits⟩
    exact ⟨id, hid, (hshown _ id hid).trans (toLower_sixteenOfEach _)⟩
  · exact (hrefused _ _).mp rfl
  · exact (hrefused _ _).mp rfl

end BlockSync.Text

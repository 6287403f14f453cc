import BlockSync.Json.Printer
import BlockSync.Json.Reader
import Mathlib.Data.List.TakeWhile
import Mathlib.Tactic.Common

/-! What is printed is read back. On the text of a value, with anything behind it that may stand
behind a value, a reader gives the value and stops where the text did. -/

namespace BlockSync.Json

theorem Reader.bind_ok {α β : Type} {p : Reader α} {f : α → Reader β} {cs left : List Char} {a : α}
    (h : p cs = .ok (a, left)) : (p >>= f) cs = f a left := by
  change (p cs >>= fun x => f x.1 x.2) = f a left
  rw [h]
  rfl

/-- What stands behind a value: the next one, or a new line and the end. -/
inductive Ends : List Char → Prop
  | comma (left : List Char) : Ends (',' :: left)
  | newLine (left : List Char) : Ends ('\n' :: left)

section Strings

variable {fuel : Nat} {cs rest : List Char} {s : List Char}

theorem fourHex_control {n : Nat} (h : n < 0x20) :
    fourHex? '0' '0' (Nat.digitChar (n / 16)) (Nat.digitChar (n % 16)) = some n := by
  revert n
  decide

theorem readCodePoint_control {c : Char} (h : c.toNat < 0x20) :
    readCodePoint ('0' :: '0' :: Nat.digitChar (c.toNat / 16) ::
      Nat.digitChar (c.toNat % 16) :: cs) = .ok (c, cs) := by
  have hhex : readHex ('0' :: '0' :: Nat.digitChar (c.toNat / 16) ::
      Nat.digitChar (c.toNat % 16) :: cs) = .ok (c.toNat, cs) := by
    rw [readHex, fourHex_control h]
  rw [readCodePoint, Reader.bind_ok hhex, if_pos (.inl (Nat.lt_trans h (by decide))),
    Char.ofNat_toNat]
  rfl

theorem readCharacters_escape (c : Char) (h : readCharacters fuel cs = .ok (s, rest)) :
    readCharacters (fuel + 1) (escape c ++ cs) = .ok (c :: s, rest) := by
  have hnext (d : Char) :
      (readCharacters fuel >>= fun s => (pure (d :: s) : Reader (List Char))) cs =
        .ok (d :: s, rest) := Reader.bind_ok h
  unfold escape
  split_ifs with hquote hbackslash hb hf hn hr ht hcontrol
  · subst hquote
    exact hnext '"'
  · subst hbackslash
    exact hnext '\\'
  · exact hb ▸ hnext '\x08'
  · exact hf ▸ hnext '\x0c'
  · exact hn ▸ hnext '\n'
  · exact hr ▸ hnext '\r'
  · exact ht ▸ hnext '\t'
  · change (readCodePoint >>= fun c => readCharacters fuel >>= fun s =>
      (pure (c :: s) : Reader (List Char))) ('0' :: '0' :: Nat.digitChar (c.toNat / 16) ::
        Nat.digitChar (c.toNat % 16) :: cs) = _
    rw [Reader.bind_ok (readCodePoint_control hcontrol)]
    exact hnext c
  · have hlook : Reader.look ([c] ++ cs) = .ok (some c, c :: cs) := rfl
    rw [readCharacters, Reader.bind_ok hlook]
    simp only [hcontrol, if_false]
    exact hnext c

theorem readCharacters_printed (chars rest : List Char) (h : chars.length < fuel) :
    readCharacters fuel (chars.flatMap escape ++ '"' :: rest) = .ok (chars, rest) := by
  induction chars generalizing fuel with
  | nil =>
    obtain ⟨fuel, rfl⟩ := Nat.exists_eq_succ_of_ne_zero (Nat.ne_zero_of_lt h)
    rfl
  | cons c chars ih =>
    obtain ⟨fuel, rfl⟩ := Nat.exists_eq_succ_of_ne_zero (Nat.ne_zero_of_lt h)
    rw [List.flatMap_cons, List.append_assoc]
    exact readCharacters_escape c (ih (Nat.lt_of_succ_lt_succ h))

theorem length_le_flatMap_escape (chars : List Char) :
    chars.length ≤ (chars.flatMap escape).length := by
  induction chars with
  | nil => exact Nat.le_refl _
  | cons c chars ih =>
    have hescape : 1 ≤ (escape c).length := by
      unfold escape
      split_ifs <;> simp
    rw [List.flatMap_cons, List.length_append, List.length_cons]
    omega

theorem readQuoted_printed (s : String) (rest : List Char) :
    readQuoted (printString s ++ rest) = .ok (s, rest) := by
  have hfuel : s.toList.length < (s.toList.flatMap escape ++ '"' :: rest).length + 1 := by
    have := length_le_flatMap_escape s.toList
    rw [List.length_append]
    omega
  have htext : printString s ++ rest = '"' :: (s.toList.flatMap escape ++ '"' :: rest) := by
    rw [printString, List.append_assoc]
    rfl
  rw [htext]
  change (readCharacters ((s.toList.flatMap escape ++ '"' :: rest).length + 1) >>= fun cs =>
    (pure (String.ofList cs) : Reader String)) (s.toList.flatMap escape ++ '"' :: rest) = _
  rw [Reader.bind_ok (readCharacters_printed s.toList rest hfuel), String.ofList_toList]
  rfl

theorem readString_printed (s : String) (rest : List Char) :
    readString (printString s ++ rest) = .ok (s, rest) := readQuoted_printed s rest

theorem readString?_printed (s : Option String) (rest : List Char) :
    readString? (printString? s ++ rest) = .ok (s, rest) := by
  cases s with
  | none => rfl
  | some s =>
    change (readString >>= fun s => (pure (some s) : Reader (Option String)))
      (printString s ++ rest) = _
    rw [Reader.bind_ok (readString_printed s rest)]
    rfl

end Strings

section Numbers

theorem toDigits_leading_zero {n : Nat} {ds : List Char} (h : Nat.toDigits 10 n = '0' :: ds) :
    ds = [] := by
  induction n using Nat.strongRecOn generalizing ds with
  | ind n ih =>
    rw [Nat.toDigits_eq_if (by decide)] at h
    split at h
    · exact (List.cons.inj h).2.symm
    · next hn =>
      -- More digits come before the last one only if they stand for more than zero.
      cases hfirst : Nat.toDigits 10 (n / 10) with
      | nil => exact absurd hfirst Nat.toDigits_ne_nil
      | cons c left =>
        rw [hfirst] at h
        obtain ⟨rfl, -⟩ := List.cons.inj h
        have hleft : left = [] := ih (n / 10) (by omega) hfirst
        have hzero : Nat.ofDigitChars 10 (Nat.toDigits 10 (n / 10)) 0 = 0 := by
          rw [hfirst, hleft]
          rfl
        rw [Nat.ofDigitChars_toDigits (by decide) (by decide)] at hzero
        omega

theorem le_ofDigitChars (ds : List Char) (n : Nat) : n ≤ Nat.ofDigitChars 10 ds n := by
  induction ds generalizing n with
  | nil => exact Nat.le_refl n
  | cons c ds ih =>
    rw [Nat.ofDigitChars_cons]
    exact Nat.le_trans (by omega) (ih _)

theorem significand_of_lt {ds : List Char} {n : Nat}
    (h : Nat.ofDigitChars 10 ds n < UInt64.size) :
    significand n ds = (Nat.ofDigitChars 10 ds n, 0) := by
  induction ds generalizing n with
  | nil => rfl
  | cons c ds ih =>
    rw [Nat.ofDigitChars_cons] at h ⊢
    have hstep : n * 10 + (c.toNat - 0x30) = 10 * n + (c.toNat - '0'.toNat) := by
      rw [Nat.mul_comm]
      rfl
    rw [significand, hstep, if_pos (Nat.lt_of_le_of_lt (le_ofDigitChars ds _) h)]
    exact ih h

theorem isBlank_of_isDigit {c : Char} (h : c.isDigit = true) : Reader.isBlank c = false := by
  rw [Bool.eq_false_iff]
  intro hblank
  simp only [Reader.isBlank, Bool.or_eq_true, beq_iff_eq] at hblank
  rcases hblank with ((rfl | rfl) | rfl) | rfl <;> cases h

theorem digits_printed (n : Nat) {rest : List Char} (h : Ends rest) :
    Reader.digits (printNat n ++ rest) = .ok (printNat n, rest) := by
  have hdigits : ∀ c ∈ printNat n, c.isDigit = true := fun c hc =>
    Nat.isDigit_of_mem_toDigits (by decide) (by decide) hc
  rw [Reader.digits, List.takeWhile_append_of_pos hdigits, List.dropWhile_append_of_pos hdigits]
  cases h with
  | comma left | newLine left =>
    rw [List.takeWhile_cons_of_neg (by decide), List.dropWhile_cons_of_neg (by decide),
      List.append_nil]

theorem exists_printNat_eq (n : Nat) : ∃ c ds, printNat n = c :: ds ∧ c.isDigit = true := by
  cases hdigits : printNat n with
  | nil => exact absurd hdigits Nat.toDigits_ne_nil
  | cons c ds =>
    have hmem : c ∈ printNat n := hdigits ▸ List.mem_cons_self
    exact ⟨c, ds, rfl, Nat.isDigit_of_mem_toDigits (by decide) (by decide) hmem⟩

theorem readMagnitude_printed {n : Nat} (hn : n < UInt64.size) {rest : List Char} (h : Ends rest) :
    readMagnitude false (printNat n ++ rest) = .ok (.natural n, rest) := by
  obtain ⟨c, ds, htext, hc⟩ := exists_printNat_eq n
  have hlook : Reader.look (printNat n ++ rest) = .ok (some c, printNat n ++ rest) := by
    rw [htext]
    rfl
  have hzero : ¬ (c = '0' ∧ (printNat n).length ≠ 1) := by
    rintro ⟨rfl, hlength⟩
    rw [htext, toDigits_leading_zero htext] at hlength
    exact hlength rfl
  have hvalue : Nat.ofDigitChars 10 (printNat n) 0 = n :=
    Nat.ofDigitChars_toDigits (by decide) (by decide)
  have hsignificand : significand 0 (printNat n) = (n, 0) := by
    rw [significand_of_lt (by rw [hvalue]; exact hn), hvalue]
  rw [readMagnitude, Reader.bind_ok hlook]
  simp only [hc, Bool.not_true, Bool.false_eq_true, if_false]
  rw [Reader.bind_ok (digits_printed n h)]
  simp only [if_neg hzero, hsignificand]
  cases h with
  | comma left | newLine left => rfl

theorem readNumber_printed {n : Nat} (hn : n < UInt64.size) {rest : List Char} (h : Ends rest) :
    readNumber (printNat n ++ rest) = .ok (.natural n, rest) := by
  obtain ⟨c, ds, htext, hc⟩ := exists_printNat_eq n
  have hlook : Reader.look (printNat n ++ rest) = .ok (some c, printNat n ++ rest) := by
    rw [htext]
    rfl
  have hsign : some c ≠ some '-' := by
    rintro ⟨rfl⟩
    cases hc
  rw [readNumber, Reader.bind_ok hlook, if_neg hsign]
  exact readMagnitude_printed hn h

theorem readNat_printed {bound n : Nat} (hn : n < bound) (hbound : bound ≤ UInt64.size)
    {rest : List Char} (h : Ends rest) : readNat bound (printNat n ++ rest) = .ok (n, rest) := by
  obtain ⟨c, ds, htext, hc⟩ := exists_printNat_eq n
  have hpeek : Reader.peek (printNat n ++ rest) = .ok (some c, printNat n ++ rest) := by
    rw [htext, Reader.peek, List.cons_append,
      List.dropWhile_cons_of_neg (by simp [isBlank_of_isDigit hc])]
    rfl
  rw [readNat, Reader.bind_ok hpeek]
  simp only [hc, or_true, if_true]
  rw [Reader.bind_ok (readNumber_printed (Nat.lt_of_lt_of_le hn hbound) h)]
  simp only [if_pos hn]
  rfl

end Numbers

section Lists

def printMore (level : Nat) : List (List Char) → List Char
  | [] => []
  | item :: items => ',' :: printItems level (item :: items)

theorem printItems_cons (level : Nat) (item : List Char) (items : List (List Char)) :
    printItems level (item :: items) = newLine level ++ (item ++ printMore level items) := by
  cases items with
  | nil => rw [printItems, printMore, List.append_nil]
  | cons next items =>
    rw [printItems, printMore, List.append_assoc]
    exact List.cons_ne_nil _ _

theorem length_le_printMore (level : Nat) (items : List (List Char)) :
    items.length ≤ (printMore level items).length := by
  induction items with
  | nil => exact Nat.le_refl _
  | cons item items ih =>
    rw [printMore, printItems_cons, List.length_cons, List.length_cons, List.length_append,
      List.length_append]
    omega

theorem peek_newLine (level : Nat) {c : Char} (hc : Reader.isBlank c = false) (cs : List Char) :
    Reader.peek (newLine level ++ c :: cs) = .ok (some c, c :: cs) := by
  have hblank : ∀ d ∈ newLine level, Reader.isBlank d = true := by
    intro d hd
    rcases List.mem_cons.mp hd with rfl | hd
    · rfl
    · rw [List.eq_of_mem_replicate hd]
      rfl
  rw [Reader.peek, List.dropWhile_append_of_pos hblank,
    List.dropWhile_cons_of_neg (by simp [hc])]
  rfl

theorem nextElement_first (level : Nat) (cs : List Char) :
    nextElement true (newLine level ++ '"' :: cs) = .ok (true, '"' :: cs) := by
  rw [nextElement, Reader.bind_ok (peek_newLine level rfl cs)]
  rfl

theorem nextElement_comma (cs : List Char) :
    nextElement false (',' :: cs) = (do
      match ← Reader.peek with
      | none => Reader.fail .ended
      | some ']' => Reader.fail .malformed
      | some _ => return true : Reader Bool) cs := rfl

theorem nextElement_more (level : Nat) (cs : List Char) :
    nextElement false (',' :: (newLine level ++ '"' :: cs)) = .ok (true, '"' :: cs) := by
  rw [nextElement_comma, Reader.bind_ok (peek_newLine level rfl cs)]
  rfl

theorem nextElement_end (first : Bool) (level : Nat) (rest : List Char) :
    nextElement first (newLine level ++ ']' :: rest) = .ok (false, ']' :: rest) := by
  rw [nextElement, Reader.bind_ok (peek_newLine level rfl rest)]
  rfl

theorem readElements_step {fuel : Nat} {first : Bool} {item : String} {items : List String}
    {cs left rest : List Char} (hnext : nextElement first cs = .ok (true, printString item ++ left))
    (hmore : readElements readString fuel false left = .ok (items, rest)) :
    readElements readString (fuel + 1) first cs = .ok (item :: items, rest) := by
  rw [readElements, Reader.bind_ok hnext]
  simp only [if_true]
  rw [Reader.bind_ok (readString_printed item left), Reader.bind_ok hmore]
  rfl

theorem readElements_more {fuel : Nat} {items : List String} (h : items.length < fuel)
    (inner outer : Nat) (rest : List Char) :
    readElements readString fuel false
      (printMore inner (items.map printString) ++ (newLine outer ++ ']' :: rest)) =
        .ok (items, ']' :: rest) := by
  induction items generalizing fuel with
  | nil =>
    obtain ⟨fuel, rfl⟩ := Nat.exists_eq_succ_of_ne_zero (Nat.ne_zero_of_lt h)
    rw [List.map_nil, printMore, List.nil_append, readElements,
      Reader.bind_ok (nextElement_end false outer rest)]
    rfl
  | cons item items ih =>
    obtain ⟨fuel, rfl⟩ := Nat.exists_eq_succ_of_ne_zero (Nat.ne_zero_of_lt h)
    refine readElements_step ?_ (ih (Nat.lt_of_succ_lt_succ h))
    rw [List.map_cons, printMore, printItems_cons, List.cons_append, List.append_assoc,
      List.append_assoc]
    exact nextElement_more inner _

theorem readList_printed (items : List String) (level : Nat) (rest : List Char) :
    readList readString (printList level (items.map printString) ++ rest) = .ok (items, rest) := by
  cases items with
  | nil => rfl
  | cons item items =>
    have htext : printList level ((item :: items).map printString) ++ rest =
        '[' :: (newLine (level + 1) ++ (printString item ++
          (printMore (level + 1) (items.map printString) ++ (newLine level ++ ']' :: rest)))) := by
      rw [printList, if_neg (by simp), List.map_cons, printItems_cons]
      simp only [List.cons_append, List.append_assoc, List.nil_append]
    generalize hleft : newLine (level + 1) ++ (printString item ++
      (printMore (level + 1) (items.map printString) ++ (newLine level ++ ']' :: rest))) = left
      at htext
    have helements : readElements readString (left.length + 1) true left =
        .ok (item :: items, ']' :: rest) := by
      have hfuel : items.length < left.length := by
        have hmore := length_le_printMore (level + 1) (items.map printString)
        rw [List.length_map] at hmore
        simp only [← hleft, List.length_append, List.length_cons]
        omega
      refine readElements_step ?_ (readElements_more hfuel (level + 1) level rest)
      rw [← hleft]
      exact nextElement_first _ _
    rw [htext]
    change (readElements readString (left.length + 1) true >>= fun items =>
      readClose ']' >>= fun _ => (pure items : Reader (List String))) left = _
    rw [Reader.bind_ok helements]
    rfl

end Lists

section Objects

theorem nextKey_first (level : Nat) (cs : List Char) :
    nextKey true (newLine level ++ '"' :: cs) = .ok (true, '"' :: cs) := by
  rw [nextKey, Reader.bind_ok (peek_newLine level rfl cs)]
  rfl

theorem nextKey_comma (cs : List Char) :
    nextKey false (',' :: cs) = (do
      match ← Reader.peek with
      | none => Reader.fail .ended
      | some '"' => return true
      | some _ => Reader.fail .malformed : Reader Bool) cs := rfl

theorem nextKey_more (level : Nat) (cs : List Char) :
    nextKey false (',' :: (newLine level ++ '"' :: cs)) = .ok (true, '"' :: cs) := by
  rw [nextKey_comma, Reader.bind_ok (peek_newLine level rfl cs)]
  rfl

theorem nextKey_end (first : Bool) (level : Nat) (rest : List Char) :
    nextKey first (newLine level ++ '\x7d' :: rest) = .ok (false, '\x7d' :: rest) := by
  rw [nextKey, Reader.bind_ok (peek_newLine level rfl rest)]
  rfl

theorem readEnd_blank {cs : List Char} (h : ∀ c ∈ cs, Reader.isBlank c = true) :
    readEnd cs = .ok ((), []) := by
  have hpeek : Reader.peek cs = .ok (none, []) := by
    rw [Reader.peek, List.dropWhile_eq_nil_iff.mpr h]
    rfl
  rw [readEnd, Reader.bind_ok hpeek]
  rfl

end Objects

end BlockSync.Json

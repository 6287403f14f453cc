import BlockSync.Config.Address
import BlockSync.Proofs.Json.Printed
import Mathlib.Data.List.DropRight

/-! Addresses in writing. A host that no brackets stand around is read back with its port, whether
it is written in brackets or not, and every text that is an address is one of such a host. -/

namespace BlockSync.Address

/-- A host that no brackets stand around. -/
structure Bare (host : String) : Prop where
  nonempty : host ≠ ""
  opening : host.toList.head? ≠ some '['
  closing : host.toList.getLast? ≠ some ']'

section Ports

theorem portDigits_of_lt {ds : List Char} {n : Nat} (hdigits : ∀ c ∈ ds, c.isDigit = true)
    (h : Nat.ofDigitChars 10 ds n < UInt16.size) :
    portDigits n ds = .ok (UInt16.ofNat (Nat.ofDigitChars 10 ds n)) := by
  induction ds generalizing n with
  | nil => rfl
  | cons c ds ih =>
    obtain ⟨hc, hds⟩ := List.forall_mem_cons.mp hdigits
    rw [Nat.ofDigitChars_cons] at h ⊢
    have hstep : n * 10 + (c.toNat - 0x30) = 10 * n + (c.toNat - '0'.toNat) := by
      rw [Nat.mul_comm]
      rfl
    have hlt := Nat.lt_of_le_of_lt (Json.le_ofDigitChars ds _) h
    simp only [portDigits, hc, Bool.not_true, Bool.false_eq_true, if_false, hstep, hlt, if_true]
    exact ih hds h

theorem portOf_of_isDigit {c : Char} (ds : List Char) (h : c.isDigit = true) :
    portOf (c :: ds) = portDigits 0 (c :: ds) := by
  have hsign : c ≠ '+' := by
    rintro rfl
    cases h
  unfold portOf
  split <;> simp_all

theorem portOf_repr (port : UInt16) : portOf port.toNat.repr.toList = .ok port := by
  have hdigits : ∀ c ∈ Nat.toDigits 10 port.toNat, c.isDigit = true := fun c hc =>
    Nat.isDigit_of_mem_toDigits (by decide) (by decide) hc
  have hvalue : Nat.ofDigitChars 10 (Nat.toDigits 10 port.toNat) 0 = port.toNat :=
    Nat.ofDigitChars_ten_toDigits
  have hread : portDigits 0 (Nat.toDigits 10 port.toNat) = .ok port := by
    rw [portDigits_of_lt hdigits (by rw [hvalue]; exact port.toNat_lt), hvalue,
      UInt16.ofNat_toNat]
  rw [Nat.toList_repr]
  obtain ⟨c, ds, htext, hc⟩ := Json.exists_printNat_eq port.toNat
  rw [Json.printNat] at htext
  rw [htext] at hread ⊢
  rw [portOf_of_isDigit ds hc, hread]

theorem colon_notMem_repr (n : Nat) : ':' ∉ n.repr.toList := by
  rw [Nat.toList_repr]
  intro hmem
  exact absurd (Nat.isDigit_of_mem_toDigits (by decide) (by decide) hmem) (by decide)

end Ports

section Hosts

variable {cs : List Char}

theorem dropWhile_eq_self {c : Char} (h : cs.head? ≠ some c) :
    cs.dropWhile (· = c) = cs := by
  cases cs with
  | nil => rfl
  | cons d cs =>
    have hd : d ≠ c := fun hd => h (congrArg some hd)
    rw [List.dropWhile_cons_of_neg (by simpa using hd)]

theorem head?_dropWhile_ne (c : Char) (cs : List Char) :
    (cs.dropWhile (· = c)).head? ≠ some c := by
  intro hhead
  have hnot := List.head?_dropWhile_not (fun d => decide (d = c)) cs
  rw [hhead] at hnot
  simp at hnot

theorem trimBrackets_surrounded (opening closing : Nat) (hne : cs ≠ [])
    (hfirst : cs.head? ≠ some '[') (hlast : cs.getLast? ≠ some ']') :
    trimBrackets (List.replicate opening '[' ++ (cs ++ List.replicate closing ']')) = cs := by
  have hopening : (List.replicate opening '[' ++ (cs ++ List.replicate closing ']')).dropWhile
      (· = '[') = cs ++ List.replicate closing ']' := by
    rw [List.dropWhile_append_of_pos (by simp), dropWhile_eq_self]
    rwa [List.head?_append_of_ne_nil cs hne]
  have hclosing : (List.replicate closing ']' ++ cs.reverse).dropWhile (· = ']') =
      cs.reverse := by
    rw [List.dropWhile_append_of_pos (by simp), dropWhile_eq_self]
    rwa [List.head?_reverse]
  rw [trimBrackets, hopening, List.reverse_append, List.reverse_replicate, hclosing,
    List.reverse_reverse]

theorem head?_trimBrackets (cs : List Char) : (trimBrackets cs).head? ≠ some '[' := by
  -- What is left in the end begins as what was left at the front did.
  obtain ⟨tail, htail⟩ : trimBrackets cs <+: cs.dropWhile (· = '[') :=
    List.rdropWhile_prefix (· = ']') _
  intro hhead
  refine head?_dropWhile_ne '[' cs ?_
  rw [← htail, List.head?_append, hhead]
  rfl

theorem getLast?_trimBrackets (cs : List Char) : (trimBrackets cs).getLast? ≠ some ']' := by
  rw [trimBrackets, List.getLast?_reverse]
  exact head?_dropWhile_ne ']' _

theorem splitAtColon_append (before : List Char) {after : List Char} (h : ':' ∉ after) :
    splitAtColon (before ++ ':' :: after) = some (before, after) := by
  have hreverse : (before ++ ':' :: after).reverse = after.reverse ++ ':' :: before.reverse := by
    simp
  have hafter : ∀ c ∈ after.reverse, decide (c ≠ ':') = true := by
    intro c hc
    refine decide_eq_true fun hcolon => ?_
    rw [hcolon] at hc
    exact h (List.mem_reverse.mp hc)
  rw [splitAtColon, hreverse, List.dropWhile_append_of_pos hafter,
    List.takeWhile_append_of_pos hafter]
  simp

end Hosts

variable {host text : String} {port : UInt16} {a : Address}

theorem ofText_surrounded (h : Bare host) (opening closing : Nat) (port : UInt16)
    (htext : text.toList = List.replicate opening '[' ++
      (host.toList ++ List.replicate closing ']') ++ ':' :: port.toNat.repr.toList) :
    ofText text = .ok ⟨host, port⟩ := by
  have hne : host.toList ≠ [] := fun hnil => h.nonempty (String.toList_eq_nil_iff.mp hnil)
  have hhost := trimBrackets_surrounded opening closing hne h.opening h.closing
  have hfull : host.toList.isEmpty = false := List.isEmpty_eq_false_iff.mpr hne
  simp only [ofText, htext, splitAtColon_append _ (colon_notMem_repr _), hhost, hfull,
    Bool.false_eq_true, if_false, portOf_repr, String.ofList_toList]

theorem ofText_plain (h : Bare host) (port : UInt16) :
    ofText (host ++ ":" ++ port.toNat.repr) = .ok ⟨host, port⟩ := by
  refine ofText_surrounded h 0 0 port ?_
  simp

theorem ofText_bracketed (h : Bare host) (port : UInt16) :
    ofText ("[" ++ host ++ "]:" ++ port.toNat.repr) = .ok ⟨host, port⟩ := by
  refine ofText_surrounded h 1 1 port ?_
  simp

theorem bare_of_ofText (h : ofText text = .ok a) : Bare a.host := by
  unfold ofText at h
  split at h
  · cases h
  next before after hsplit =>
  dsimp only at h
  split at h
  · cases h
  next hfull =>
  split at h
  · cases h
    constructor
    · intro hempty
      rw [String.ofList_eq_empty_iff] at hempty
      exact hfull (List.isEmpty_iff.mpr hempty)
    · rw [String.toList_ofList]
      exact head?_trimBrackets before
    · rw [String.toList_ofList]
      exact getLast?_trimBrackets before
  · cases h

/-- A host that no brackets stand around and a port are read back, with brackets around the host or
without. Whatever text is an address, its host is of this kind, so that the address in brackets is
the same address again. -/
theorem writing_is_normalised :
    (∀ host port, Bare host →
      ofText (host ++ ":" ++ port.toNat.repr) = .ok ⟨host, port⟩ ∧
      ofText ("[" ++ host ++ "]:" ++ port.toNat.repr) = .ok ⟨host, port⟩) ∧
    ∀ text host port, ofText text = .ok ⟨host, port⟩ →
      Bare host ∧ ofText ("[" ++ host ++ "]:" ++ port.toNat.repr) = .ok ⟨host, port⟩ := by
  constructor
  · exact fun host port h => ⟨ofText_plain h port, ofText_bracketed h port⟩
  · intro text host port h
    have hbare : Bare host := bare_of_ofText h
    exact ⟨hbare, ofText_bracketed hbare port⟩

theorem writing_is_normalised_of_brackets :
    Bare "fe80::1%eth0" ∧ ofText "fe80::1%eth0:65535" = .ok ⟨"fe80::1%eth0", 65535⟩ ∧
      ofText "[fe80::1%eth0]:65535" = .ok ⟨"fe80::1%eth0", 65535⟩ ∧
      ofText "[[::1:+00443" = .ok ⟨"::1", 443⟩ ∧ Bare "::1" ∧
      ofText "[::1]:443" = .ok ⟨"::1", 443⟩ := by
  obtain ⟨hwritten, hread⟩ := writing_is_normalised
  have hscoped : Bare "fe80::1%eth0" := ⟨by decide, by decide, by decide⟩
  have hodd : ofText "[[::1:+00443" = .ok ⟨"::1", 443⟩ := by decide +kernel
  obtain ⟨hplain, hbracketed⟩ := hwritten _ 65535 hscoped
  obtain ⟨hbare, hagain⟩ := hread _ _ _ hodd
  exact ⟨hscoped, hplain, hbracketed, hodd, hbare, hagain⟩

end BlockSync.Address

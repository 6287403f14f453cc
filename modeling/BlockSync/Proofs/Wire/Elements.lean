import BlockSync.Proofs.Wire.Canonical

/-! Lists behind their counts. A count above the octets left is refused before room is made for so
many elements. Nothing that could be read is lost that way, since no element is read from nothing,
and no count makes a reader ask for more room than there are octets. -/

namespace BlockSync.Wire

variable {α β : Type}

structure Room where
  capacity : Nat
  left : Nat
  deriving DecidableEq

def Recorded (α : Type) := Bytes → (Except Fault α × Bytes) × List Room

namespace Recorded

protected def pure (a : α) : Recorded α := fun input => ((.ok a, input), [])

protected def bind (r : Recorded α) (f : α → Recorded β) : Recorded β := fun input =>
  match r input with
  | ((.ok a, rest), rooms) => ((f a rest).1, rooms ++ (f a rest).2)
  | ((.error fault, rest), rooms) => ((.error fault, rest), rooms)

instance : Monad Recorded where
  pure := Recorded.pure
  bind := Recorded.bind

def ofReader (r : Reader α) : Recorded α := fun input => (r input, [])

def makeRoom (capacity : Nat) : Recorded Unit :=
  fun input => ((.ok (), input), [⟨capacity, input.length⟩])

def readList [Format α] : Recorded (List α) := do
  let n ← ofReader readLength
  let left ← ofReader Reader.remaining
  if left < n.toNat then ofReader (Reader.fail (.endOfInput n.toNat left))
  makeRoom n.toNat
  ofReader (Reader.times read n.toNat)

theorem ofReader_bind_of_ok {r : Reader α} {f : α → Recorded β} {input rest : Bytes} {a : α}
    (h : r input = (.ok a, rest)) : (ofReader r >>= f) input = f a rest := by
  change Recorded.bind (ofReader r) f input = f a rest
  simp only [Recorded.bind, ofReader, h, List.nil_append]

theorem ofReader_bind_of_error {r : Reader α} {f : α → Recorded β} {input rest : Bytes}
    {fault : Fault} (h : r input = (.error fault, rest)) :
    (ofReader r >>= f) input = ((.error fault, rest), []) := by
  change Recorded.bind (ofReader r) f input = _
  simp only [Recorded.bind, ofReader, h]

end Recorded

open Recorded (readList ofReader_bind_of_ok ofReader_bind_of_error)

section

variable [Format α]

theorem readList_cases (input : Bytes) :
    (∃ fault rest, readList (α := α) input = ((.error fault, rest), []) ∧
      (read : Reader (List α)) input = (.error fault, rest)) ∨
    ∃ n rest, n ≤ rest.length ∧
      readList (α := α) input = (Reader.times read n rest, [⟨n, rest.length⟩]) ∧
      (read : Reader (List α)) input = Reader.times read n rest := by
  rcases hlength : readLength input with ⟨fault | n, rest⟩
  · exact .inl ⟨fault, rest, ofReader_bind_of_error hlength, Reader.bind_of_error hlength⟩
  have hleft : Reader.remaining rest = (.ok rest.length, rest) := rfl
  by_cases hcount : rest.length < n.toNat
  · refine .inl ⟨.endOfInput n.toNat rest.length, rest, ?_, ?_⟩
    · refine (ofReader_bind_of_ok hlength).trans ((ofReader_bind_of_ok hleft).trans ?_)
      rw [if_pos hcount]
      rfl
    · refine (Reader.bind_of_ok hlength).trans ((Reader.bind_of_ok hleft).trans ?_)
      rw [if_pos hcount]
      rfl
  · refine .inr ⟨n.toNat, rest, Nat.not_lt.mp hcount, ?_, ?_⟩
    · refine (ofReader_bind_of_ok hlength).trans ((ofReader_bind_of_ok hleft).trans ?_)
      rw [if_neg hcount]
      rfl
    · refine (Reader.bind_of_ok hlength).trans ((Reader.bind_of_ok hleft).trans ?_)
      rw [if_neg hcount]

variable [Laid α] [Solid α] {n : Nat} {input rest : Bytes} {as : List α}

theorem length_of_times (h : Reader.times read n input = (.ok as, rest)) :
    as.length = n ∧ n ≤ input.length := by
  obtain ⟨parts, ⟨hlength, -, hparts⟩, rfl⟩ := finds_times n _ _ _ h
  have hle := length_le_of_spelling hparts
  rw [List.length_append]
  omega

theorem read_list_eq_ok_iff :
    (read : Reader (List α)) input = (.ok as, rest) ↔ readElements input = (.ok as, rest) := by
  constructor
  · intro h
    obtain ⟨n, mid, hlength, h⟩ := Reader.of_bind_ok h
    obtain ⟨left, mid', hleft, htimes⟩ := Reader.of_bind_ok h
    cases hleft
    split at htimes
    · cases htimes
    · exact (Reader.bind_of_ok hlength).trans htimes
  · intro h
    obtain ⟨n, mid, hlength, htimes⟩ := Reader.of_bind_ok h
    have hleft : Reader.remaining mid = (.ok mid.length, mid) := rfl
    have hcount := (length_of_times htimes).2
    refine (Reader.bind_of_ok hlength).trans ((Reader.bind_of_ok hleft).trans ?_)
    rw [if_neg (Nat.not_lt.mpr hcount)]
    exact htimes

end

/-- What the test of the count does to the reading of a list, and what it is for. -/
structure CountTested (α : Type) [Format α] : Prop where
  /-- What can be read element by element is read with the test, and nothing else. -/
  harmless : ∀ input (as : List α) rest,
    read input = (.ok as, rest) ↔ readElements input = (.ok as, rest)
  recorded : ∀ input, (readList (α := α) input).1 = read input
  bounded : ∀ input, ∀ room ∈ (readList (α := α) input).2, room.capacity ≤ room.left
  sufficient : ∀ input (as : List α) rest, read input = (.ok as, rest) →
    ∃ left, (readList (α := α) input).2 = [⟨as.length, left⟩]

theorem countTested [Format α] [Laid α] [Solid α] : CountTested α := by
  constructor
  · exact fun _ _ _ => read_list_eq_ok_iff
  · intro input
    rcases readList_cases (α := α) input with ⟨_, _, hlist, hread⟩ | ⟨_, _, -, hlist, hread⟩
    · rw [hlist, hread]
    · rw [hlist, hread]
  · intro input room hroom
    rcases readList_cases (α := α) input with ⟨_, _, hlist, -⟩ | ⟨n, rest, hle, hlist, -⟩
    · rw [hlist] at hroom
      cases hroom
    · rw [hlist] at hroom
      cases List.mem_singleton.mp hroom
      exact hle
  · intro input as rest h
    rcases readList_cases (α := α) input with ⟨_, _, -, hread⟩ | ⟨n, mid, -, hlist, hread⟩
    · rw [hread] at h
      cases h
    · rw [hread] at h
      rw [hlist, (length_of_times h).1]
      exact ⟨mid.length, rfl⟩

/-- Of the elements that lists are made of, all are read as if the count had not been tested, and
none has more room made for it than there are octets left. -/
theorem counts_are_tested_early :
    CountTested Checksum ∧ CountTested ProducerKey ∧ CountTested HeaderExtension :=
  ⟨countTested, countTested, countTested⟩

example : readList (α := HeaderExtension) [0xff, 0xff, 0xff, 0xff, 0x0f, 0x01, 0x02, 0x03] =
    ((.error (.endOfInput 0xffffffff 3), [0x01, 0x02, 0x03]), []) := rfl

end BlockSync.Wire

import BlockSync.Proofs.Wire.MessageRoundTrip
import BlockSync.Wire.Frame

/-! How a stream falls into frames. The rules say it for every stream in one way, and frames that
messages were written as fall out of the stream again. A writer checks no length, so a message that
is too short or too long for the reader ends the stream. -/

namespace BlockSync

open Wire

namespace Wire

theorem littleEndian_ofLittleEndian (bytes : Bytes) :
    littleEndian bytes.length (ofLittleEndian bytes) = bytes := by
  induction bytes with
  | nil => rfl
  | cons b rest ih =>
    have hb := b.toNat_lt
    have hlow : (b.toNat + 256 * ofLittleEndian rest) % 256 = b.toNat := by omega
    have hhigh : (b.toNat + 256 * ofLittleEndian rest) / 256 = ofLittleEndian rest := by omega
    rw [List.length_cons, littleEndian, ofLittleEndian, hlow, hhigh, ih, UInt8.ofNat_toNat]

theorem ofLittleEndian_lt (bytes : Bytes) : ofLittleEndian bytes < 256 ^ bytes.length := by
  induction bytes with
  | nil => decide
  | cons b rest ih =>
    have hb := b.toNat_lt
    rw [List.length_cons, pow_succ, ofLittleEndian]
    omega

theorem length_write_uint32 (n : UInt32) : (write n : Bytes).length = 4 :=
  length_littleEndian 4 n.toNat

theorem exists_write_uint32 {bytes : Bytes} (h : bytes.length = 4) :
    ∃ n : UInt32, bytes = write n := by
  have hlt := ofLittleEndian_lt bytes
  rw [h] at hlt
  refine ⟨UInt32.ofNat (ofLittleEndian bytes), ?_⟩
  have hn : (UInt32.ofNat (ofLittleEndian bytes)).toNat = ofLittleEndian bytes := by
    rw [UInt32.toNat_ofNat']
    exact Nat.mod_eq_of_lt (by omega)
  change bytes = littleEndian 4 _
  rw [hn, ← h, littleEndian_ofLittleEndian]

theorem ofLittleEndian_write_uint32 (n : UInt32) :
    UInt32.ofNat (ofLittleEndian (write n)) = n := by
  have hn : ofLittleEndian (littleEndian 4 n.toNat) = n.toNat :=
    ofLittleEndian_littleEndian (by have := n.toNat_lt; omega)
  change UInt32.ofNat (ofLittleEndian (littleEndian 4 n.toNat)) = n
  rw [hn, UInt32.ofNat_toNat]

theorem read_uint32_of_short {bytes : Bytes} (h : bytes.length < 4) :
    (read : Reader UInt32) bytes = (.error (.endOfInput 4 bytes.length), bytes) := by
  have ht : Reader.take 4 bytes = (.error (.endOfInput 4 bytes.length), bytes) := if_pos h
  change Reader.bind (Reader.bind (Reader.take 4) _) _ bytes = _
  simp only [Reader.bind, ht]

end Wire

namespace Frame

/-- The frames of a stream, and what is left of it behind a length that is refused. -/
inductive Splits : Bytes → List Frame → Bytes → Prop
  | whole {length : UInt32} {tag payload rest fs left} : admits length = true →
      payload.length + 1 = length.toNat → Splits rest fs left →
      Splits (write length ++ tag :: (payload ++ rest)) (⟨tag, payload⟩ :: fs) left
  | refused {length : UInt32} {rest} : admits length = false → Splits (write length ++ rest) [] rest
  | broken {length : UInt32} {part} : admits length = true → part.length < length.toNat →
      Splits (write length ++ part) [] []
  | ended {part} : part.length < 4 → Splits part [] []

theorem admits_iff (length : UInt32) :
    admits length = true ↔ 2 ≤ length.toNat ∧ length.toNat < 5 * 1024 * 1024 := by
  rw [admits, Bool.and_eq_true, decide_eq_true_eq, decide_eq_true_eq, UInt32.le_iff_toNat_le,
    UInt32.lt_iff_toNat_lt]
  rfl

theorem splits_of_parts {length tag payload : Bytes} (hlength : length.length = 4)
    (hadmits : admits (UInt32.ofNat (ofLittleEndian length)) = true) (htag : tag.length = 1)
    (hpayload : payload.length = (UInt32.ofNat (ofLittleEndian length)).toNat - 1) :
    Splits (length ++ (tag ++ payload)) [⟨tag.headD 0, payload⟩] [] := by
  -- The length is what its octets say, and the tag is one octet.
  obtain ⟨n, rfl⟩ := exists_write_uint32 hlength
  obtain ⟨b, rfl⟩ := List.length_eq_one_iff.mp htag
  rw [ofLittleEndian_write_uint32] at hadmits hpayload
  have hleast := ((admits_iff n).mp hadmits).1
  have hsplits : Splits (write n ++ b :: (payload ++ [])) [⟨b, payload⟩] [] :=
    .whole hadmits (by omega) (.ended (by decide))
  rwa [List.append_nil] at hsplits

theorem exists_splits (input : Bytes) : ∃ fs left, Splits input fs left := by
  induction hn : input.length using Nat.strongRecOn generalizing input with
  | _ n ih =>
  by_cases hshort : input.length < 4
  · exact ⟨_, _, .ended hshort⟩
  have hfour : (input.take 4).length = 4 := by
    rw [List.length_take]
    omega
  obtain ⟨length, hlength⟩ := exists_write_uint32 hfour
  rw [← List.take_append_drop 4 input, hlength]
  have hrest : (input.drop 4).length = n - 4 := by rw [List.length_drop, hn]
  generalize input.drop 4 = rest at hrest
  cases hadmits : admits length with
  | false => exact ⟨_, _, .refused hadmits⟩
  | true =>
  by_cases hbroken : rest.length < length.toNat
  · exact ⟨_, _, .broken hadmits hbroken⟩
  have hpos := ((admits_iff length).mp hadmits).1
  cases rest with
  | nil =>
    rw [List.length_nil] at hbroken
    omega
  | cons tag rest =>
    rw [List.length_cons] at hbroken hrest
    -- What follows the first frame is a shorter stream.
    have hdrop : (rest.drop (length.toNat - 1)).length < n := by
      rw [List.length_drop]
      omega
    obtain ⟨fs, left, hs⟩ := ih _ hdrop _ rfl
    have hwhole : (rest.take (length.toNat - 1)).length + 1 = length.toNat := by
      rw [List.length_take]
      omega
    rw [← List.take_append_drop (length.toNat - 1) rest]
    exact ⟨_, _, .whole hadmits hwhole hs⟩

theorem split_of_splits {input left : Bytes} {fs : List Frame} (h : Splits input fs left)
    {fuel : ℕ} (hfuel : input.length ≤ fuel) : split admits (fuel + 1) input = fs := by
  induction h generalizing fuel with
  | @whole length tag payload rest fs left hadmits hlen _ ih =>
    rw [List.length_append, List.length_cons, List.length_append] at hfuel
    obtain ⟨fuel, rfl⟩ : ∃ k, fuel = k + 1 := ⟨fuel - 1, by omega⟩
    have hpayload : length.toNat - 1 = payload.length := by omega
    have hroom : ¬ (payload ++ rest).length < payload.length := by
      rw [List.length_append]
      omega
    rw [split, readsBack_uint32 length]
    simp only [hadmits, hpayload, if_neg hroom, List.take_left, List.drop_left, Bool.not_true]
    rw [ih (by omega)]
    rfl
  | @refused length rest hadmits =>
    rw [split, readsBack_uint32 length]
    simp only [hadmits, Bool.not_false, if_true]
  | @broken length part hadmits hshort =>
    rw [split, readsBack_uint32 length]
    cases part with
    | nil => simp only [hadmits, Bool.not_true]; rfl
    | cons tag rest =>
      rw [List.length_cons] at hshort
      have hroom : rest.length < length.toNat - 1 := by omega
      simp only [hadmits, Bool.not_true, if_pos hroom]
      rfl
  | @ended part hshort => rw [split, read_uint32_of_short hshort]

theorem Splits.all_eq {input left : Bytes} {fs : List Frame} (h : Splits input fs left) :
    all input = fs := split_of_splits h (Nat.le_refl _)

theorem splits_all (input : Bytes) : ∃ left, Splits input (all input) left := by
  obtain ⟨fs, left, h⟩ := exists_splits input
  rw [h.all_eq]
  exact ⟨left, h⟩

end Frame

namespace Message

def Deliverable (m : Message) : Prop :=
  1 ≤ m.payload.length ∧ m.payload.length ≤ 5 * 1024 * 1024 - 2

/-- What the reader of a message's frame is to see. -/
def seen (m : Message) : Frame := ⟨m.kind.tag, m.payload⟩

theorem exists_length {m : Message} (h : m.payload.length + 1 < UInt32.size) :
    ∃ length : UInt32, length.toNat = m.payload.length + 1 ∧
      m.frame = write length ++ m.kind.tag :: m.payload := by
  refine ⟨UInt32.ofNat m.payload.length + 1, ?_, ?_⟩
  · rw [UInt32.toNat_add, toNat_ofNat_length (by omega)]
    exact Nat.mod_eq_of_lt h
  · rw [frame, write_uint8, List.append_assoc, List.singleton_append]

theorem length_le_write_string (s : String) : (Text.utf8 s).length ≤ (write s : Bytes).length := by
  change _ ≤ (writeLength _ ++ Text.utf8 s).length
  rw [List.length_append]
  omega

theorem length_le_write_ids (ids : List Checksum) : ids.length ≤ (write ids : Bytes).length := by
  have hpos : ∀ id ∈ ids, 0 < (write id : Bytes).length := fun id _ => by
    change 0 < id.toList.length
    rw [id.length_eq]
    decide
  have hle := length_le_flatMap hpos
  change _ ≤ (writeLength _ ++ ids.flatMap write).length
  rw [List.length_append]
  omega

theorem length_le_write_idList (l : IdList) : l.ids.length ≤ (write l : Bytes).length := by
  have hids := length_le_write_ids l.ids
  change _ ≤ (write l.mode ++ write l.pending ++ write l.ids : Bytes).length
  simp only [List.length_append]
  omega

theorem idLists_fit {a b : IdList} (h : (write a ++ write b : Bytes).length < UInt32.size) :
    a.Fits ∧ b.Fits := by
  have ha := length_le_write_idList a
  have hb := length_le_write_idList b
  rw [List.length_append] at h
  constructor
  · unfold IdList.Fits
    omega
  · unfold IdList.Fits
    omega

theorem fits_of_length {m : Message} (h : m.payload.length < UInt32.size) : m.Fits := by
  cases m with
  | handshake m =>
    have hp := length_le_write_string m.p2pAddress
    have ho := length_le_write_string m.os
    have ha := length_le_write_string m.agent
    change (_ ++ _ ++ _ ++ _ ++ _ ++ _ ++ _ ++ write m.p2pAddress ++ _ ++ _ ++ _ ++ _ ++
      write m.os ++ write m.agent ++ _ : Bytes).length < _ at h
    simp only [List.length_append] at h
    exact ⟨by unfold Short; omega, by unfold Short; omega, by unfold Short; omega⟩
  | notice m => exact idLists_fit (a := m.transactions) (b := m.blocks) h
  | request m => exact idLists_fit (a := m.transactions) (b := m.blocks) h
  | _ => trivial

theorem ofPayload_seen {m : Message} (h : m.Deliverable) :
    Message.ofPayload m.seen.tag m.seen.payload = .ok m := by
  refine ofPayload_payload (fits_of_length ?_)
  have hle := h.2
  rw [UInt32.size]
  omega

theorem Deliverable.lt_size {m : Message} (h : m.Deliverable) :
    m.payload.length + 1 < UInt32.size := by
  have hle := h.2
  rw [UInt32.size]
  omega

end Message

namespace Frame

theorem Splits.written {input left : Bytes} {fs : List Frame} (h : Splits input fs left)
    {ms : List Message} (hms : ∀ m ∈ ms, m.Deliverable) :
    Splits (ms.flatMap Message.frame ++ input) (ms.map Message.seen ++ fs) left := by
  induction ms with
  | nil => exact h
  | cons m ms ih =>
    obtain ⟨hm, hms⟩ := List.forall_mem_cons.mp hms
    obtain ⟨length, hlength, hframe⟩ := Message.exists_length hm.lt_size
    have hadmits : admits length = true := by
      obtain ⟨hlow, hhigh⟩ := hm
      rw [admits_iff, hlength]
      omega
    have hsplits : Splits (write length ++ m.kind.tag ::
        (m.payload ++ (ms.flatMap Message.frame ++ input)))
        (m.seen :: (ms.map Message.seen ++ fs)) left := .whole hadmits hlength.symm (ih hms)
    rw [List.flatMap_cons, List.map_cons, hframe]
    simpa only [List.append_assoc, List.cons_append] using hsplits

theorem splits_undeliverable {m : Message} (hm : ¬ m.Deliverable)
    (hlen : m.payload.length + 1 < UInt32.size) (rest : Bytes) :
    Splits (m.frame ++ rest) [] (m.kind.tag :: (m.payload ++ rest)) := by
  obtain ⟨length, hlength, hframe⟩ := Message.exists_length hlen
  have hadmits : admits length = false := by
    rw [← Bool.not_eq_true, admits_iff, hlength]
    rintro ⟨hlow, hhigh⟩
    exact hm ⟨by omega, by omega⟩
  rw [hframe, List.append_assoc, List.cons_append]
  exact .refused hadmits

theorem all_written {ms : List Message} (hms : ∀ m ∈ ms, m.Deliverable) :
    all (ms.flatMap Message.frame) = ms.map Message.seen := by
  have hsplits : Splits [] [] [] := .ended (by decide)
  have hall := (hsplits.written hms).all_eq
  rwa [List.append_nil, List.append_nil] at hall

theorem all_undeliverable {ms : List Message} {m : Message} (hms : ∀ m ∈ ms, m.Deliverable)
    (hm : ¬ m.Deliverable) (hlen : m.payload.length + 1 < UInt32.size) (rest : Bytes) :
    all (ms.flatMap Message.frame ++ (m.frame ++ rest)) = ms.map Message.seen := by
  have hall := ((splits_undeliverable hm hlen rest).written hms).all_eq
  rwa [List.append_nil] at hall

end Frame

end BlockSync

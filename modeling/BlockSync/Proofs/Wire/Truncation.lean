import BlockSync.Proofs.Wire.MessageRoundTrip

/-! What breaks off is noticed. Wherever an encoding is cut, its reader comes to the end of the
input before anything else can be wrong, so no encoding begins another one of its kind. -/

namespace BlockSync

open Wire

namespace Wire

variable {α β : Type}

/-- Wherever certain octets break off, the reader wants more of them. -/
def Starves (r : Reader α) (bytes : Bytes) : Prop :=
  ∀ part lost, part ++ lost = bytes → lost ≠ [] →
    ∃ needed left, r.value part = .error (.endOfInput needed left)

variable {r : Reader α} {f : α → Reader β} {bytes bytes' : Bytes} {a : α}

theorem starves_nil (r : Reader α) : Starves r [] := by
  intro part lost heq hlost
  exact absurd (List.append_eq_nil_iff.mp heq).2 hlost

theorem Reader.value_bind_of_error {input : Bytes} {fault : Fault}
    (h : r.value input = .error fault) : (r >>= f).value input = .error fault := by
  have hread : r input = (.error fault, (r input).2) := Prod.ext h rfl
  rw [Reader.value, Reader.bind_of_error hread]

theorem Reader.value_bind_of_ok {input rest : Bytes} (h : r input = (.ok a, rest)) :
    (r >>= f).value input = (f a).value rest := by
  rw [Reader.value, Reader.bind_of_ok h, Reader.value]

theorem Starves.andThen (h : Starves r bytes) : Starves (r >>= f) bytes := by
  intro part lost heq hlost
  obtain ⟨needed, left, hfault⟩ := h part lost heq hlost
  exact ⟨needed, left, Reader.value_bind_of_error hfault⟩

theorem Starves.bind (h : Starves r bytes) (hread : ∀ rest, r (bytes ++ rest) = (.ok a, rest))
    (hf : Starves (f a) bytes') : Starves (r >>= f) (bytes ++ bytes') := by
  intro part lost heq hlost
  rcases List.append_eq_append_iff.mp heq with ⟨missing, hbytes, rfl⟩ | ⟨more, rfl, hbytes'⟩
  · by_cases hmissing : missing = []
    · subst hmissing
      rw [List.append_nil] at hbytes
      subst hbytes
      obtain ⟨needed, left, hfault⟩ := hf [] bytes' rfl hlost
      have hpart := hread []
      rw [List.append_nil] at hpart
      rw [Reader.value_bind_of_ok hpart]
      exact ⟨needed, left, hfault⟩
    · exact Starves.andThen h part missing hbytes.symm hmissing
  · obtain ⟨needed, left, hfault⟩ := hf more lost hbytes'.symm hlost
    rw [Reader.value_bind_of_ok (hread more)]
    exact ⟨needed, left, hfault⟩

theorem starves_take {n : Nat} (h : bytes.length = n) : Starves (Reader.take n) bytes := by
  intro part lost heq hlost
  have hlength : part.length < n := by
    have hpos := List.length_pos_iff.mpr hlost
    rw [← h, ← heq, List.length_append]
    omega
  refine ⟨n, part.length, ?_⟩
  rw [Reader.value, Reader.take, if_pos hlength]

theorem starves_readNumber (k n : Nat) : Starves (readNumber k) (littleEndian k n) :=
  (starves_take (length_littleEndian k n)).andThen

/-- Whether a value is read back, and missed where its octets break off. -/
structure Delimited {α : Type} [Format α] (a : α) : Prop where
  readsBack : ReadsBack a
  starves : Starves (read : Reader α) (write a)

theorem Delimited.field [Format α] (h : Delimited a) (hf : Starves (f a) bytes') :
    Starves (read >>= f) (write a ++ bytes') := h.starves.bind h.readsBack hf

theorem delimited_uint8 (n : UInt8) : Delimited n :=
  ⟨readsBack_uint8 n, (starves_readNumber 1 _).andThen⟩

theorem delimited_uint16 (n : UInt16) : Delimited n :=
  ⟨readsBack_uint16 n, (starves_readNumber 2 _).andThen⟩

theorem delimited_uint32 (n : UInt32) : Delimited n :=
  ⟨readsBack_uint32 n, (starves_readNumber 4 _).andThen⟩

theorem delimited_uint64 (n : UInt64) : Delimited n :=
  ⟨readsBack_uint64 n, (starves_readNumber 8 _).andThen⟩

theorem delimited_int16 (n : Int16) : Delimited n :=
  ⟨readsBack_int16 n, (delimited_uint16 _).starves.andThen⟩

theorem delimited_int64 (n : Int64) : Delimited n :=
  ⟨readsBack_int64 n, (delimited_uint64 _).starves.andThen⟩

theorem delimited_octets {n : Nat} (o : Octets n) : Delimited o :=
  ⟨readsBack_octets o, (starves_take o.length_eq).andThen⟩

theorem starves_writeGroups (k n : Nat) : Starves (readGroups k) (writeGroups k n) := by
  induction k generalizing n with
  | zero => exact starves_nil _
  | succ k ih =>
    unfold writeGroups readGroups
    split
    · rw [← write_uint8]
      exact (delimited_uint8 _).starves.andThen
    · rw [← List.singleton_append, ← write_uint8]
      apply (delimited_uint8 _).field
      have hb : ¬ UInt8.ofNat (n % 128 + 128) < 128 := by
        rw [UInt8.lt_iff_toNat_lt, UInt8.toNat_ofNat', show (128 : UInt8).toNat = 128 from rfl]
        omega
      rw [if_neg hb]
      exact (ih _).andThen

theorem starves_writeLength (n : UInt32) : Starves readLength (writeLength n) :=
  (starves_writeGroups 5 _).andThen

theorem starves_writeCounted (h : bytes.length < UInt32.size) :
    Starves readCounted (writeCounted bytes) :=
  (starves_writeLength _).bind (readLength_writeLength _)
    (starves_take (toNat_ofNat_length h).symm)

theorem delimited_string {s : String} (h : (Text.utf8 s).length < UInt32.size) : Delimited s :=
  ⟨readsBack_string h, (starves_writeCounted h).andThen⟩

theorem starves_times [Format α] {as : List α} (h : ∀ a ∈ as, Delimited a) :
    Starves (Reader.times (read : Reader α) as.length) (as.flatMap write) := by
  induction as with
  | nil => exact starves_nil _
  | cons a as ih =>
    rw [List.flatMap_cons]
    apply (h a List.mem_cons_self).field
    apply Starves.andThen
    exact ih fun b hb => h b (List.mem_cons_of_mem a hb)

/-- A list breaks off in its count, or the count is too great for what is left, or an element
breaks off. -/
theorem delimited_list [Format α] {as : List α} (h : ∀ a ∈ as, Delimited a)
    (hpos : ∀ a ∈ as, 0 < (write a).length) (hlen : as.length < UInt32.size) : Delimited as := by
  refine ⟨readsBack_list (fun a ha => (h a ha).readsBack) hpos hlen, ?_⟩
  apply (starves_writeLength _).bind (readLength_writeLength _)
  rw [toNat_ofNat_length hlen]
  intro part lost heq hlost
  have hleft : Reader.remaining part = (.ok part.length, part) := rfl
  rw [Reader.value_bind_of_ok hleft]
  by_cases hshort : part.length < as.length
  · rw [if_pos hshort]
    exact ⟨as.length, part.length, rfl⟩
  · rw [if_neg hshort]
    exact starves_times h part lost heq hlost

theorem delimited_option [Format α] {o : Option α} (h : ∀ a, o = some a → Delimited a) :
    Delimited o := by
  refine ⟨readsBack_option fun a ha => (h a ha).readsBack, ?_⟩
  cases o with
  | none => exact (delimited_uint8 0).starves.andThen
  | some a =>
    apply (delimited_uint8 1).field
    exact (h a rfl).starves.andThen

end Wire

theorem delimited_handshake {m : Handshake} (h : m.Fits) : Delimited m := by
  refine ⟨readsBack_handshake h, ?_⟩
  change Starves (read >>= fun _ => _) ((_ ++ _) ++ _)
  simp only [List.append_assoc]
  apply (delimited_uint16 _).field
  apply (delimited_octets _).field
  apply (delimited_octets _).field
  apply (delimited_octets _).field
  apply (delimited_int64 _).field
  apply (delimited_octets _).field
  apply (delimited_octets _).field
  apply (delimited_string h.p2pAddress).field
  apply (delimited_uint32 _).field
  apply (delimited_octets _).field
  apply (delimited_uint32 _).field
  apply (delimited_octets _).field
  apply (delimited_string h.os).field
  apply (delimited_string h.agent).field
  exact (delimited_int16 _).starves.andThen

theorem delimited_chainSize (m : ChainSize) : Delimited m := by
  refine ⟨readsBack_chainSize m, ?_⟩
  change Starves (read >>= fun _ => _) ((_ ++ _) ++ _)
  simp only [List.append_assoc]
  apply (delimited_uint32 _).field
  apply (delimited_octets _).field
  apply (delimited_uint32 _).field
  exact (delimited_octets _).starves.andThen

theorem delimited_reason (reason : GoAwayReason) : Delimited reason :=
  ⟨readsBack_reason reason, (delimited_uint32 reason.code).starves.andThen⟩

theorem delimited_goAway (m : GoAway) : Delimited m := by
  refine ⟨readsBack_goAway m, ?_⟩
  apply (delimited_reason _).field
  exact (delimited_octets _).starves.andThen

theorem delimited_timeStamps (m : TimeStamps) : Delimited m := by
  refine ⟨readsBack_timeStamps m, ?_⟩
  change Starves (read >>= fun _ => _) ((_ ++ _) ++ _)
  simp only [List.append_assoc]
  apply (delimited_int64 _).field
  apply (delimited_int64 _).field
  apply (delimited_int64 _).field
  exact (delimited_int64 _).starves.andThen

theorem delimited_mode (mode : IdListMode) : Delimited mode :=
  ⟨readsBack_mode mode, (delimited_uint32 mode.code).starves.andThen⟩

theorem delimited_ids {ids : List Checksum} (h : ids.length < UInt32.size) : Delimited ids := by
  apply delimited_list (fun id _ => delimited_octets id) _ h
  intro id _
  change 0 < id.toList.length
  rw [id.length_eq]
  decide

theorem delimited_idList {l : IdList} (h : l.Fits) : Delimited l := by
  refine ⟨readsBack_idList h, ?_⟩
  change Starves (read >>= fun _ => _) ((_ ++ _) ++ _)
  simp only [List.append_assoc]
  apply (delimited_mode _).field
  apply (delimited_uint32 _).field
  exact (delimited_ids h).starves.andThen

theorem delimited_notice {m : Notice} (ht : m.transactions.Fits) (hb : m.blocks.Fits) :
    Delimited m := by
  refine ⟨readsBack_notice ht hb, ?_⟩
  apply (delimited_idList ht).field
  exact (delimited_idList hb).starves.andThen

theorem delimited_request {m : Request} (ht : m.transactions.Fits) (hb : m.blocks.Fits) :
    Delimited m := by
  refine ⟨readsBack_request ht hb, ?_⟩
  apply (delimited_idList ht).field
  exact (delimited_idList hb).starves.andThen

theorem delimited_blockRange (r : BlockRange) : Delimited r := by
  refine ⟨readsBack_blockRange r, ?_⟩
  apply (delimited_uint32 _).field
  exact (delimited_uint32 _).starves.andThen

theorem delimited_producerKey (p : ProducerKey) : Delimited p := by
  refine ⟨readsBack_producerKey p, ?_⟩
  apply (delimited_uint64 _).field
  exact (delimited_octets _).starves.andThen

theorem delimited_producerSchedule {s : ProducerSchedule}
    (h : s.producers.length < UInt32.size) : Delimited s := by
  have hs : Delimited s.producers :=
    delimited_list (fun p _ => delimited_producerKey p) (fun _ _ => Nat.succ_pos _) h
  refine ⟨readsBack_producerSchedule h, ?_⟩
  apply (delimited_uint32 _).field
  exact hs.starves.andThen

theorem delimited_headerExtension {e : HeaderExtension} (h : e.data.length < UInt32.size) :
    Delimited e := by
  refine ⟨readsBack_headerExtension h, ?_⟩
  apply (delimited_uint16 _).field
  exact (starves_writeCounted h).andThen

theorem delimited_header {h : Header} (hf : h.Fits) : Delimited h := by
  have hp : Delimited h.newProducers :=
    delimited_option fun s hs => delimited_producerSchedule (hf.producers s hs)
  have he : Delimited h.extensions :=
    delimited_list (fun e he => delimited_headerExtension (hf.data e he))
      (fun _ _ => Nat.succ_pos _) hf.extensions
  refine ⟨readsBack_header hf, ?_⟩
  change Starves (read >>= fun _ => _) ((_ ++ _) ++ _)
  simp only [List.append_assoc]
  apply (delimited_uint32 _).field
  apply (delimited_uint64 _).field
  apply (delimited_uint16 _).field
  apply (delimited_octets _).field
  apply (delimited_octets _).field
  apply (delimited_octets _).field
  apply (delimited_uint32 _).field
  apply hp.field
  exact he.starves.andThen

theorem Message.structured_of_kind_eq {m m' : Message} (h : m.kind = m'.kind)
    (hs : m.Structured) : m'.Structured := by
  cases m' with
  | signedBlock raw => cases m <;> simp_all [kind, Structured]
  | transaction raw => cases m <;> simp_all [kind, Structured]
  | _ => trivial

theorem Message.starves_payload {m : Message} (h : m.Fits) (hs : m.Structured) :
    Starves (reader m.kind) m.payload := by
  cases m with
  | handshake m => exact (delimited_handshake h).starves.andThen
  | chainSize m => exact (delimited_chainSize m).starves.andThen
  | goAway m => exact (delimited_goAway m).starves.andThen
  | time m => exact (delimited_timeStamps m).starves.andThen
  | notice m => exact (delimited_notice h.1 h.2).starves.andThen
  | request m => exact (delimited_request h.1 h.2).starves.andThen
  | syncRequest r => exact (delimited_blockRange r).starves.andThen
  | signedBlock raw => exact hs.elim
  | transaction raw => exact hs.elim

/-- A header or a message with fields that breaks off is missed for want of octets and for nothing
else, so none begins another one of its kind. -/
theorem truncation_is_noticed :
    (∀ h : Header, h.Fits → ∀ part lost, part ++ lost = write h → lost ≠ [] →
      ∃ needed left, Header.ofBlock part = .error (.endOfInput needed left)) ∧
    (∀ m : Message, m.Fits → m.Structured → ∀ part lost, part ++ lost = m.payload → lost ≠ [] →
      ∃ needed left, Message.ofPayload m.kind.tag part = .error (.endOfInput needed left)) ∧
    (∀ h h' : Header, h.Fits → h'.Fits → ∀ more, write h ++ more = write h' →
      more = [] ∧ h = h') ∧
    (∀ m m' : Message, m.Fits → m'.Fits → m.Structured → m.kind = m'.kind →
      ∀ more, m.payload ++ more = m'.payload → more = [] ∧ m = m') := by
  refine ⟨?_, ?_, ?_, ?_⟩
  · intro h hf part lost heq hlost
    exact (delimited_header hf).starves part lost heq hlost
  · intro m hf hs part lost heq hlost
    obtain ⟨needed, left, hfault⟩ := Message.starves_payload hf hs part lost heq hlost
    refine ⟨needed, left, ?_⟩
    rw [Message.ofPayload, ofTag_tag]
    exact hfault
  · intro h h' hf hf' more heq
    have hread := readsBack_header hf more
    have hread' := readsBack_header hf' []
    rw [heq] at hread
    rw [List.append_nil, hread] at hread'
    simp only [Prod.mk.injEq, Except.ok.injEq] at hread'
    exact ⟨hread'.2, hread'.1⟩
  · intro m m' hf hf' hs hkind more heq
    have hread := Message.reader_payload_append hf hs more
    have hread' := Message.reader_payload_append hf' (Message.structured_of_kind_eq hkind hs) []
    rw [heq, hkind] at hread
    rw [List.append_nil, hread] at hread'
    simp only [Prod.mk.injEq, Except.ok.injEq] at hread'
    exact ⟨hread'.2, hread'.1⟩

/-- A header that breaks off in a producer's key, and a handshake that breaks off in a character. -/
theorem sample_truncation :
    (∃ needed left,
      Header.ofBlock ((write sampleHeader).take 130) = .error (.endOfInput needed left)) ∧
    (∃ needed left,
      Message.ofPayload 0 ((write sampleHandshake).take 295) = .error (.endOfInput needed left)) ∧
    (∀ h : Header, h.Fits → ∀ more, write sampleHeader ++ more = write h →
      more = [] ∧ sampleHeader = h) ∧
    ∀ h : Handshake, (Message.handshake h).Fits →
      ∀ more, write sampleHandshake ++ more = write h → more = [] ∧ h = sampleHandshake := by
  have hm : (Message.handshake sampleHandshake).Fits := by
    constructor <;> decide +kernel
  obtain ⟨hcutHeader, hcutMessage, hsameHeader, hsameMessage⟩ := truncation_is_noticed
  constructor
  · apply hcutHeader _ fits_sampleHeader _ ((write sampleHeader).drop 130)
      (List.take_append_drop _ _)
    decide +kernel
  constructor
  · apply hcutMessage _ hm trivial _ ((write sampleHandshake).drop 295)
      (List.take_append_drop _ _)
    decide +kernel
  constructor
  · exact fun h hf => hsameHeader _ _ fits_sampleHeader hf
  · intro h hf more heq
    obtain ⟨hnone, hsame⟩ := hsameMessage _ _ hm hf trivial rfl more heq
    exact ⟨hnone, (Message.handshake.inj hsame).symm⟩

end BlockSync

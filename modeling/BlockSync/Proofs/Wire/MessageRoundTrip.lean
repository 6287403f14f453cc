import BlockSync.Chain.Header
import BlockSync.Proofs.Wire.ReadBack
import BlockSync.Wire.Message

/-! Messages and block headers are read back from what was written. Texts, octets behind a count
and lists must be shorter than a length can say; everything else fits by its type. -/

namespace BlockSync

open Wire

def Short (s : String) : Prop := (Text.utf8 s).length < UInt32.size

instance (s : String) : Decidable (Short s) := inferInstanceAs (Decidable (_ < _))

structure Handshake.Fits (m : Handshake) : Prop where
  p2pAddress : Short m.p2pAddress
  os : Short m.os
  agent : Short m.agent

def IdList.Fits (l : IdList) : Prop := l.ids.length < UInt32.size

/-- Whether all texts and lists of a message are short enough. -/
def Message.Fits : Message → Prop
  | .handshake m => m.Fits
  | .notice m => m.transactions.Fits ∧ m.blocks.Fits
  | .request m => m.transactions.Fits ∧ m.blocks.Fits
  | _ => True

/-- Whether the fields of a message are read one by one. -/
def Message.Structured : Message → Prop
  | .signedBlock _ | .transaction _ => False
  | _ => True

structure Header.Fits (h : Header) : Prop where
  producers : ∀ s, h.newProducers = some s → s.producers.length < UInt32.size
  extensions : h.extensions.length < UInt32.size
  data : ∀ e ∈ h.extensions, e.data.length < UInt32.size

theorem readsBack_handshake {m : Handshake} (h : m.Fits) : ReadsBack m := by
  intro rest
  change (Wire.read >>= fun _ => _) ((_ ++ _) ++ _) = _
  simp only [List.append_assoc, (readsBack_uint16 _).bind, (readsBack_octets _).bind,
    (readsBack_int64 _).bind, (readsBack_string h.p2pAddress).bind, (readsBack_uint32 _).bind,
    (readsBack_string h.os).bind, (readsBack_string h.agent).bind, (readsBack_int16 _).bind]
  rfl

theorem readsBack_chainSize (m : ChainSize) : ReadsBack m := by
  intro rest
  change (Wire.read >>= fun _ => _) ((_ ++ _) ++ _) = _
  simp only [List.append_assoc, (readsBack_uint32 _).bind, (readsBack_octets _).bind]
  rfl

theorem readsBack_timeStamps (m : TimeStamps) : ReadsBack m := by
  intro rest
  change (Wire.read >>= fun _ => _) ((_ ++ _) ++ _) = _
  simp only [List.append_assoc, (readsBack_int64 _).bind]
  rfl

theorem ofCode_code_reason (reason : GoAwayReason) :
    GoAwayReason.ofCode reason.code = .ok reason := by
  cases reason <;> rfl

theorem ofCode_code_mode (mode : IdListMode) : IdListMode.ofCode mode.code = .ok mode := by
  cases mode <;> rfl

theorem ofTag_tag (kind : MessageKind) : MessageKind.ofTag kind.tag = .ok kind := by
  cases kind <;> rfl

theorem readsBack_reason (reason : GoAwayReason) : ReadsBack reason := fun rest =>
  ((readsBack_uint32 reason.code).bind _ rest).trans (by rw [ofCode_code_reason]; rfl)

theorem readsBack_mode (mode : IdListMode) : ReadsBack mode := fun rest =>
  ((readsBack_uint32 mode.code).bind _ rest).trans (by rw [ofCode_code_mode]; rfl)

theorem readsBack_goAway (m : GoAway) : ReadsBack m := by
  intro rest
  change (Wire.read >>= fun _ => _) ((_ ++ _) ++ _) = _
  simp only [List.append_assoc, (readsBack_reason _).bind, (readsBack_octets _).bind]
  rfl

theorem readsBack_ids {ids : List Checksum} (h : ids.length < UInt32.size) : ReadsBack ids := by
  refine readsBack_list (fun id _ => readsBack_octets id) (fun id _ => ?_) h
  change 0 < id.toList.length
  rw [id.length_eq]
  decide

theorem readsBack_idList {l : IdList} (h : l.Fits) : ReadsBack l := by
  intro rest
  change (Wire.read >>= fun _ => _) ((_ ++ _) ++ _) = _
  simp only [List.append_assoc, (readsBack_mode _).bind, (readsBack_uint32 _).bind,
    (readsBack_ids h).bind]
  rfl

theorem readsBack_notice {m : Notice} (ht : m.transactions.Fits) (hb : m.blocks.Fits) :
    ReadsBack m := by
  intro rest
  change (Wire.read >>= fun _ => _) ((_ ++ _) ++ _) = _
  simp only [List.append_assoc, (readsBack_idList ht).bind, (readsBack_idList hb).bind]
  rfl

theorem readsBack_request {m : Request} (ht : m.transactions.Fits) (hb : m.blocks.Fits) :
    ReadsBack m := by
  intro rest
  change (Wire.read >>= fun _ => _) ((_ ++ _) ++ _) = _
  simp only [List.append_assoc, (readsBack_idList ht).bind, (readsBack_idList hb).bind]
  rfl

theorem readsBack_blockRange (r : BlockRange) : ReadsBack r := by
  intro rest
  change (Wire.read >>= fun _ => _) ((_ ++ _) ++ _) = _
  simp only [List.append_assoc, (readsBack_uint32 _).bind, BlockRange.of, dif_pos r.first_le_last]
  rfl

theorem readsBack_producerKey (p : ProducerKey) : ReadsBack p := by
  intro rest
  change (Wire.read >>= fun _ => _) ((_ ++ _) ++ _) = _
  simp only [List.append_assoc, (readsBack_uint64 _).bind, (readsBack_octets _).bind]
  rfl

theorem readsBack_producerSchedule {s : ProducerSchedule}
    (h : s.producers.length < UInt32.size) : ReadsBack s := by
  have hs : ReadsBack s.producers := by
    refine readsBack_list (fun p _ => readsBack_producerKey p) (fun p _ => ?_) h
    exact Nat.succ_pos _
  intro rest
  change (Wire.read >>= fun _ => _) ((_ ++ _) ++ _) = _
  simp only [List.append_assoc, (readsBack_uint32 _).bind, hs.bind]
  rfl

theorem readsBack_headerExtension {e : HeaderExtension} (h : e.data.length < UInt32.size) :
    ReadsBack e := by
  intro rest
  change (Wire.read >>= fun _ => _) ((_ ++ _) ++ _) = _
  simp only [List.append_assoc, (readsBack_uint16 _).bind]
  exact Reader.bind_of_ok (readCounted_writeCounted h rest)

theorem readsBack_header {h : Header} (hf : h.Fits) : ReadsBack h := by
  have hp : ReadsBack h.newProducers :=
    readsBack_option fun s hs => readsBack_producerSchedule (hf.producers s hs)
  have he : ReadsBack h.extensions := by
    refine readsBack_list (fun e he => readsBack_headerExtension (hf.data e he)) (fun e _ => ?_)
      hf.extensions
    exact Nat.succ_pos _
  intro rest
  change (Wire.read >>= fun _ => _) ((_ ++ _) ++ _) = _
  simp only [List.append_assoc, (readsBack_uint32 _).bind, (readsBack_uint64 _).bind,
    (readsBack_uint16 _).bind, (readsBack_octets _).bind, hp.bind, he.bind]
  rfl

theorem Wire.Reader.value_map {α β : Type} (f : α → β) (r : Reader α) (input : Bytes) :
    (f <$> r).value input = (r.value input).map f := by
  change (Reader.bind r fun a => Reader.pure (f a)).value input = _
  unfold Reader.value Reader.bind
  split
  · next h => rw [h]; rfl
  · next h => rw [h]; rfl

namespace Message

theorem reader_payload_append {m : Message} (h : m.Fits) (hs : m.Structured) (rest : Bytes) :
    reader m.kind (m.payload ++ rest) = (.ok m, rest) := by
  cases m with
  | handshake m => exact (readsBack_handshake h).bind _ rest
  | chainSize m => exact (readsBack_chainSize m).bind _ rest
  | goAway m => exact (readsBack_goAway m).bind _ rest
  | time m => exact (readsBack_timeStamps m).bind _ rest
  | notice m => exact (readsBack_notice h.1 h.2).bind _ rest
  | request m => exact (readsBack_request h.1 h.2).bind _ rest
  | syncRequest r => exact (readsBack_blockRange r).bind _ rest
  | signedBlock raw => exact hs.elim
  | transaction raw => exact hs.elim

theorem ofPayload_payload_append {m : Message} (h : m.Fits) (hs : m.Structured) (rest : Bytes) :
    ofPayload m.kind.tag (m.payload ++ rest) = .ok m := by
  simp only [ofPayload, ofTag_tag, Reader.value, reader_payload_append h hs]

theorem ofPayload_payload {m : Message} (h : m.Fits) : ofPayload m.kind.tag m.payload = .ok m := by
  cases m with
  | signedBlock raw => rfl
  | transaction raw => rfl
  | _ => simpa only [List.append_nil] using ofPayload_payload_append h trivial []

theorem ofTag_of_ofPayload {tag : UInt8} {payload : Bytes} {m : Message}
    (h : ofPayload tag payload = .ok m) : MessageKind.ofTag tag = .ok m.kind := by
  unfold ofPayload at h
  split at h
  · next kind hk =>
    have hkind {α : Type} {x : Except Fault α} {f : α → Message}
        (hx : x.map f = .ok m) (hf : ∀ a, (f a).kind = kind) : m.kind = kind := by
      cases x with
      | error fault => cases hx
      | ok a =>
        cases hx
        exact hf a
    rw [hk]
    congr 1
    symm
    cases kind <;> rw [reader, Reader.value_map] at h <;> exact hkind h fun _ => rfl
  · cases h

theorem raw_of_ofPayload {tag : UInt8} {payload raw : Bytes}
    (h : ofPayload tag payload = .ok (.signedBlock raw)) : raw = payload := by
  have htag := ofTag_of_ofPayload h
  unfold ofPayload at h
  rw [htag] at h
  change Except.ok (signedBlock payload) = _ at h
  cases h
  rfl

theorem frame_eq {m : Message} (h : m.payload.length + 1 < UInt32.size) :
    m.frame = littleEndian 4 (m.payload.length + 1) ++ m.kind.tag :: m.payload := by
  have hn : (UInt32.ofNat m.payload.length + 1).toNat = m.payload.length + 1 := by
    rw [UInt32.toNat_add, toNat_ofNat_length (by omega)]
    exact Nat.mod_eq_of_lt h
  rw [frame, write_uint8, List.append_assoc, List.singleton_append]
  change littleEndian 4 _ ++ _ = _
  rw [hn]

end Message

/-- A frame is the length of what follows it, the kind and the payload, and both a message and a
header are read back from what was written. What has fields may have anything behind it. -/
theorem message_and_header_round_trip :
    (∀ m : Message, m.Fits → m.payload.length + 1 < UInt32.size →
      m.frame = littleEndian 4 (m.payload.length + 1) ++ m.kind.tag :: m.payload ∧
      Message.ofPayload m.kind.tag m.payload = .ok m ∧
      (m.Structured → ∀ rest, Message.ofPayload m.kind.tag (m.payload ++ rest) = .ok m)) ∧
    (∀ h : Header, h.Fits → ∀ body, Header.ofBlock (write h ++ body) = .ok h) := by
  refine ⟨fun m hm hlen => ⟨Message.frame_eq hlen, Message.ofPayload_payload hm,
    fun hs rest => Message.ofPayload_payload_append hm hs rest⟩, fun h hh body => ?_⟩
  exact congrArg Prod.fst (readsBack_header hh body)

/-- A handshake with texts of one, two and no octets a character. -/
def sampleHandshake : Handshake where
  networkVersion := 1212
  chainId := Octets.zero 32
  nodeId := Checksum.ofBlockNum 7
  key := Octets.zero 34
  time := -5
  token := Octets.zero 32
  sig := Octets.zero 66
  p2pAddress := "127.0.0.1:9876"
  libNum := 88
  libId := Checksum.ofBlockNum 88
  headNum := 100
  headId := Checksum.ofBlockNum 100
  os := "é"
  agent := ""
  generation := -1

/-- A header with a schedule and an extension. -/
def sampleHeader : Header where
  slot := 1000
  previous := Checksum.ofBlockNum 41
  newProducers := some ⟨3, [⟨42, Octets.zero 34⟩]⟩
  extensions := [⟨1, [1, 2, 3]⟩]

theorem fits_sampleHeader : sampleHeader.Fits := by
  constructor
  · intro s hs
    cases hs
    decide
  · decide
  · intro e he
    rw [List.mem_singleton.mp he]
    decide

theorem sample_round_trip :
    Message.ofPayload 0 (write sampleHandshake ++ [1, 2, 3]) = .ok (.handshake sampleHandshake) ∧
    Header.ofBlock (write sampleHeader ++ [0, 0]) = .ok sampleHeader := by
  have hm : (Message.handshake sampleHandshake).Fits :=
    ⟨by decide +kernel, by decide +kernel, by decide +kernel⟩
  have hl : (Message.handshake sampleHandshake).payload.length + 1 < UInt32.size := by
    decide +kernel
  have hh : sampleHeader.Fits := by
    refine ⟨fun s hs => ?_, by decide, fun e he => ?_⟩
    · cases hs; decide
    · rw [List.mem_singleton.mp he]; decide
  exact ⟨(message_and_header_round_trip.1 _ hm hl).2.2 trivial _,
    message_and_header_round_trip.2 _ hh _⟩

end BlockSync

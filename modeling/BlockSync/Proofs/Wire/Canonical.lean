import BlockSync.Proofs.Wire.Spelling

/-! What is read is written again in the shortest of its spellings. The identity of a block is a
hash of its header as it is written again, so it stands for all spellings of the header and tells
only those apart that are not alike in everything but padding and presence. -/

namespace BlockSync

open Wire

theorem code_of_ofCode_reason {value : UInt32} {reason : GoAwayReason}
    (h : GoAwayReason.ofCode value = .ok reason) : reason.code = value := by
  unfold GoAwayReason.ofCode at h
  split at h
  · next hfind =>
    cases h
    have hcode := List.find?_some hfind
    exact eq_of_beq hcode
  · cases h

theorem code_of_ofCode_mode {value : UInt32} {mode : IdListMode}
    (h : IdListMode.ofCode value = .ok mode) : mode.code = value := by
  unfold IdListMode.ofCode at h
  split at h
  · next hfind =>
    cases h
    have hcode := List.find?_some hfind
    exact eq_of_beq hcode
  · cases h

instance : Laid GoAwayReason := .exact readsBack_reason fun h => by
  obtain ⟨value, mid, hvalue, hlift⟩ := Reader.of_bind_ok h
  obtain ⟨hreason, rfl⟩ := of_lift_ok hlift
  rw [of_read_uint32_ok hvalue, ← code_of_ofCode_reason hreason]
  rfl

instance : Laid IdListMode := .exact readsBack_mode fun h => by
  obtain ⟨value, mid, hvalue, hlift⟩ := Reader.of_bind_ok h
  obtain ⟨hmode, rfl⟩ := of_lift_ok hlift
  rw [of_read_uint32_ok hvalue, ← code_of_ofCode_mode hmode]
  rfl

instance : Laid BlockRange := .exact readsBack_blockRange fun h => by
  obtain ⟨first, mid, hfirst, h⟩ := Reader.of_bind_ok h
  obtain ⟨last, mid', hlast, hlift⟩ := Reader.of_bind_ok h
  obtain ⟨hrange, rfl⟩ := of_lift_ok hlift
  rw [of_read_uint32_ok hfirst, of_read_uint32_ok hlast, ← List.append_assoc]
  unfold BlockRange.of at hrange
  split at hrange <;> cases hrange
  rfl

instance : Laid Handshake where
  cells m :=
    cells m.networkVersion ++ (cells m.chainId ++ (cells m.nodeId ++ (cells m.key ++
      (cells m.time ++ (cells m.token ++ (cells m.sig ++ (cells m.p2pAddress ++
      (cells m.libNum ++ (cells m.libId ++ (cells m.headNum ++ (cells m.headId ++
      (cells m.os ++ (cells m.agent ++ cells m.generation)))))))))))))
  fits m := m.Fits
  written m := by
    simp only [fill_append, Laid.written, ← List.append_assoc]
    rfl
  reads {m} h := by
    apply Reads.field (a := m.networkVersion) trivial
    apply Reads.field (a := m.chainId) trivial
    apply Reads.field (a := m.nodeId) trivial
    apply Reads.field (a := m.key) trivial
    apply Reads.field (a := m.time) trivial
    apply Reads.field (a := m.token) trivial
    apply Reads.field (a := m.sig) trivial
    apply Reads.field (a := m.p2pAddress) h.p2pAddress
    apply Reads.field (a := m.libNum) trivial
    apply Reads.field (a := m.libId) trivial
    apply Reads.field (a := m.headNum) trivial
    apply Reads.field (a := m.headId) trivial
    apply Reads.field (a := m.os) h.os
    apply Reads.field (a := m.agent) h.agent
    exact Reads.last (a := m.generation) trivial
  finds := by
    apply Finds.field; intro networkVersion p₁ _ h₁
    apply Finds.field; intro chainId p₂ _ h₂
    apply Finds.field; intro nodeId p₃ _ h₃
    apply Finds.field; intro key p₄ _ h₄
    apply Finds.field; intro time p₅ _ h₅
    apply Finds.field; intro token p₆ _ h₆
    apply Finds.field; intro sig p₇ _ h₇
    apply Finds.field; intro p2pAddress p₈ haddress h₈
    apply Finds.field; intro libNum p₉ _ h₉
    apply Finds.field; intro libId p₁₀ _ h₁₀
    apply Finds.field; intro headNum p₁₁ _ h₁₁
    apply Finds.field; intro headId p₁₂ _ h₁₂
    apply Finds.field; intro os p₁₃ hos h₁₃
    apply Finds.field; intro agent p₁₄ hagent h₁₄
    apply Finds.last; intro generation p₁₅ _ h₁₅
    constructor
    · exact ⟨haddress, hos, hagent⟩
    · exact h₁.append <| h₂.append <| h₃.append <| h₄.append <| h₅.append <| h₆.append <|
        h₇.append <| h₈.append <| h₉.append <| h₁₀.append <| h₁₁.append <| h₁₂.append <|
        h₁₃.append <| h₁₄.append h₁₅

instance : Laid ChainSize where
  cells m := cells m.libNum ++ (cells m.libId ++ (cells m.headNum ++ cells m.headId))
  fits _ := True
  written m := by
    simp only [fill_append, Laid.written, ← List.append_assoc]
    rfl
  reads {m} _ := by
    apply Reads.field (a := m.libNum) trivial
    apply Reads.field (a := m.libId) trivial
    apply Reads.field (a := m.headNum) trivial
    exact Reads.last (a := m.headId) trivial
  finds := by
    apply Finds.field; intro libNum p₁ _ h₁
    apply Finds.field; intro libId p₂ _ h₂
    apply Finds.field; intro headNum p₃ _ h₃
    apply Finds.last; intro headId p₄ _ h₄
    exact ⟨trivial, h₁.append <| h₂.append <| h₃.append h₄⟩

instance : Laid GoAway where
  cells m := cells m.reason ++ cells m.nodeId
  fits _ := True
  written m := by
    rw [fill_append, Laid.written, Laid.written]
    rfl
  reads {m} _ := by
    apply Reads.field (a := m.reason) trivial
    exact Reads.last (a := m.nodeId) trivial
  finds := by
    apply Finds.field; intro reason p₁ _ h₁
    apply Finds.last; intro nodeId p₂ _ h₂
    exact ⟨trivial, h₁.append h₂⟩

instance : Laid TimeStamps where
  cells m := cells m.origin ++ (cells m.receive ++ (cells m.transmit ++ cells m.destination))
  fits _ := True
  written m := by
    simp only [fill_append, Laid.written, ← List.append_assoc]
    rfl
  reads {m} _ := by
    apply Reads.field (a := m.origin) trivial
    apply Reads.field (a := m.receive) trivial
    apply Reads.field (a := m.transmit) trivial
    exact Reads.last (a := m.destination) trivial
  finds := by
    apply Finds.field; intro origin p₁ _ h₁
    apply Finds.field; intro receive p₂ _ h₂
    apply Finds.field; intro transmit p₃ _ h₃
    apply Finds.last; intro destination p₄ _ h₄
    exact ⟨trivial, h₁.append <| h₂.append <| h₃.append h₄⟩

instance : Solid Checksum where
  pos id := by
    change 0 < id.toList.length
    rw [id.length_eq]
    decide

instance : Laid IdList where
  cells l := cells l.mode ++ (cells l.pending ++ cells l.ids)
  fits l := l.Fits
  written l := by
    simp only [fill_append, Laid.written, ← List.append_assoc]
    rfl
  reads {l} h := by
    apply Reads.field (a := l.mode) trivial
    apply Reads.field (a := l.pending) trivial
    exact Reads.last (a := l.ids) ⟨h, fun _ _ => trivial⟩
  finds := by
    apply Finds.field; intro mode p₁ _ h₁
    apply Finds.field; intro pending p₂ _ h₂
    apply Finds.last; intro ids p₃ hids h₃
    exact ⟨hids.1, h₁.append <| h₂.append h₃⟩

instance : Laid Notice where
  cells m := cells m.transactions ++ cells m.blocks
  fits m := m.transactions.Fits ∧ m.blocks.Fits
  written m := by
    rw [fill_append, Laid.written, Laid.written]
    rfl
  reads {m} h := by
    apply Reads.field (a := m.transactions) h.1
    exact Reads.last (a := m.blocks) h.2
  finds := by
    apply Finds.field; intro transactions p₁ ht h₁
    apply Finds.last; intro blocks p₂ hb h₂
    exact ⟨⟨ht, hb⟩, h₁.append h₂⟩

instance : Laid Request where
  cells m := cells m.transactions ++ cells m.blocks
  fits m := m.transactions.Fits ∧ m.blocks.Fits
  written m := by
    rw [fill_append, Laid.written, Laid.written]
    rfl
  reads {m} h := by
    apply Reads.field (a := m.transactions) h.1
    exact Reads.last (a := m.blocks) h.2
  finds := by
    apply Finds.field; intro transactions p₁ ht h₁
    apply Finds.last; intro blocks p₂ hb h₂
    exact ⟨⟨ht, hb⟩, h₁.append h₂⟩

instance : Laid ProducerKey where
  cells p := cells p.name ++ cells p.key
  fits _ := True
  written p := by
    rw [fill_append, Laid.written, Laid.written]
    rfl
  reads {p} _ := by
    apply Reads.field (a := p.name) trivial
    exact Reads.last (a := p.key) trivial
  finds := by
    apply Finds.field; intro name p₁ _ h₁
    apply Finds.last; intro key p₂ _ h₂
    exact ⟨trivial, h₁.append h₂⟩

instance : Solid ProducerKey where
  pos _ := Nat.succ_pos _

instance : Laid ProducerSchedule where
  cells s := cells s.version ++ cells s.producers
  fits s := s.producers.length < UInt32.size
  written s := by
    rw [fill_append, Laid.written, Laid.written]
    rfl
  reads {s} h := by
    apply Reads.field (a := s.version) trivial
    exact Reads.last (a := s.producers) ⟨h, fun _ _ => trivial⟩
  finds := by
    apply Finds.field; intro version p₁ _ h₁
    apply Finds.last; intro producers p₂ hproducers h₂
    exact ⟨hproducers.1, h₁.append h₂⟩

instance : Laid HeaderExtension where
  cells e := cells e.id ++ countedCells e.data
  fits e := e.data.length < UInt32.size
  written e := by
    rw [fill_append, Laid.written, fill_countedCells]
    rfl
  reads {e} h := by
    apply Reads.field (a := e.id) trivial
    rw [← List.append_nil (countedCells _)]
    apply (reads_readCounted h).bind
    exact reads_pure e
  finds := by
    apply Finds.field; intro id p₁ _ h₁
    apply finds_readCounted.bind; intro data p₂ h₂
    apply finds_pure
    rw [List.append_nil]
    exact ⟨h₂.1, h₁.append h₂.2⟩

instance : Solid HeaderExtension where
  pos _ := Nat.succ_pos _

instance : Laid Header where
  cells h :=
    cells h.slot ++ (cells h.producer ++ (cells h.confirmed ++ (cells h.previous ++
      (cells h.transactionRoot ++ (cells h.actionRoot ++ (cells h.scheduleVersion ++
      (cells h.newProducers ++ cells h.extensions)))))))
  fits h := h.Fits
  written h := by
    simp only [fill_append, Laid.written, ← List.append_assoc]
    rfl
  reads {h} hf := by
    apply Reads.field (a := h.slot) trivial
    apply Reads.field (a := h.producer) trivial
    apply Reads.field (a := h.confirmed) trivial
    apply Reads.field (a := h.previous) trivial
    apply Reads.field (a := h.transactionRoot) trivial
    apply Reads.field (a := h.actionRoot) trivial
    apply Reads.field (a := h.scheduleVersion) trivial
    apply Reads.field (a := h.newProducers) hf.producers
    exact Reads.last (a := h.extensions) ⟨hf.extensions, hf.data⟩
  finds := by
    apply Finds.field; intro slot p₁ _ h₁
    apply Finds.field; intro producer p₂ _ h₂
    apply Finds.field; intro confirmed p₃ _ h₃
    apply Finds.field; intro previous p₄ _ h₄
    apply Finds.field; intro transactionRoot p₅ _ h₅
    apply Finds.field; intro actionRoot p₆ _ h₆
    apply Finds.field; intro scheduleVersion p₇ _ h₇
    apply Finds.field; intro newProducers p₈ hproducers h₈
    apply Finds.last; intro extensions p₉ hextensions h₉
    constructor
    · exact ⟨hproducers, hextensions.1, hextensions.2⟩
    · exact h₁.append <| h₂.append <| h₃.append <| h₄.append <| h₅.append <| h₆.append <|
        h₇.append <| h₈.append h₉

theorem write_injective {h h' : Header} (hf : h.Fits) (hf' : h'.Fits)
    (heq : (write h : Bytes) = write h') : h = h' := by
  have hread := readsBack_header hf []
  rw [heq, readsBack_header hf' []] at hread
  simp only [Prod.mk.injEq, Except.ok.injEq] at hread
  exact hread.1.symm

namespace Message

def cells : Message → List Cell
  | .handshake m => Wire.cells m
  | .chainSize m => Wire.cells m
  | .goAway m => Wire.cells m
  | .time m => Wire.cells m
  | .notice m => Wire.cells m
  | .request m => Wire.cells m
  | .syncRequest m => Wire.cells m
  | .signedBlock raw | .transaction raw => [.plain raw]

theorem fill_cells (m : Message) : fill m.cells = m.payload := by
  cases m with
  | signedBlock raw | transaction raw => exact List.append_nil raw
  | _ m => exact Laid.written m

theorem reads_cells {m : Message} (hf : m.Fits) (hs : m.Structured) :
    Reads (reader m.kind) m.cells m := by
  cases m with
  | handshake m => exact Reads.last (a := m) hf
  | chainSize m => exact Reads.last (a := m) trivial
  | goAway m => exact Reads.last (a := m) trivial
  | time m => exact Reads.last (a := m) trivial
  | notice m => exact Reads.last (a := m) hf
  | request m => exact Reads.last (a := m) hf
  | syncRequest m => exact Reads.last (a := m) trivial
  | signedBlock raw => exact hs.elim
  | transaction raw => exact hs.elim

theorem finds_cells (kind : MessageKind) : Finds (reader kind) fun m parts =>
    m.kind = kind ∧ m.Fits ∧ Spelling m.cells parts := by
  cases kind with
  | handshake => exact Finds.last fun m parts hf hparts => ⟨rfl, hf, hparts⟩
  | chainSize => exact Finds.last fun m parts _ hparts => ⟨rfl, trivial, hparts⟩
  | goAway => exact Finds.last fun m parts _ hparts => ⟨rfl, trivial, hparts⟩
  | time => exact Finds.last fun m parts _ hparts => ⟨rfl, trivial, hparts⟩
  | notice => exact Finds.last fun m parts hf hparts => ⟨rfl, hf, hparts⟩
  | request => exact Finds.last fun m parts hf hparts => ⟨rfl, hf, hparts⟩
  | syncRequest => exact Finds.last fun m parts _ hparts => ⟨rfl, trivial, hparts⟩
  | signedBlock | transaction =>
    intro input m rest h
    cases h
    exact ⟨[input], ⟨rfl, trivial, .cons rfl .nil⟩, by simp⟩

end Message

namespace Wire

/-- What writing a value again makes of the octets that it was read from. -/
structure Rewritten {α : Type} (r : Reader α) (a : α) (cells : List Cell) (bytes again : Bytes) :
    Prop where
  readsBack : ∀ rest, r (again ++ rest) = (.ok a, rest)
  shortest : again.length ≤ bytes.length
  spelled : ∃ parts, Spelling cells parts ∧ bytes = parts.flatten
  canonical : ∀ parts, Spelling cells parts → bytes = parts.flatten →
    (again = bytes ↔ List.Forall₂ Cell.Canonical cells parts)

theorem Reads.rewritten {α : Type} {r : Reader α} {a : α} {cells : List Cell}
    {parts : List Bytes} (h : Reads r cells a) (hparts : Spelling cells parts) :
    Rewritten r a cells parts.flatten (fill cells) := by
  constructor
  · rw [← Spelling.flatten_written]
    exact h _ (Spelling.written cells)
  · exact Spelling.length_fill_le hparts
  · exact ⟨parts, hparts, rfl⟩
  · intro parts' hparts' heq
    rw [Spelling.canonical_iff hparts', heq]
    exact eq_comm

theorem Finds.spelled {α : Type} {r : Reader α} {a : α} {Q : α → List Bytes → Prop}
    {bytes rest : Bytes} (h : Finds r Q) (hread : r (bytes ++ rest) = (.ok a, rest)) :
    ∃ parts, Q a parts ∧ bytes = parts.flatten := by
  obtain ⟨parts, hQ, heq⟩ := h _ _ _ hread
  exact ⟨parts, hQ, List.append_cancel_right heq⟩

end Wire

theorem presences_list {α : Type} [Format α] [Laid α] [Solid α]
    (h : ∀ a : α, (cells a).filterMap Cell.presence? = []) (as : List α) :
    (cells as).filterMap Cell.presence? = [] := by
  change (as.flatMap cells).filterMap Cell.presence? = []
  induction as with
  | nil => rfl
  | cons a as ih => rw [List.flatMap_cons, List.filterMap_append, h, ih, List.append_nil]

theorem Header.presences (h : Header) :
    (cells h).filterMap Cell.presence? = [h.newProducers.isSome] := by
  have hproducers : (cells h.newProducers).filterMap Cell.presence? = [h.newProducers.isSome] := by
    rcases h.newProducers with _ | s
    · rfl
    · exact congrArg (true :: ·) (presences_list (fun _ => rfl) s.producers)
  have hextensions : (cells h.extensions).filterMap Cell.presence? = [] :=
    presences_list (fun _ => rfl) h.extensions
  change (cells h.newProducers ++ cells h.extensions).filterMap Cell.presence? = _
  rw [List.filterMap_append, hproducers, hextensions, List.append_nil]

theorem IdList.presences (l : IdList) : (cells l).filterMap Cell.presence? = [] :=
  presences_list (fun _ => rfl) l.ids

theorem Message.presences {m : Message} (hs : m.Structured) :
    m.cells.filterMap Cell.presence? = [] := by
  cases m with
  | notice m =>
    change (Wire.cells m.transactions ++ Wire.cells m.blocks).filterMap Cell.presence? = []
    rw [List.filterMap_append, IdList.presences, IdList.presences, List.append_nil]
  | request m =>
    change (Wire.cells m.transactions ++ Wire.cells m.blocks).filterMap Cell.presence? = []
    rw [List.filterMap_append, IdList.presences, IdList.presences, List.append_nil]
  | signedBlock raw | transaction raw => exact hs.elim
  | _ m => rfl

/-- The octets of a value that was read differ from those it is written as in padded lengths and, in
a header, in a presence above one, and in nothing else. Raw blocks whose headers are alike but for
these have one identity, and only they are hashed alike. -/
theorem canonical_reencoding :
    (∀ (h : Header) p rest, read (p ++ rest) = (.ok h, rest) →
      Rewritten read h (cells h) p (write h) ∧
      (cells h).filterMap Cell.presence? = [h.newProducers.isSome]) ∧
    (∀ kind (m : Message) p rest, m.Structured →
      Message.reader kind (p ++ rest) = (.ok m, rest) →
      Rewritten (Message.reader kind) m m.cells p m.payload ∧
      m.cells.filterMap Cell.presence? = []) ∧
    (∀ raw h, Header.ofBlock raw = .ok h → ∀ parts body, Spelling (cells h) parts →
      (Header.ofBlock (parts.flatten ++ body)).map Header.id = .ok h.id) ∧
    (∀ (h h' : Header) p p' rest rest', read (p ++ rest) = (.ok h, rest) →
      read (p' ++ rest') = (.ok h', rest') →
      ((write h : Bytes) = write h' ↔ ∃ parts, Spelling (cells h) parts ∧ p' = parts.flatten)) := by
  constructor
  · intro h p rest hread
    obtain ⟨parts, ⟨hf, hparts⟩, rfl⟩ := Laid.finds.spelled hread
    rw [← Laid.written h]
    exact ⟨(Laid.reads hf).rewritten hparts, h.presences⟩
  constructor
  · intro kind m p rest hs hread
    obtain ⟨parts, ⟨rfl, hf, hparts⟩, rfl⟩ := (Message.finds_cells kind).spelled hread
    rw [← Message.fill_cells m]
    exact ⟨(Message.reads_cells hf hs).rewritten hparts, Message.presences hs⟩
  constructor
  · intro raw h hread parts body hparts
    obtain ⟨rest, hread⟩ : ∃ rest, (read : Reader Header) raw = (.ok h, rest) :=
      ⟨_, Prod.ext hread rfl⟩
    obtain ⟨-, ⟨hf, -⟩, -⟩ := Laid.finds _ _ _ hread
    have hread' : read (parts.flatten ++ body) = (.ok h, body) := Laid.reads hf _ hparts _
    rw [Header.ofBlock, Reader.value, hread']
    rfl
  · intro h h' p p' rest rest' hread hread'
    obtain ⟨parts, ⟨hf, hparts⟩, rfl⟩ := Laid.finds.spelled hread
    obtain ⟨parts', ⟨hf', hparts'⟩, rfl⟩ := Laid.finds.spelled hread'
    constructor
    · intro heq
      obtain rfl := write_injective hf hf' heq
      exact ⟨parts', hparts', rfl⟩
    · rintro ⟨other, hother, heq⟩
      rw [heq, Laid.reads hf _ hother] at hread'
      simp only [Prod.mk.injEq, Except.ok.injEq, and_true] at hread'
      rw [hread']

def sampleParts : List Bytes := (cells sampleHeader).map Cell.octets

/-- The same with a presence of two, a padded count and a padded length. -/
def paddedParts : List Bytes :=
  ((sampleParts.set 7 [2]).set 9 [0x81, 0x00]).set 14 [0x83, 0x80, 0x80, 0x00]

theorem spelling_paddedParts : Spelling (cells sampleHeader) paddedParts :=
  .cons rfl <| .cons rfl <| .cons rfl <| .cons rfl <| .cons rfl <| .cons rfl <| .cons rfl <|
    .cons ⟨2, rfl, by decide⟩ <| .cons rfl <| .cons rfl <| .cons rfl <| .cons rfl <|
    .cons rfl <| .cons rfl <| .cons rfl <| .cons rfl .nil

/-- A padded header, and a notice of nothing with a padded count. -/
theorem sample_reencoding :
    paddedParts.flatten ≠ write sampleHeader ∧
    Rewritten read sampleHeader (cells sampleHeader) paddedParts.flatten (write sampleHeader) ∧
    Rewritten (Message.reader .notice) (.notice {}) (Message.notice {}).cells
      ([0, 0, 0, 0, 0, 0, 0, 0, 0x80, 0] ++ [0, 0, 0, 0, 0, 0, 0, 0, 0])
      (Message.notice {}).payload ∧
    (Header.ofBlock (paddedParts.flatten ++ [7])).map Header.id = .ok sampleHeader.id ∧
    ∃ parts, Spelling (cells sampleHeader) parts ∧ paddedParts.flatten = parts.flatten := by
  obtain ⟨hheader, hmessage, hid, halike⟩ := canonical_reencoding
  have hread (rest : Bytes) :
      (read : Reader Header) (paddedParts.flatten ++ rest) = (.ok sampleHeader, rest) :=
    Laid.reads fits_sampleHeader _ spelling_paddedParts rest
  have hblock : Header.ofBlock (write sampleHeader ++ []) = .ok sampleHeader :=
    congrArg Prod.fst (readsBack_header fits_sampleHeader [])
  constructor
  · decide +kernel
  constructor
  · exact (hheader _ _ [] (hread [])).1
  constructor
  · exact (hmessage .notice (.notice {}) _ [] trivial rfl).1
  constructor
  · exact hid _ _ hblock _ [7] spelling_paddedParts
  · exact (halike _ _ _ _ [] [7] (hread []) (hread [7])).mp rfl

end BlockSync

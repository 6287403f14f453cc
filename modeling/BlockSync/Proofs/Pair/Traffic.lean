import BlockSync.Proofs.Chain.Extension
import BlockSync.Proofs.Pair.Exchange
import BlockSync.Proofs.Session.Routine
import BlockSync.Proofs.Wire.Sizes

/-! The messages between two parties where the chain of one extends the other's: those that have
arrived and those that a loop will still send, and what each party says. Blocks that arrive in
order do not run ahead of the head by more than one. Only a block or a handshake can be too long
for a frame. -/

namespace BlockSync.Session

open BlockSync.Chain (Memory StoredBlock)

/-- Whether a frame with a payload is taken by who reads it. -/
def Admitted (payload : Bytes) : Prop := Frame.admits (Frame.length ⟨0, payload⟩) = true

theorem Fitting.admitted {payload : Bytes} (h : Fitting payload) : Admitted payload := by
  obtain ⟨hleast, hmost⟩ := h
  have hsize : payload.length + 1 < 2 ^ 32 := Nat.lt_trans hmost (by decide)
  rw [Admitted, Frame.admits_iff, Frame.length, UInt32.toNat_ofNat_of_lt' hsize]
  exact ⟨Nat.succ_le_succ hleast, hmost⟩

def Bars (a b : Memory) (n : UInt32) : Prop :=
  a.headNum < n ∧ ∃ y, b.blocks.get? n = some y ∧ ¬ Admitted y.raw

def letters (es : List Event) : List Message := es.filterMap Event.message?

def mail (x : Party Memory) : List Message := (x.inbox ++ x.unread).filterMap Frame.message?

/-- Whether the texts of a handshake have lengths that can be written. -/
def Brief (settings : Settings) : Prop := Short settings.p2pAddress ∧ Short settings.agent

/-- Whether the handshakes of a party are taken by who reads them. -/
structure Greets (settings : Settings) : Prop where
  brief : Brief settings
  admitted : ∀ n : Node Memory,
    Admitted (Message.handshake (n.handshake Memory.engine settings)).payload

/-- Whether the blocks of the longer chain above the shorter one fit into a frame. -/
def Fits (a b : Memory) : Prop :=
  ∀ n y, b.blocks.get? n = some y → a.headNum < n → n ≤ b.headNum → Fitting y.raw

/-- Whether all that two parties are to say to each other fits into frames. -/
structure Portable (g h : Origin Memory) : Prop where
  left : Greets g.settings
  right : Greets h.settings
  blocks : Fits g.chain h.chain

def requests (ms : List Message) : List BlockRange :=
  ms.filterMap fun
    | .syncRequest range => some range
    | _ => none

def Requested (ranges : List BlockRange) (last : UInt32) : Prop :=
  ∃ range, ranges.getLast? = some range ∧ range.isReset = false ∧ range.last = last

def number : Message → Nat
  | .signedBlock raw =>
    match Header.ofBlock raw with
    | .ok header => header.blockNum.toNat
    | .error _ => 0
  | _ => 0

/-- The highest number among a head and the blocks on their way. -/
def front (head : Nat) (ms : List Message) : Nat := ms.foldl (fun k m => max k (number m)) head

def Leads : Nat → List Message → Prop
  | _, [] => True
  | head, m :: ms => number m ≤ head + 1 ∧ Leads (max head (number m)) ms

section

variable {P : Header → Prop} {m : Message} {ms ns : List Message} {es es' : List Event}
  {x : Party Memory} {head : Nat}

theorem letters_append (es es' : List Event) : letters (es ++ es') = letters es ++ letters es' :=
  List.filterMap_append

theorem letters_said (h : Honest P m) (es : List Event) :
    letters (.said m :: es) = m :: letters es :=
  List.filterMap_cons_some (Message.message?_ofWritten h.fits)

theorem letters_eq (es : List Event) : letters es = (sent es).filterMap Frame.message? := by
  rw [letters, sent, List.filterMap_filterMap]
  congr 1
  funext e
  cases e <;> rfl

theorem mail_receive (es : List Event) (x : Party Memory) :
    mail (x.receive es) = mail x ++ letters es := by
  obtain ⟨fs, gs, hr⟩ := x.received es
  rw [hr.eq, letters_eq, hr.sent_eq, mail, mail, ← List.filterMap_append]
  congr 1
  by_cases hread : x.unread = []
  · simp only [hread, List.append_nil, List.nil_append, List.append_assoc]
  · simp only [hr.behind hread, List.append_nil, List.nil_append, List.append_assoc]

theorem mail_cons {f : Frame} {rest : List Frame} (hi : x.inbox = f :: rest)
    (hm : f.message? = some m) : mail x = m :: mail { x with inbox := rest } := by
  rw [mail, hi, List.cons_append, List.filterMap_cons_some hm]
  rfl

theorem mem_mail_of_change {y : Party Memory} {o o' : Outlook} (h : Change P x o es y o')
    (hm : m ∈ mail y) : m ∈ mail x := by
  cases h with
  | take hi hf =>
    rw [mail_cons hi hf]
    exact List.mem_cons_of_mem _ hm
  | pass | proceed | finish | respond | retire | renew => exact hm

theorem requests_append (ms ns : List Message) : requests (ms ++ ns) = requests ms ++ requests ns :=
  List.filterMap_append

theorem requests_cons_of_ne (h : ∀ range, m ≠ .syncRequest range) (ms : List Message) :
    requests (m :: ms) = requests ms := by
  cases m with
  | syncRequest range => exact absurd rfl (h range)
  | _ => rfl

theorem front_append (head : Nat) (ms ns : List Message) :
    front head (ms ++ ns) = front (front head ms) ns := List.foldl_append

theorem le_front (head : Nat) (ms : List Message) : head ≤ front head ms := by
  induction ms generalizing head with
  | nil => exact Nat.le_refl head
  | cons m ms ih => exact Nat.le_trans (Nat.le_max_left _ _) (ih _)

theorem front_of_quiet (h : ∀ m ∈ ms, number m = 0) (head : Nat) : front head ms = head := by
  induction ms with
  | nil => rfl
  | cons m ms ih =>
    obtain ⟨hm, hms⟩ := List.forall_mem_cons.mp h
    change front (max head (number m)) ms = head
    rw [hm, Nat.max_zero, ih hms]

theorem leads_append : Leads head (ms ++ ns) ↔ Leads head ms ∧ Leads (front head ms) ns := by
  induction ms generalizing head with
  | nil => exact ⟨fun h => ⟨trivial, h⟩, And.right⟩
  | cons m ms ih =>
    rw [List.cons_append, Leads, Leads, ih, and_assoc]
    rfl

theorem leads_of_quiet (h : ∀ m ∈ ms, number m = 0) : Leads head ms := by
  induction ms generalizing head with
  | nil => trivial
  | cons m ms ih =>
    obtain ⟨hm, hms⟩ := List.forall_mem_cons.mp h
    exact ⟨by rw [hm]; exact Nat.zero_le _, ih hms⟩

end

variable {a b : Memory}

/-- Messages about the longer chain, other than its blocks. -/
inductive Word (b : Memory) : Message → Prop
  | reset : Word b (.syncRequest .reset)
  | handshake {m : Handshake} : m.libNum = b.libNum → m.headNum = b.headNum →
      Admitted (Message.handshake m).payload → Word b (.handshake m)
  | notice {m : Notice} : (m.blocks.mode = .lastIrreversible → m.blocks.pending = b.headNum) →
      Admitted (Message.notice m).payload → Word b (.notice m)

inductive Block (a b : Memory) : Message → Prop
  | mk {n y} : b.blocks.get? n = some y → a.headNum < n → n ≤ b.headNum →
      Block a b (.signedBlock y.raw)

/-- Messages of the party with the shorter chain, where it has or is being sent the blocks up to a
number. -/
inductive Ask (a b : Memory) (top : Nat) : Message → Prop
  | reset : Ask a b top (.syncRequest .reset)
  | range {range : BlockRange} : a.headNum < range.first → range.first.toNat ≤ top + 1 →
      range.last ≤ b.headNum → Ask a b top (.syncRequest range)
  | handshake {m : Handshake} : m.headNum ≤ b.headNum → m.libNum ≤ b.headNum →
      Admitted (Message.handshake m).payload → Ask a b top (.handshake m)
  | request (anchor : Checksum) : Ask a b top (.request (.catchUp anchor))

variable {top top' : Nat} {k : Message}

theorem Word.number_eq (h : Word b k) : number k = 0 := by
  cases h <;> rfl

theorem Ask.mono (h : Ask a b top k) (hle : top ≤ top') : Ask a b top' k := by
  cases h with
  | reset => exact .reset
  | range hlow hnear hlast => exact .range hlow (Nat.le_trans hnear (Nat.succ_le_succ hle)) hlast
  | handshake hhead hlib hfit => exact .handshake hhead hlib hfit
  | request anchor => exact .request anchor

theorem admitted_syncRequest (range : BlockRange) :
    Admitted (Message.syncRequest range).payload := by
  rw [Admitted, Frame.length, Message.length_syncRequest]
  decide

theorem admitted_notice {m : Notice} (h : m.transactions.ids.length + m.blocks.ids.length ≤ 2) :
    Admitted (Message.notice m).payload := by
  have hlength := Wire.length_write_idLists m.transactions m.blocks
  refine Fitting.admitted ⟨hlength.1, ?_⟩
  change (Wire.write m.transactions ++ Wire.write m.blocks : Bytes).length + 1 < _
  omega

theorem admitted_catchUp (anchor : Checksum) :
    Admitted (Message.request (.catchUp anchor)).payload := by
  have hlength := Wire.length_write_idLists (Request.catchUp anchor).transactions
    (Request.catchUp anchor).blocks
  refine Fitting.admitted ⟨hlength.1, Nat.lt_of_le_of_lt (Nat.succ_le_succ hlength.2) ?_⟩
  exact (by decide : 26 + 32 * (0 + 1) + 1 < 5 * 1024 * 1024)

theorem Ask.admitted (h : Ask a b top k) : Admitted k.payload := by
  cases h with
  | reset | range => exact admitted_syncRequest _
  | handshake _ _ hadmitted => exact hadmitted
  | request anchor => exact admitted_catchUp anchor

theorem Word.admitted (h : Word b k) : Admitted k.payload := by
  cases h with
  | reset => exact admitted_syncRequest _
  | handshake _ _ hadmitted => exact hadmitted
  | notice _ hadmitted => exact hadmitted

theorem Block.admitted (hf : Fits a b) (h : Block a b k) : Admitted k.payload := by
  cases h with
  | mk hy hlow hle => exact (hf _ _ hy hlow hle).admitted

theorem number_signedBlock {raw : Bytes} {header : Header} (hd : Header.ofBlock raw = .ok header) :
    number (.signedBlock raw) = header.blockNum.toNat := by
  rw [number, hd]

theorem number_of_get? {n : UInt32} {y : StoredBlock} (hb : b.Genuine fun _ => True)
    (hy : b.blocks.get? n = some y) :
    ∃ header, Header.ofBlock y.raw = .ok header ∧ header.blockNum = n ∧ header.id = y.id := by
  obtain ⟨hmem, hnum⟩ := Chain.Store.mem_of_get? hy
  obtain ⟨header, hd, hbn, hid, -⟩ := hb y hmem
  exact ⟨header, hd, hbn.trans hnum, hid⟩

theorem Block.honest (h : Block a b k) (hb : b.Genuine fun _ => True) :
    Honest (fun _ => True) k := by
  obtain ⟨hy, -, -⟩ := h
  obtain ⟨header, hd, -⟩ := number_of_get? hb hy
  exact honest_signedBlock ⟨header, hd, trivial⟩

theorem admits_ofWritten (m : Message) :
    Frame.admits (Frame.ofWritten m.frame).length = true ↔ Admitted m.payload := by
  rw [m.ofWritten_frame]
  rfl

theorem unread_receive {P : Header → Prop} {x : Party Memory} {es : List Event}
    (hes : ∀ e ∈ es, Mannered P e) (hadmitted : ∀ m ∈ letters es, Admitted m.payload)
    (hx : x.unread = []) : (x.receive es).unread = [] := by
  obtain ⟨fs, gs, hr⟩ := x.received es
  rw [hr.eq]
  change x.unread ++ gs = []
  cases gs with
  | nil => exact (List.append_nil _).trans hx
  | cons g gs =>
    have hg : g ∈ sent es := hr.sent_eq ▸ List.mem_append_right fs List.mem_cons_self
    obtain ⟨bytes, hwrote, rfl⟩ := mem_sent.mp hg
    obtain ⟨m, rfl, hm⟩ := hes _ hwrote
    have hletter : m ∈ letters es :=
      List.mem_filterMap.mpr ⟨_, hwrote, Message.message?_ofWritten hm.fits⟩
    have hrefused := hr.refused hx _ rfl
    rw [(admits_ofWritten m).mpr (hadmitted m hletter)] at hrefused
    cases hrefused

variable {settings : Settings}

def Talk (Q : Message → Prop) (es : List Event) : Prop :=
  ∀ e ∈ es, ∃ m, e = .said m ∧ m.Fits ∧ Q m

namespace Talk

variable {Q : Message → Prop} {es : List Event}

theorem nil : Talk Q [] := fun _ he => absurd he List.not_mem_nil

theorem cons (hm : Honest (fun _ => True) k) (hQ : Q k) (h : Talk Q es) :
    Talk Q (.said k :: es) :=
  List.forall_mem_cons.mpr ⟨⟨k, rfl, hm.fits, hQ⟩, h⟩

theorem of_mem_letters (h : Talk Q es) : ∀ m ∈ letters es, Q m := by
  intro m hm
  obtain ⟨e, he, hw⟩ := List.mem_filterMap.mp hm
  obtain ⟨m', rfl, hf, hQ⟩ := h e he
  cases (Message.message?_ofWritten hf).symm.trans hw
  exact hQ

theorem still (h : Talk Q es) : ∀ e ∈ es, e.Still := by
  intro e he raw wantStatistics result hp
  obtain ⟨m, rfl, -⟩ := h e he
  cases hp

theorem begun_eq (h : Talk Q es) : begun es = [] := by
  refine List.filterMap_eq_nil_iff.mpr fun e he => ?_
  obtain ⟨m, rfl, -⟩ := h e he
  rfl

theorem append {es' : List Event} (h : Talk Q es) (h' : Talk Q es') : Talk Q (es ++ es') :=
  List.forall_mem_append.mpr ⟨h, h'⟩

end Talk

end BlockSync.Session

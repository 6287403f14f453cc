import BlockSync.Chain.Fixture
import BlockSync.Proofs.Session.Reaction
import BlockSync.Proofs.Session.Tame

/-! A block from the peer is offered to the engine at most once, and unless it is accepted the
session stays as it was. The peer is asked to start over where a block is missing, and nothing else
is written. -/

namespace BlockSync.Session

open BlockSync.Chain (Engine)

variable {σ : Type} {E : Engine σ} {settings : Settings} {n n' : Node σ} {es : List Event}
  {raw : Bytes} {header : Header}

def IsPush : Op → Prop
  | .push _ _ => True
  | _ => False

theorem Tame.atMost {α : Type} {p : Action α} (h : Tame p) (k : Nat) : p.AtMost IsPush k := by
  refine Program.Within.atMost h (fun op hop hpush => ?_) k
  cases op with
  | push => exact hop
  | _ => exact hpush

theorem atMost_offerBlock (settings : Settings) (header : Header) (raw : Bytes) :
    (offerBlock settings header raw).AtMost IsPush 1 := by
  refine .quiet id fun now => .request fun result => ?_
  rcases result with fault | text
  · cases fault with
    | unlinkable => exact tame_restart.atMost 0
    | _ =>
      dsimp only
      split
      · trivial
      · exact .quiet id fun _ => trivial
  · exact .quiet id fun _ => (tame_afterBlock settings _ _).atMost 0

theorem atMost_handleBlock (settings : Settings) (raw : Bytes) :
    (handleBlock settings raw).AtMost IsPush 1 := by
  unfold handleBlock
  split
  · trivial
  next header _ =>
  have ho := atMost_offerBlock settings header raw
  refine .quiet id fun headNum => ?_
  split
  · refine .quiet id fun known => ?_
    split
    · trivial
    · exact ho
  · split
    · exact tame_restart.atMost 1
    · exact ho

def pushes (es : List Event) : List Chain.PushResult :=
  es.filterMap fun
    | .pushed _ _ result => some result
    | _ => none

def written (es : List Event) : List Bytes :=
  es.filterMap fun
    | .wrote frame => some frame
    | _ => none

/-- Whether a block is no higher than the one above the head, and not the one that is there. -/
def Due (E : Engine σ) (n : Node σ) (header : Header) : Prop :=
  header.blockNum.toNat ≤ (n.headNum E).toNat + 1 ∧
    ¬ (header.blockNum ≤ n.headNum E ∧
      E.answer n.chain (.idAt header.blockNum) = some header.id)

def Missed (E : Engine σ) (n : Node σ) (raw : Bytes) (es : List Event) : Prop :=
  (∃ header, Header.ofBlock raw = .ok header ∧
    (n.headNum E).toNat + 1 < header.blockNum.toNat) ∨
  .error .unlinkable ∈ pushes es

/-- What may become of a block from the peer. -/
structure Ingested (E : Engine σ) (n : Node σ) (raw : Bytes) (n' : Node σ) (es : List Event) :
    Prop where
  once : (pushes es).length ≤ 1
  offered : pushes es ≠ [] ↔ ∃ header, Header.ofBlock raw = .ok header ∧ Due E n header
  whole : ∀ raw' wantStatistics result, Event.pushed raw' wantStatistics result ∈ es →
    raw' = raw ∧ result = (E.push n.chain raw wantStatistics).2
  unchanged : (∀ text, .ok text ∉ pushes es) → n'.session = n.session
  restarted : Missed E n raw es →
    written es =
      [(Message.syncRequest .reset).frame, (Message.request (.catchUp (n'.headId E))).frame]
  silent : (∀ text, .ok text ∉ pushes es) → ¬ Missed E n raw es → written es = []

theorem due_of_offered (h : Offered E n header) : Due E n header := by
  constructor
  · by_cases hle : header.blockNum ≤ n.headNum E
    · rw [UInt32.le_iff_toNat_le] at hle
      omega
    · have hlt := UInt32.not_le.mp hle
      have hnear := h.near hlt
      rw [UInt32.lt_iff_toNat_lt, toNat_satAdd_one_of_lt hlt] at hnear
      omega
  · rintro ⟨hle, hid⟩
    exact h.unknown hle hid

theorem said_of_sought (h : Sought E settings n n' es) : ∀ e ∈ es, ∃ m, e = .said m := by
  cases h with
  | unknown => exact fun _ he => absurd he List.not_mem_nil
  | range | nothing => exact List.forall_mem_singleton.mpr ⟨_, rfl⟩

theorem said_of_greeted {num : UInt32} (h : Greeted E settings num n n' es) :
    ∀ e ∈ es, ∃ m, e = .said m := by
  cases h with
  | yes => exact List.forall_mem_singleton.mpr ⟨_, rfl⟩
  | no => exact fun _ he => absurd he List.not_mem_nil

theorem said_of_followed {num : UInt32} (h : Followed E settings num n n' es) :
    ∀ e ∈ es, ∃ m, e = .said m := by
  cases h with
  | within => exact fun _ he => absurd he List.not_mem_nil
  | next _ _ hs => exact said_of_sought hs
  | settled =>
    exact List.forall_mem_cons.mpr ⟨⟨_, rfl⟩, List.forall_mem_singleton.mpr ⟨_, rfl⟩⟩

theorem pushes_eq_nil (h : ∀ e ∈ es, ∃ m, e = .said m) : pushes es = [] := by
  refine List.filterMap_eq_nil_iff.mpr fun e he => ?_
  obtain ⟨m, rfl⟩ := h e he
  rfl

theorem mem_pushes {raw : Bytes} {wantStatistics : Bool} {result : Chain.PushResult}
    (h : Event.pushed raw wantStatistics result ∈ es) : result ∈ pushes es :=
  List.mem_filterMap.mpr ⟨_, h, rfl⟩

theorem Ingested.of_unoffered (hdue : ∀ header, Header.ofBlock raw = .ok header → ¬ Due E n header)
    (hp : pushes es = []) (hsame : n'.session = n.session)
    (hmissed : ∀ header, Header.ofBlock raw = .ok header →
      (n.headNum E).toNat + 1 < header.blockNum.toNat → written es =
        [(Message.syncRequest .reset).frame, (Message.request (.catchUp (n'.headId E))).frame])
    (hsilent : (∀ header, Header.ofBlock raw = .ok header →
      ¬ (n.headNum E).toNat + 1 < header.blockNum.toNat) → written es = []) :
    Ingested E n raw n' es where
  once := by
    rw [hp]
    exact Nat.zero_le 1
  offered := by
    constructor
    · intro hne
      exact absurd hp hne
    · rintro ⟨header, hd, h⟩
      exact absurd h (hdue header hd)
  whole raw' wantStatistics result he := by
    have hmem := mem_pushes he
    rw [hp] at hmem
    cases hmem
  unchanged _ := hsame
  restarted hm := by
    rcases hm with ⟨header, hd, hgap⟩ | hu
    · exact hmissed header hd hgap
    · rw [hp] at hu
      cases hu
  silent _ hm := hsilent fun header hd hgap => hm (.inl ⟨header, hd, hgap⟩)

theorem Ingested.of_offered {wantStatistics : Bool} {result : Chain.PushResult}
    (hd : Header.ofBlock raw = .ok header) (hdue : Due E n header)
    (hres : (E.push n.chain raw wantStatistics).2 = result) (hp : pushes es = [])
    (hsame : (∀ text, result ≠ .ok text) → n'.session = n.session)
    (hmissed : result = .error .unlinkable → written es =
      [(Message.syncRequest .reset).frame, (Message.request (.catchUp (n'.headId E))).frame])
    (hsilent : (∀ text, result ≠ .ok text) → result ≠ .error .unlinkable → written es = []) :
    Ingested E n raw n' (.pushed raw wantStatistics result :: es) := by
  have hpushes : pushes (.pushed raw wantStatistics result :: es) = [result] :=
    congrArg (result :: ·) hp
  have hrefused (h : ∀ text, .ok text ∉ pushes (.pushed raw wantStatistics result :: es)) :
      ∀ text, result ≠ .ok text := by
    intro text heq
    refine h text ?_
    rw [hpushes, heq]
    exact List.mem_singleton_self _
  constructor
  · rw [hpushes]
    exact Nat.le_refl 1
  · rw [hpushes]
    exact ⟨fun _ => ⟨header, hd, hdue⟩, fun _ => List.cons_ne_nil _ _⟩
  · intro raw' want result' he
    rcases List.mem_cons.mp he with he | he
    · cases he
      exact ⟨rfl, hres.symm⟩
    · have hmem := mem_pushes he
      rw [hp] at hmem
      cases hmem
  · intro h
    exact hsame (hrefused h)
  · intro hm
    rcases hm with ⟨header', hd', hgap⟩ | hu
    · cases hd.symm.trans hd'
      exact absurd hdue.1 (Nat.not_le.mpr hgap)
    · rw [hpushes] at hu
      exact hmissed (List.mem_singleton.mp hu).symm
  · intro h hm
    refine hsilent (hrefused h) fun heq => hm (.inr ?_)
    rw [hpushes, heq]
    exact List.mem_singleton_self _

theorem ingested_of_rejected (h : Rejected E n raw n' es) : Ingested E n raw n' es := by
  cases h with
  | undecodable hd =>
    have hnone (header : Header) (hd' : Header.ofBlock raw = .ok header) : False := by
      cases hd.symm.trans hd'
    exact .of_unoffered (fun header hd' => (hnone header hd').elim) rfl rfl
      (fun header hd' => (hnone header hd').elim) fun _ => rfl
  | fatal wantStatistics fault hd ho hres hu hk =>
    refine .of_offered hd (due_of_offered ho) hres rfl (fun _ => rfl) (fun heq => ?_)
      fun _ _ => rfl
    cases heq
    exact absurd rfl hu

theorem ingested_of_reaction (h : Reaction E settings n (.signedBlock raw) n' es) :
    Ingested E n raw n' es := by
  cases h with
  | repeated hd hle hid =>
    have hdecoded {header' : Header} (hd' : Header.ofBlock raw = .ok header') :
        header' = _ := Except.ok.inj (hd'.symm.trans hd)
    refine .of_unoffered (fun header hd' hdue => ?_) rfl rfl (fun header hd' hgap => ?_)
      fun _ => rfl
    · cases hdecoded hd'
      exact hdue.2 ⟨hle, hid⟩
    · cases hdecoded hd'
      rw [UInt32.le_iff_toNat_le] at hle
      omega
  | gap hd hlt hgap =>
    rw [UInt32.lt_iff_toNat_lt, toNat_satAdd_one_of_lt hlt] at hgap
    refine .of_unoffered (fun header hd' hdue => ?_) rfl rfl (fun _ _ _ => rfl) fun hno => ?_
    · cases hd.symm.trans hd'
      exact absurd hdue.1 (Nat.not_le.mpr hgap)
    · exact absurd hgap (hno _ hd)
  | unlinked wantStatistics hd ho hres =>
    exact .of_offered hd (due_of_offered ho) hres rfl (fun _ => rfl) (fun _ => rfl)
      fun _ hne => absurd rfl hne
  | known wantStatistics fault hd ho hres hk =>
    refine .of_offered hd (due_of_offered ho) hres rfl (fun _ => rfl) (fun heq => ?_)
      fun _ _ => rfl
    cases heq
    cases hk
  | accepted wantStatistics text hd ho hres _ _ hg hf =>
    refine .of_offered hd (due_of_offered ho) hres ?_ (fun hno => absurd rfl (hno text))
      (fun heq => nomatch heq) fun hno => absurd rfl (hno text)
    refine pushes_eq_nil fun e he => ?_
    rcases List.mem_append.mp he with he | he
    · exact said_of_greeted hg e he
    · exact said_of_followed hf e he

theorem ingested_of_verdict {b : Bool} (h : Verdict E settings n raw b n' es) :
    Ingested E n raw n' es := by
  cases b with
  | true => exact ingested_of_reaction h
  | false => exact ingested_of_rejected h

/-- Whatever the engine answers and the session knows of its peer, a block on a link that takes
frames is ingested. -/
theorem blocks_are_ingested (settings : Settings) (h : n.view.Open) (raw : Bytes) :
    (handleBlock settings raw).AtMost IsPush 1 ∧
      (∃ b n' es, Runs E (handleBlock settings raw) n b n' es) ∧
      ∀ b n' es, Runs E (handleBlock settings raw) n b n' es → Ingested E n raw n' es := by
  obtain ⟨b, n', es, hr, hv⟩ := endsIn_handleBlock (E := E) settings h raw
  refine ⟨atMost_handleBlock settings raw, ⟨b, n', es, hr⟩, ?_⟩
  intro b' m fs hr'
  obtain ⟨rfl, rfl, rfl⟩ := hr.unique hr'
  exact ingested_of_verdict hv

/-- A node on a link that takes frames, with an empty chain. -/
def plainNode : Node Chain.Memory where
  chain := Chain.Memory.ofSnapshot (Octets.zero 32) 0 (Octets.zero 32)
  session := Session.attach 0 {}
  sources := default

theorem open_plainNode : plainNode.view.Open := ⟨rfl, rfl, ⟨0, rfl⟩, rfl, rfl⟩

/-- A block with a gap of one below it. -/
def blockBeyondGap : Bytes :=
  ((Chain.fixture (Checksum.ofBlockNum 1) 1 1).headD [])

theorem blockBeyondGap_ingested :
    plainNode.view.Open ∧ (handleBlock {} blockBeyondGap).AtMost IsPush 1 ∧
      (∃ b n' es, Runs Chain.Memory.engine (handleBlock {} blockBeyondGap) plainNode b n' es) ∧
      ∀ b n' es, Runs Chain.Memory.engine (handleBlock {} blockBeyondGap) plainNode b n' es →
        Ingested Chain.Memory.engine plainNode blockBeyondGap n' es := by
  have ho : plainNode.view.Open := ⟨rfl, rfl, ⟨0, rfl⟩, rfl, rfl⟩
  exact ⟨ho, blocks_are_ingested {} ho blockBeyondGap⟩

end BlockSync.Session

import BlockSync.Proofs.Pair.Traffic

/-! The party with the shorter chain, and how it takes what the other one says. It pushes one block
after another, and has a range in view as long as an irreversible block is missing. -/

namespace BlockSync.Session

open BlockSync.Chain (Memory StoredBlock)

variable {a b : Memory} {k : Message}

inductive Advances (a b : Memory) : Memory → List Event → Memory → Prop
  | done (m : Memory) : Advances a b m [] m
  | push {m m' : Memory} {raw wantStatistics text es} : (m.push raw wantStatistics).2 = .ok text →
      m.headNum ≤ (m.push raw wantStatistics).1.headNum →
      a.Tracks b (m.push raw wantStatistics).1 →
      Advances a b (m.push raw wantStatistics).1 es m' →
      Advances a b m (.pushed raw wantStatistics (.ok text) :: es) m'
  | other {m m' : Memory} {e es} : Event.Still e →
      Advances a b m es m' → Advances a b m (e :: es) m'

variable {m m' : Memory}

theorem Advances.of_talk {Q : Message → Prop} {es : List Event} (h : Talk Q es) (m : Memory) :
    Advances a b m es m := by
  induction es with
  | nil => exact .done m
  | cons e es ih =>
    obtain ⟨⟨_, rfl, -⟩, hes⟩ := List.forall_mem_cons.mp h
    exact .other (fun _ _ _ h => nomatch h) (ih hes)

theorem Advances.proceed {v : View Memory} {e : Event} {es : List Event}
    (h : Advances a b v.chain (e :: es) m') (hv : a.Tracks b v.chain) :
    Advances a b (v.apply Memory.engine e).chain es m' ∧
      a.Tracks b (v.apply Memory.engine e).chain ∧
      v.chain.headNum ≤ (v.apply Memory.engine e).chain.headNum ∧
      ∀ raw wantStatistics result, e = .pushed raw wantStatistics result →
        ∃ text, result = .ok text := by
  cases h with
  | push _ hle ht hrest =>
    refine ⟨hrest, ht, hle, fun _ _ _ he => ?_⟩
    cases he
    exact ⟨_, rfl⟩
  | other hne hrest =>
    rw [View.chain_apply_of_still hne]
    exact ⟨hrest, hv, UInt32.le_refl _, fun _ _ _ he => absurd he (hne _ _ _)⟩

theorem Advances.headNum_le {es : List Event} (h : Advances a b m es m') :
    m.headNum ≤ m'.headNum := by
  induction h with
  | done => exact UInt32.le_refl _
  | push _ hle _ _ ih => exact UInt32.le_trans hle ih
  | other _ _ ih => exact ih

structure Behind (a b : Memory) (x : Party Memory) (o : Outlook) : Prop where
  chain : a.Tracks b x.node.chain
  ahead : Advances a b x.node.chain o.ahead o.after.chain
  errands : o.errands = []
  begun : begun o.ahead = []

theorem Behind.receive {x : Party Memory} {o : Outlook} (h : Behind a b x o) (es : List Event) :
    Behind a b (x.receive es) o := by
  obtain ⟨hchain, hahead, herrands, hbegun⟩ := h
  rw [← x.receive_node es] at hchain hahead
  exact ⟨hchain, hahead, herrands, hbegun⟩

/-- A move of the party with the shorter chain does not take blocks back, and no push fails. -/
theorem Behind.rises {x y : Party Memory} {o o' : Outlook} {es : List Event}
    {P : Header → Prop} (h : Behind a b x o) (hc : Change P x o es y o') :
    x.node.chain.headNum ≤ y.node.chain.headNum ∧ ∀ raw wantStatistics result,
      .pushed raw wantStatistics result ∈ es → ∃ text, result = .ok text := by
  have hnone {raw wantStatistics result} :
      Event.pushed raw wantStatistics result ∈ [] → ∃ text, result = .ok text :=
    fun h => absurd h List.not_mem_nil
  cases hc with
  | take =>
    refine ⟨UInt32.le_refl _, fun raw wantStatistics result he => ?_⟩
    cases List.mem_singleton.mp he
  | @pass n _ _ _ hv =>
    have hchain : n.chain = x.node.chain := congrArg View.chain hv
    exact ⟨hchain ▸ UInt32.le_refl _, fun _ _ _ => hnone⟩
  | @proceed n loop responders e rest work ha hv =>
    have hchain : n.chain = (x.node.view.apply Memory.engine e).chain := congrArg View.chain hv
    have hahead := h.ahead
    rw [ha] at hahead
    obtain ⟨-, -, hle, hok⟩ := hahead.proceed (v := x.node.view) h.chain
    refine ⟨?_, fun raw wantStatistics result he => ?_⟩
    · change _ ≤ n.chain.headNum
      rw [hchain]
      exact hle
    · exact hok raw wantStatistics result (List.mem_singleton.mp he).symm
  | finish => exact ⟨UInt32.le_refl _, fun _ _ _ => hnone⟩
  | respond heq | retire heq | renew heq =>
    rw [h.errands] at heq
    exact absurd heq.symm (List.append_ne_nil_of_right_ne_nil _ (List.cons_ne_nil _ _))

/-- The party with the shorter chain knows where the longer one stands. -/
structure Met (b : Memory) (n : Node Memory) : Prop where
  lib : n.remoteLib = b.libNum
  head : n.session.peer.remoteHead = some b.headNum

/-- A range in view, up to a block that is still missing. -/
structure Quest (b : Memory) (n : Node Memory) (last : UInt32) : Prop where
  range : n.rangeLast = some last
  above : n.chain.headNum < last
  within : last ≤ b.headNum

def Aimed (b : Memory) (n' : Node Memory) (es : List Event) : Prop :=
  b.libNum ≤ n'.chain.headNum ∨ ∃ last, Quest b n' last ∧ Requested (requests (letters es)) last

structure Kept (b : Memory) (n n' : Node Memory) (es : List Event) : Prop where
  requests : requests (letters es) = []
  head : n.chain.headNum ≤ n'.chain.headNum
  quest : ∀ last, Quest b n last → Quest b n' last

/-- How the party with the shorter chain takes a message. -/
structure Heeds (a b : Memory) (n : Node Memory) (k : Message) (n' : Node Memory)
    (es : List Event) : Prop where
  advances : Advances a b n.chain es n'.chain
  rises : n'.chain.headNum.toNat = max n.chain.headNum.toNat (number k)
  asks : ∀ m ∈ letters es, Ask a b n'.chain.headNum.toNat m
  begun : begun es = []

section

variable {settings : Settings} {n n' : Node Memory} {es : List Event}

theorem Heeds.of_talk (hn : n'.chain = n.chain) (hk : number k = 0)
    (h : Talk (Ask a b n.chain.headNum.toNat) es) : Heeds a b n k n' es where
  advances := hn ▸ .of_talk h _
  rises := by rw [hn, hk, Nat.max_zero]
  asks := hn ▸ h.of_mem_letters
  begun := h.begun_eq

theorem headNum_lt_satAdd (he : a.Extends b) (hm : a.Tracks b m) :
    a.headNum < satAdd m.headNum 1 := by
  have hab := UInt32.lt_iff_toNat_lt.mp (UInt32.lt_of_lt_of_le he.lib b.libNum_le)
  have ham := UInt32.le_iff_toNat_le.mp hm.above
  have hb := b.headNum.toNat_lt
  rw [UInt32.lt_iff_toNat_lt, toNat_satAdd, UInt32.toNat_one, UInt32.size]
  omega

theorem ask_range (he : a.Extends b) (hm : a.Tracks b m) {range : BlockRange}
    (hf : range.first = satAdd m.headNum 1) (hl : range.last ≤ b.headNum) :
    Ask a b m.headNum.toNat (.syncRequest range) := by
  refine .range (hf ▸ headNum_lt_satAdd he hm) ?_ hl
  rw [hf, toNat_satAdd, UInt32.toNat_one]
  exact Nat.min_le_left _ _

theorem aimed_seeking (he : a.Extends b) (hn : a.Tracks b n.chain) {range : BlockRange}
    (hf : range.first = satAdd n.chain.headNum 1) (hl : range.last ≤ b.headNum)
    (hes : (requests (letters es)).getLast? = some range) : Aimed b (n.seeking range) es := by
  have hlow : a.headNum < range.first := hf ▸ headNum_lt_satAdd he hn
  by_cases hlt : n.chain.headNum < b.headNum
  · have hle := UInt32.le_iff_toNat_le.mp range.first_le_last
    rw [hf, toNat_satAdd_one_of_lt hlt] at hle
    refine .inr ⟨range.last, ⟨rfl, ?_, hl⟩, range, hes, isReset_eq_false hlow, rfl⟩
    rw [UInt32.lt_iff_toNat_lt]
    exact hle
  · exact .inl (UInt32.le_trans b.libNum_le (UInt32.not_lt.mp hlt))

theorem aimed_of_sought (he : a.Extends b) (hn : a.Tracks b n.chain) (hmet : Met b n)
    (hlt : n.chain.headNum < b.headNum) (h : Sought Memory.engine settings n n' es) :
    n'.chain = n.chain ∧ Met b n' ∧ Talk (Ask a b n.chain.headNum.toNat) es ∧ Aimed b n' es := by
  obtain ⟨range, rfl, rfl, hf, hl⟩ := h.of_lt hmet.head hlt
  have hlast : range.last ≤ b.headNum := hl ▸ rangeEnd_le _ _ _
  have hask := ask_range he hn hf hlast
  have hletters := letters_said (P := fun _ => True) (honest_syncRequest range) []
  refine ⟨rfl, ⟨hmet.lib, hmet.head⟩, .cons (honest_syncRequest range) hask .nil, ?_⟩
  refine aimed_seeking he hn hf hlast ?_
  rw [hletters]
  rfl

theorem heeds_handshake (he : a.Extends b) (hn : a.Tracks b n.chain) {m : Handshake}
    (hw : Word b (.handshake m))
    (h : Reaction Memory.engine settings n (.handshake m) n' es) :
    Heeds a b n (.handshake m) n' es ∧ Met b n' ∧ Aimed b n' es := by
  cases hw with
  | handshake hlib hhead _ =>
    have hmet : Met b (n.heard m) := ⟨hlib, congrArg some hhead⟩
    have hwithin := hn.within
    cases h with
    | behind hlt hs =>
      change n.chain.headNum < m.libNum at hlt
      rw [hlib] at hlt
      obtain ⟨hc, hmet', ht, haim⟩ := aimed_of_sought (n := n.heard m) he hn hmet
        (UInt32.lt_of_lt_of_le hlt b.libNum_le) hs
      exact ⟨.of_talk hc rfl ht, hmet', haim⟩
    | content hge => exact ⟨.of_talk rfl rfl .nil, hmet, .inl (hlib ▸ UInt32.not_lt.mp hge)⟩
    | below hge =>
      exact ⟨.of_talk rfl rfl (.cons (honest_catchUp _) (.request _) .nil), hmet,
        .inl (hlib ▸ UInt32.not_lt.mp hge)⟩
    -- The other two answers are for a head above the longer chain's.
    | farAbove _ hfar =>
      have hlib' := n.chain.libNum_le
      change satAdd m.headNum 1 < n.chain.libNum at hfar
      rw [hhead, UInt32.lt_iff_toNat_lt, toNat_satAdd] at hfar
      rw [UInt32.le_iff_toNat_le] at hwithin hlib'
      have := b.headNum.toNat_lt
      rw [UInt32.size] at hfar
      omega
    | above _ hnear =>
      change satAdd m.headNum 1 < n.chain.headNum at hnear
      rw [hhead, UInt32.lt_iff_toNat_lt, toNat_satAdd] at hnear
      rw [UInt32.le_iff_toNat_le] at hwithin
      have := b.headNum.toNat_lt
      rw [UInt32.size] at hnear
      omega

theorem heeds_word (he : a.Extends b) (hn : a.Tracks b n.chain) (hw : Word b k)
    (hk : ∀ m, k ≠ .handshake m) (h : Reaction Memory.engine settings n k n' es) :
    Heeds a b n k n' es ∧ (Met b n → Met b n') ∧ (Aimed b n' es ∨ Kept b n n' es) := by
  cases hw with
  | handshake => exact absurd rfl (hk _)
  | reset =>
    cases h with
    | stops =>
      have hkept : ∀ last, Quest b n last → Quest b (n.mapSession stopResponder) last :=
        fun _ h => ⟨h.range, h.above, h.within⟩
      have hmet : Met b n → Met b (n.mapSession stopResponder) := fun h => ⟨h.lib, h.head⟩
      unfold Node.turns
      split
      · exact ⟨.of_talk rfl rfl .nil, hmet, .inr ⟨rfl, UInt32.le_refl _, hkept⟩⟩
      · refine ⟨⟨.other (fun _ _ _ h => nomatch h) (.done _), (Nat.max_zero _).symm, ?_, rfl⟩, hmet,
          .inr ⟨rfl, UInt32.le_refl _, hkept⟩⟩
        exact fun _ h => absurd h List.not_mem_nil
    | serves hr => cases hr
  | @notice m hpending _ =>
    cases h with
    | unmoved =>
      exact ⟨.of_talk rfl rfl .nil, id, .inr ⟨rfl, UInt32.le_refl _, fun _ h => h⟩⟩
    | pointed =>
      have hletters := letters_said (P := fun _ => True) (honest_catchUp n.chain.headId) []
      refine ⟨.of_talk rfl rfl (.cons (honest_catchUp _) (.request _) .nil), id,
        .inr ⟨?_, UInt32.le_refl _, fun _ h => h⟩⟩
      rw [show n.headId Memory.engine = n.chain.headId from rfl, hletters]
      rfl
    | invited range hmode hf hl =>
      have hlast : range.last ≤ b.headNum := by
        rw [hl, hpending hmode]
        exact UInt32.le_refl _
      have hask := ask_range he hn hf hlast
      have hreset := letters_said (P := fun _ => True) (honest_syncRequest .reset)
        [.said (.syncRequest range)]
      have hrange := letters_said (P := fun _ => True) (honest_syncRequest range) []
      refine ⟨.of_talk rfl rfl (.cons (honest_syncRequest _) .reset
        (.cons (honest_syncRequest range) hask .nil)), fun h => ⟨h.lib, h.head⟩, .inl ?_⟩
      refine aimed_seeking he hn hf hlast ?_
      rw [hreset, hrange]
      rfl

theorem talk_handshake (hs : Greets settings) (hn : a.Tracks b n.chain)
    (h : Talk (Ask a b n.chain.headNum.toNat) es) :
    Talk (Ask a b n.chain.headNum.toNat)
      (.said (.handshake (n.handshake Memory.engine settings)) :: es) :=
  .cons (honest_handshake hs.brief.1 hs.brief.2 n)
    (.handshake hn.within (UInt32.le_trans n.chain.libNum_le hn.within) (hs.admitted n)) h

theorem requests_handshake (hs : Greets settings) (n : Node Memory) (es : List Event) :
    requests (letters (.said (.handshake (n.handshake Memory.engine settings)) :: es)) =
      requests (letters es) := by
  rw [letters_said (P := fun _ => True) (honest_handshake hs.brief.1 hs.brief.2 n)]
  rfl

theorem talk_of_greeted {num : UInt32} (hs : Greets settings) (hn : a.Tracks b n.chain)
    (h : Greeted Memory.engine settings num n n' es) :
    n'.chain = n.chain ∧ n'.rangeLast = n.rangeLast ∧
      n'.session.peer.lastHandshake = n.session.peer.lastHandshake ∧
      Talk (Ask a b n.chain.headNum.toNat) es ∧ requests (letters es) = [] := by
  cases h with
  | yes => exact ⟨rfl, rfl, rfl, talk_handshake hs hn .nil, requests_handshake hs n []⟩
  | no => exact ⟨rfl, rfl, rfl, .nil, rfl⟩

theorem talk_of_followed {num : UInt32} (hs : Greets settings) (he : a.Extends b)
    (hn : a.Tracks b n.chain) (hmet : Met b n)
    (hnum : n.chain.headNum = num) (h : Followed Memory.engine settings num n n' es) :
    n'.chain = n.chain ∧ Met b n' ∧ Talk (Ask a b n.chain.headNum.toNat) es ∧
      (Aimed b n' es ∨ n' = n ∧ n.rangeLast ≠ some num ∧ requests (letters es) = []) := by
  cases h with
  | within hne => exact ⟨rfl, hmet, .nil, .inr ⟨rfl, hne, rfl⟩⟩
  | next _ hlt hsought =>
    rw [hmet.lib, ← hnum] at hlt
    obtain ⟨hc, hmet', ht, haim⟩ := aimed_of_sought he hn hmet
      (UInt32.lt_of_lt_of_le hlt b.libNum_le) hsought
    exact ⟨hc, hmet', ht, .inl haim⟩
  | settled _ hge =>
    rw [hmet.lib, ← hnum] at hge
    exact ⟨rfl, ⟨hmet.lib, hmet.head⟩,
      talk_handshake hs hn (.cons (honest_catchUp _) (.request _) .nil),
      .inl (.inl (UInt32.not_lt.mp hge))⟩

theorem push_of_offered {num : UInt32} {y : StoredBlock} {header : Header} (he : a.Extends b)
    (hb : b.Linked) (hg : b.Genuine fun _ => True) (hn : a.Tracks b n.chain)
    (hy : b.blocks.get? num = some y) (hlow : a.headNum < num) (hle : num ≤ b.headNum)
    (hnear : num.toNat ≤ n.chain.headNum.toNat + 1) (hbn : header.blockNum = num)
    (hid : header.id = y.id) (h : Offered Memory.engine n header) (wantStatistics : Bool) :
    n.chain.headNum < num ∧ ∃ text, (n.chain.push y.raw wantStatistics).2 = .ok text ∧
      (n.chain.push y.raw wantStatistics).1.headNum = num ∧
      a.Tracks b (n.chain.push y.raw wantStatistics).1 := by
  have hlt : n.chain.headNum < num := by
    refine UInt32.not_le.mp fun hle => h.unknown (hbn ▸ hle) ?_
    rw [hbn, hid]
    exact hn.idAt_of_le hb hy hlow hle
  have hnum : num = n.chain.headNum + 1 := by
    have hsize := num.toNat_lt
    rw [UInt32.lt_iff_toNat_lt] at hlt
    rw [← UInt32.toNat_inj, UInt32.toNat_add, UInt32.toNat_one]
    omega
  refine ⟨hlt, ?_⟩
  have hbelow := UInt32.lt_of_lt_of_le hlt hle
  rw [hnum] at hy
  obtain ⟨text, hpush⟩ := hn.push hb hg hbelow hy wantStatistics
  rw [hpush, hnum]
  exact ⟨text, rfl, (Chain.Store.mem_of_get? hy).2, hn.extend he hb hbelow hy⟩

theorem heeds_accepted {num : UInt32} {raw : Bytes} {wantStatistics : Bool}
    {text : Option String} {n₁ n₂ : Node Memory} {es' : List Event}
    (hs : Greets settings) (he : a.Extends b) (hmet : Met b n)
    (hnumber : number (.signedBlock raw) = num.toNat)
    (hlt : n.chain.headNum < num) (hnear : num.toNat ≤ n.chain.headNum.toNat + 1)
    (hok : (n.chain.push raw wantStatistics).2 = .ok text)
    (hhead : (n.chain.push raw wantStatistics).1.headNum = num)
    (htracks : a.Tracks b (n.chain.push raw wantStatistics).1)
    (hc₁ : n₁.chain = (n.chain.push raw wantStatistics).1)
    (hpeer : n₁.session.peer = n.session.peer)
    (hgreet : Greeted Memory.engine settings num n₁ n₂ es)
    (hfollow : Followed Memory.engine settings num n₂ n' es') :
    Heeds a b n (.signedBlock raw) n' (.pushed raw wantStatistics (.ok text) :: (es ++ es')) ∧
      Met b n' ∧
      (Aimed b n' (.pushed raw wantStatistics (.ok text) :: (es ++ es')) ∨
        Kept b n n' (.pushed raw wantStatistics (.ok text) :: (es ++ es'))) := by
  obtain ⟨hc₂, hrange, hheard, htalk, hnone⟩ := talk_of_greeted hs (hc₁ ▸ htracks) hgreet
  rw [hc₁] at hc₂ htalk
  rw [hpeer] at hheard
  have hmet₂ : Met b n₂ := by
    constructor
    · rw [← hmet.lib, Node.remoteLib, hheard, Node.remoteLib]
    · rw [← hmet.head, PeerState.remoteHead, hheard, PeerState.remoteHead]
  obtain ⟨hc, hmet', htalk', hend⟩ :=
    talk_of_followed hs he (hc₂ ▸ htracks) hmet₂ (hc₂ ▸ hhead) hfollow
  rw [hc₂] at hc htalk'
  rw [hhead] at htalk htalk'
  have htalks := htalk.append htalk'
  have hrequests : requests (letters (.pushed raw wantStatistics (.ok text) :: (es ++ es'))) =
      requests (letters es') := by
    change requests (letters (es ++ es')) = _
    rw [letters_append, requests_append, hnone, List.nil_append]
  have hnum : n'.chain.headNum = num := by rw [hc, hhead]
  refine ⟨⟨?_, ?_, hnum ▸ htalks.of_mem_letters, htalks.begun_eq⟩, hmet', ?_⟩
  · rw [hc]
    exact .push hok (hhead ▸ UInt32.le_of_lt hlt) htracks (.of_talk htalks _)
  · rw [hnum, hnumber, Nat.max_eq_right (Nat.le_of_lt (UInt32.lt_iff_toNat_lt.mp hlt))]
  obtain haim | ⟨rfl, hne, hquiet⟩ := hend
  · left
    refine haim.imp_right fun ⟨last, hquest, range, hlast, hrange⟩ => ?_
    exact ⟨last, hquest, range, hrequests ▸ hlast, hrange⟩
  · have hsame : n'.rangeLast = n.rangeLast := by
      rw [hrange, Node.rangeLast, Node.rangeLast, hpeer]
    refine .inr ⟨hrequests.trans hquiet, ?_, fun last hq => ⟨hsame.trans hq.range, ?_, hq.within⟩⟩
    · rw [hnum]
      exact UInt32.le_of_lt hlt
    -- Inside a range the head stays below its end, since the block is not the last one.
    · have habove := hq.above
      have hother : num ≠ last := fun h => hne (hsame.trans (h ▸ hq.range))
      rw [Ne, ← UInt32.toNat_inj] at hother
      rw [UInt32.lt_iff_toNat_lt] at habove hlt
      rw [hnum, UInt32.lt_iff_toNat_lt]
      omega

theorem heeds_block (hs : Greets settings) (he : a.Extends b) (hb : b.Linked)
    (hg : b.Genuine fun _ => True) (hn : a.Tracks b n.chain) (hmet : Met b n)
    (hk : Block a b k) (hnear : number k ≤ n.chain.headNum.toNat + 1)
    (h : Reaction Memory.engine settings n k n' es) :
    Heeds a b n k n' es ∧ Met b n' ∧ (Aimed b n' es ∨ Kept b n n' es) := by
  obtain @⟨num, y, hy, hlow, hle⟩ := hk
  obtain ⟨header, hd, hbn, hid⟩ := number_of_get? hg hy
  have hnumber : number (.signedBlock y.raw) = num.toNat := by rw [number_signedBlock hd, hbn]
  rw [hnumber] at hnear
  have hpush := push_of_offered he hb hg hn hy hlow hle hnear hbn hid
  cases h with
  | repeated hd' hle' =>
    cases hd.symm.trans hd'
    rw [hbn] at hle'
    have hmax := Nat.max_eq_left (UInt32.le_iff_toNat_le.mp hle')
    exact ⟨⟨.done _, hnumber ▸ hmax.symm, fun _ h => absurd h List.not_mem_nil, rfl⟩, hmet,
      .inr ⟨rfl, UInt32.le_refl _, fun _ h => h⟩⟩
  | gap hd' _ hgap =>
    cases hd.symm.trans hd'
    change satAdd n.chain.headNum 1 < header.blockNum at hgap
    have := num.toNat_lt
    rw [hbn, UInt32.lt_iff_toNat_lt, toNat_satAdd, UInt32.toNat_one, UInt32.size] at hgap
    omega
  | unlinked wantStatistics hd' ho hr | known wantStatistics _ hd' ho hr =>
    cases hd.symm.trans hd'
    obtain ⟨-, text, hok, -⟩ := hpush ho wantStatistics
    cases hok.symm.trans hr
  | accepted wantStatistics text hd' ho hr hview hpeer hgreet hfollow =>
    cases hd.symm.trans hd'
    obtain ⟨hlt, -, -, hhead, htracks⟩ := hpush ho wantStatistics
    rw [hbn] at hgreet hfollow
    exact heeds_accepted hs he hmet hnumber hlt hnear hr hhead htracks
      (congrArg View.chain hview) hpeer hgreet hfollow

end

end BlockSync.Session

import BlockSync.Proofs.Session.Ingestion

/-! Two nodes that show each other where they stand. Whatever is answered, a handshake is replied
to once at most. Of nodes at different heights the lower one asks and the higher one tells, and at
equal heights both keep silent. -/

namespace BlockSync.Session

open BlockSync.Chain (Engine Memory)

def IsSend : Op → Prop
  | .send _ _ => True
  | _ => False

section

variable (settings : Settings)

theorem atMost_shut : shut.AtMost IsSend 0 := by
  refine .quiet id fun before => .ite ?_ (.pure () 0)
  have hwriter : (before.writer.forM Action.hangUp).AtMost IsSend 0 := by
    cases before.writer with
    | none => exact .pure () 0
    | some link => exact .inl ⟨id, fun _ => .pure () 0⟩
  have hreader : (before.reader.forM Action.ignore).AtMost IsSend 0 := by
    cases before.reader with
    | none => exact .pure () 0
    | some link => exact .inl ⟨id, fun _ => .pure () 0⟩
  exact hwriter.bind fun _ => .ite hreader (.pure () 0)

theorem atMost_send (m : Message) : (send m).AtMost IsSend 1 := by
  refine .quiet id fun s => .ite (.pure false 1) ?_
  have hput : (putFrame m s.writer).AtMost IsSend 1 := by
    cases s.writer with
    | none => exact .pure false 1
    | some link => exact .inr ⟨Nat.one_pos, fun sent => .pure sent 0⟩
  have hshut (sent : Bool) : (do shut; return sent : Action Bool).AtMost IsSend 0 :=
    atMost_shut.bind fun _ => .pure sent 0
  exact hput.bind fun sent => .ite (hshut sent) (.pure sent 0)

theorem atMost_sendCatchUp : sendCatchUp.AtMost IsSend 1 :=
  .quiet id fun _ => atMost_send _

theorem atMost_buildHandshake : (buildHandshake settings).AtMost IsSend 0 := by
  iterate 8 refine .quiet id fun _ => ?_
  exact .pure _ 0

theorem atMost_sendHandshake : (sendHandshake settings).AtMost IsSend 1 :=
  (atMost_buildHandshake settings).bind fun _ => atMost_send _

theorem atMost_sendRange (first last : UInt32) : (sendRange first last).AtMost IsSend 1 := by
  unfold sendRange
  split
  · exact .pure true 1
  · exact .quiet id fun _ => atMost_send _

theorem atMost_sendSyncRequest : (sendSyncRequest settings none none).AtMost IsSend 1 := by
  refine .quiet id fun headNum => .quiet id fun peer => ?_
  cases peer.remoteHead with
  | none => exact .pure true 1
  | some remoteHead => exact .ite (atMost_sendHandshake settings) (atMost_sendRange _ _)

theorem atMost_handleHandshake (m : Handshake) : (handleHandshake settings m).AtMost IsSend 1 := by
  iterate 4 refine .quiet id fun _ => ?_
  refine .ite (atMost_sendSyncRequest settings) (.ite (.pure true 1) ?_)
  refine .ite atMost_sendCatchUp (.ite (atMost_send _) (.ite ?_ (.pure true 1)))
  exact .quiet id fun _ => atMost_send _

end

section

variable {σ τ : Type} {E : Engine σ} {F : Engine τ} {settings : Settings} {n n' : Node σ}
  {m : Handshake} {es : List Event}

/-- A handshake that was built when the chain was as it is now. -/
def Current (E : Engine σ) (n : Node σ) (m : Handshake) : Prop :=
  ∃ settings n₀ n₁ es, n₀.chain = n.chain ∧ Runs E (buildHandshake settings) n₀ m n₁ es

inductive Asks (E : Engine σ) (settings : Settings) (n : Node σ) (peerLib peerHead : UInt32) :
    List Bytes → Prop
  | range (range : BlockRange) : n.headNum E < peerLib →
      range.first.toNat = (n.headNum E).toNat + 1 →
      range.last.toNat =
        min ((n.headNum E).toNat + max 1 settings.syncFetchSpan.toNat) peerHead.toNat →
      Asks E settings n peerLib peerHead [(Message.syncRequest range).frame]
  | following : ¬ n.headNum E < peerLib →
      Asks E settings n peerLib peerHead [(Message.request (.catchUp (n.headId E))).frame]

inductive Tells (E : Engine σ) (n : Node σ) (peerHead : UInt32) : List Bytes → Prop
  | irreversible : peerHead.toNat + 1 < (n.headNum E).toNat →
      peerHead.toNat + 1 < (n.libNum E).toNat →
      Tells E n peerHead [(Message.notice (n.irreversibleNotice E)).frame]
  | blocks : peerHead.toNat + 1 < (n.headNum E).toNat →
      ¬ peerHead.toNat + 1 < (n.libNum E).toNat →
      Tells E n peerHead [(Message.notice (n.catchUpNotice E)).frame]
  | nothing : ¬ peerHead.toNat + 1 < (n.headNum E).toNat → Tells E n peerHead []

/-- What two nodes write when each has the other's handshake. -/
structure Exchanged (E : Engine σ) (F : Engine τ) (settings settings' : Settings) (a : Node σ)
    (b : Node τ) (frames frames' : List Bytes) : Prop where
  below : a.headNum E < b.headNum F →
    Asks E settings a (b.libNum F) (b.headNum F) frames ∧ Tells F b (a.headNum E) frames'
  above : b.headNum F < a.headNum E →
    Tells E a (b.headNum F) frames ∧ Asks F settings' b (a.libNum E) (a.headNum E) frames'
  level : a.headNum E = b.headNum F → frames = [] ∧ frames' = []

theorem Current.tells (h : Current E n m) :
    m.libNum = n.libNum E ∧ m.headNum = n.headNum E ∧ m.headId = n.headId E := by
  obtain ⟨settings, n₀, n₁, es, hchain, hr⟩ := h
  obtain ⟨rfl, -, -⟩ := hr.unique (runs_buildHandshake n₀ settings)
  simp [Node.handshake, Node.libNum, Node.headNum, Node.headId, hchain]

theorem toNat_satAdd_inStep_of_lt {a b : UInt32} (h : a < b) :
    (satAdd a inStep).toNat = a.toNat + 1 := toNat_satAdd_one_of_lt h

theorem toNat_rangeEnd_of_lt {head remoteHead : UInt32} (h : head < remoteHead) (span : UInt32) :
    (rangeEnd span (satAdd head 1) remoteHead).toNat =
      min (head.toNat + max 1 span.toNat) remoteHead.toNat := by
  rw [toNat_rangeEnd, toNat_satAdd_one_of_lt h]
  omega

theorem Compared.asks (h : Compared E settings n m n' es) (hlow : n.headNum E < m.headNum)
    (hid : n.headId E ≠ m.headId) : Asks E settings n m.libNum m.headNum (written es) := by
  cases h with
  | behind hlib hs =>
    obtain ⟨range, -, rfl, hfirst, hlast⟩ := hs.of_lt rfl hlow
    rw [hfirst] at hlast
    refine .range range hlib ?_ ?_
    · rw [hfirst]
      exact toNat_satAdd_one_of_lt hlow
    · rw [hlast]
      exact toNat_rangeEnd_of_lt hlow _
  | same _ hsame => exact absurd hsame hid
  | below hlib => exact .following hlib
  | farAbove _ hge | above _ hge | level _ hge => exact absurd hlow hge

theorem Compared.tells (h : Compared E settings n m n' es) (hhigh : m.headNum < n.headNum E)
    (hid : n.headId E ≠ m.headId) (hlib : m.libNum ≤ m.headNum)
    (hself : n.libNum E ≤ n.headNum E) : Tells E n m.headNum (written es) := by
  have hstep := toNat_satAdd_inStep_of_lt hhigh
  rw [UInt32.lt_iff_toNat_lt] at hhigh
  rw [UInt32.le_iff_toNat_le] at hlib hself
  cases h with
  | behind hbehind =>
    rw [UInt32.lt_iff_toNat_lt] at hbehind
    omega
  | same _ hsame => exact absurd hsame hid
  | below _ _ hbelow =>
    rw [UInt32.lt_iff_toNat_lt] at hbelow
    omega
  | farAbove _ _ hfar =>
    rw [UInt32.lt_iff_toNat_lt, hstep] at hfar
    exact .irreversible (Nat.lt_of_lt_of_le hfar hself) hfar
  | above _ _ hfar hnear =>
    rw [UInt32.lt_iff_toNat_lt, hstep] at hfar hnear
    exact .blocks hnear hfar
  | level _ _ hnear =>
    rw [UInt32.lt_iff_toNat_lt, hstep] at hnear
    exact .nothing hnear

theorem Compared.silent (h : Compared E settings n m n' es) (heq : n.headNum E = m.headNum)
    (hlib : m.libNum ≤ m.headNum) (hself : n.libNum E ≤ n.headNum E) : written es = [] := by
  have hstep : m.headNum.toNat ≤ (satAdd m.headNum inStep).toNat := by
    have := m.headNum.toNat_lt
    rw [toNat_satAdd, UInt32.size]
    omega
  have heq := congrArg UInt32.toNat heq
  rw [UInt32.le_iff_toNat_le] at hlib hself
  cases h with
  | same | level => rfl
  | behind hlt | below _ _ hlt | farAbove _ _ hlt | above _ _ _ hlt =>
    rw [UInt32.lt_iff_toNat_lt] at hlt
    omega

end

/-- A handshake is replied to once at most, whatever the chain and the peer's state are. Of two
nodes that have each other's handshake, only the lower one asks and only the higher one tells. -/
theorem handshake_exchange_is_asymmetric :
    (∀ settings m, (handleHandshake settings m).AtMost IsSend 1) ∧
    ∀ {σ τ : Type} (E : Engine σ) (F : Engine τ) (settings settings' : Settings) (a : Node σ)
      (b : Node τ) (m m' : Handshake), a.view.Open → b.view.Open →
      a.libNum E ≤ a.headNum E → b.libNum F ≤ b.headNum F →
      (a.headNum E ≠ b.headNum F → a.headId E ≠ b.headId F) →
      Current E a m → Current F b m' →
      ∃ a' b' es es', Runs E (handleHandshake settings m') a true a' es ∧
        Runs F (handleHandshake settings' m) b true b' es' ∧
        Exchanged E F settings settings' a b (written es) (written es') := by
  refine ⟨atMost_handleHandshake, ?_⟩
  intro σ τ E F settings settings' a b m m' ha hb hliba hlibb hids hm hm'
  obtain ⟨a', es, hr, hc⟩ := leadsTo_handleHandshake (E := E) settings ha m'
  obtain ⟨b', es', hr', hc'⟩ := leadsTo_handleHandshake (E := F) settings' hb m
  obtain ⟨hlib, hhead, hid⟩ := hm.tells
  obtain ⟨hlib', hhead', hid'⟩ := hm'.tells
  have hsane : m.libNum ≤ m.headNum := by rw [hlib, hhead]; exact hliba
  have hsane' : m'.libNum ≤ m'.headNum := by rw [hlib', hhead']; exact hlibb
  refine ⟨a', b', es, es', hr, hr', ?_, ?_, ?_⟩
  · intro hlt
    have hne := hids fun heq => UInt32.lt_irrefl _ (heq ▸ hlt)
    rw [← hhead', ← hlib', ← hhead]
    refine ⟨hc.asks (hhead' ▸ hlt) (hid' ▸ hne), hc'.tells (hhead ▸ hlt) ?_ hsane hlibb⟩
    rw [hid]
    exact hne.symm
  · intro hlt
    have hne := hids fun heq => UInt32.lt_irrefl _ (heq ▸ hlt)
    rw [← hhead, ← hlib, ← hhead']
    refine ⟨hc.tells (hhead' ▸ hlt) (hid' ▸ hne) hsane' hliba, hc'.asks (hhead ▸ hlt) ?_⟩
    rw [hid]
    exact hne.symm
  · intro heq
    exact ⟨hc.silent (heq.trans hhead'.symm) hsane' hliba,
      hc'.silent (heq.symm.trans hhead.symm) hsane hlibb⟩

def higherNode : Node Memory :=
  { plainNode with
    chain := Memory.ofSnapshot (Octets.zero 32) 40 (Checksum.ofBlockNum 40) }

theorem plainNode_meets_higherNode :
    let m := plainNode.handshake Memory.engine {}
    let m' := higherNode.handshake Memory.engine {}
    plainNode.view.Open ∧ higherNode.view.Open ∧
    plainNode.libNum Memory.engine ≤ plainNode.headNum Memory.engine ∧
    higherNode.libNum Memory.engine ≤ higherNode.headNum Memory.engine ∧
    (plainNode.headNum Memory.engine ≠ higherNode.headNum Memory.engine →
      plainNode.headId Memory.engine ≠ higherNode.headId Memory.engine) ∧
    Current Memory.engine plainNode m ∧ Current Memory.engine higherNode m' ∧
    ∃ a' b' es es', Runs Memory.engine (handleHandshake {} m') plainNode true a' es ∧
      Runs Memory.engine (handleHandshake {} m) higherNode true b' es' ∧
      Exchanged Memory.engine Memory.engine {} {} plainNode higherNode
        (written es) (written es') := by
  intro m m'
  have ha := open_plainNode
  have hb : higherNode.view.Open := ⟨rfl, rfl, ⟨0, rfl⟩, rfl, rfl⟩
  have hids : plainNode.headId Memory.engine ≠ higherNode.headId Memory.engine := by decide
  have hm : Current Memory.engine plainNode m :=
    ⟨{}, plainNode, _, _, rfl, runs_buildHandshake plainNode {}⟩
  have hm' : Current Memory.engine higherNode m' :=
    ⟨{}, higherNode, _, _, rfl, runs_buildHandshake higherNode {}⟩
  exact ⟨ha, hb, Memory.libNum_le _, Memory.libNum_le _, fun _ => hids, hm, hm',
    handshake_exchange_is_asymmetric.2 Memory.engine Memory.engine {} {} plainNode higherNode m m'
      ha hb (Memory.libNum_le _) (Memory.libNum_le _) (fun _ => hids) hm hm'⟩

end BlockSync.Session

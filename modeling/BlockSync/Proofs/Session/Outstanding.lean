import BlockSync.Proofs.Session.Ranges

/-! The range in view, which is what a session remembers to have asked for. It is the last range
that was asked for or none, and the end of the range settles it. A reset that is written on the way
is no end: the range stays in view, and a block at its end leads on as if nothing had happened. -/

namespace BlockSync.Session

open BlockSync.Chain (Engine Memory)

section

variable {σ : Type} {E : Engine σ} {settings : Settings} {n n' : Node σ} {es es' : List Event}
  {f : Frame}

def Node.inView (n : Node σ) : Option BlockRange := n.session.peer.lastRange

/-- The range that was asked for last, resets apart. -/
def lastAsked (es : List Event) : Option BlockRange :=
  ((ranges es).filter fun range => !range.isReset).getLast?

/-- What becomes of the range in view along events. -/
inductive Noted (old : Option BlockRange) : Option BlockRange → List Event → Prop
  | kept {fs} : Unasking fs → Noted old old fs
  | asked {fs range} : (ranges fs).getLast? = some range → range.isReset = false →
      Noted old (some range) fs
  | settled {fs} : ranges fs = [] → Noted old none fs

theorem isReset_of_first {range : BlockRange} {num : UInt32}
    (h : range.first = satAdd num 1) : range.isReset = false := by
  have hpos : 0 < range.first.toNat := by
    rw [h, toNat_satAdd, UInt32.toNat_one, UInt32.size]
    omega
  exact isReset_eq_false (UInt32.lt_iff_toNat_lt.mpr hpos : (0 : UInt32) < range.first)

theorem Noted.of_ranges {old new : Option BlockRange} (h : Noted old new es)
    (hr : ranges es' = ranges es) : Noted old new es' := by
  cases h with
  | kept hall => exact .kept fun range hmem => hall range (hr ▸ hmem)
  | asked hlast hne => exact .asked (hr ▸ hlast) hne
  | settled hnone => exact .settled (hr.trans hnone)

theorem noted_of_sought (h : Sought E settings n n' es) : Noted n.inView n'.inView es := by
  cases h with
  | unknown => exact .kept (.of_nil rfl)
  | range _ range _ hfirst =>
    refine .asked ?_ (isReset_of_first hfirst)
    rw [ranges_said]
    rfl
  | nothing => exact .kept (.of_nil (ranges_said _))

theorem noted_of_followed {num : UInt32} (h : Followed E settings num n n' es) :
    Noted n.inView n'.inView es := by
  cases h with
  | within => exact .kept (.of_nil rfl)
  | next _ _ hs => exact noted_of_sought hs
  | settled =>
    refine .settled ?_
    rw [ranges_said, ranges_said]
    rfl

theorem noted_of_reaction {m : Message} (h : Reaction E settings n m n' es) :
    Noted n.inView n'.inView es := by
  cases h with
  | behind _ hs => exact noted_of_sought (n := n.heard _) hs
  | content | unmoved | asked | repeated | serves | known => exact .kept (.of_nil rfl)
  | below | farAbove | above | pointed => exact .kept (.of_nil (ranges_said _))
  | invited range _ hfirst =>
    refine .asked ?_ (isReset_of_first hfirst)
    rw [ranges_said, ranges_said]
    rfl
  | stops => exact .kept (.of_nil (ranges_turns _))
  | gap => exact .kept (unasking_restart _)
  | unlinked => exact Noted.of_ranges (.kept (unasking_restart _)) rfl
  | @accepted _ _ n₁ n₂ _ es₁ es₂ _ _ _ _ _ _ hp hg hf =>
    have hview : n₂.inView = n.inView := by
      have hsame : n₂.inView = n₁.inView := by
        cases hg <;> rfl
      exact hsame.trans (congrArg PeerState.lastRange hp)
    have hnoted := noted_of_followed hf
    rw [hview] at hnoted
    refine hnoted.of_ranges ?_
    change ranges (es₁ ++ es₂) = _
    rw [ranges_append, ranges_of_greeted hg, List.nil_append]

theorem noted_of_outcome {b : Bool} (h : Outcome E settings n f b n' es) :
    Noted n.inView n'.inView es := by
  have hkept {m : Node σ} {fs : List Event} (hm : m.inView = n.inView) (hr : ranges fs = []) :
      Noted n.inView m.inView fs := by
    rw [hm]
    exact .kept (.of_nil hr)
  cases h with
  | passed => exact hkept rfl rfl
  | reacted _ hr => exact noted_of_reaction hr
  | timed _ ht =>
    refine hkept ?_ (ranges_of_timed ht)
    cases ht with
    | invalid | probed => rfl
    | answered =>
      simp only [Node.inView, Node.mapPeer, Node.mapSession, Session.mapPeer]
      split <;> rfl
  | rejected _ hr =>
    refine hkept ?_ (ranges_of_rejected hr)
    cases hr <;> rfl
  | left hp =>
    refine hkept ?_ (ranges_of_parting hp)
    simp only [Node.inView, Node.left, Node.mapSession, close]
    split <;> rfl

theorem lastAsked_append : lastAsked (es ++ es') = (lastAsked es').or (lastAsked es) := by
  rw [lastAsked, ranges_append, List.filter_append, List.getLast?_append]
  rfl

theorem lastAsked_of_unasking (h : Unasking es) : lastAsked es = none := by
  have hnone : (ranges es).filter (fun range => !range.isReset) = [] := by
    refine List.filter_eq_nil_iff.mpr fun range hr => ?_
    simp [h range hr]
  rw [lastAsked, hnone]
  rfl

theorem lastAsked_of_last {range : BlockRange} (h : (ranges es).getLast? = some range)
    (hne : range.isReset = false) : lastAsked es = some range := by
  obtain ⟨earlier, he⟩ := List.getLast?_eq_some_iff.mp h
  rw [lastAsked, he, List.filter_append]
  simp [hne]

theorem Noted.lasts {old new : Option BlockRange} (h : Noted old new es')
    (hold : old = none ∨ old = lastAsked es) : new = none ∨ new = lastAsked (es ++ es') := by
  rw [lastAsked_append]
  cases h with
  | kept hall =>
    rw [lastAsked_of_unasking hall, Option.none_or]
    exact hold
  | asked hlast hne =>
    rw [lastAsked_of_last hlast hne, Option.some_or]
    exact .inr rfl
  | settled => exact .inl rfl

end

/-- In every run of the loop the range in view is the last one that was asked for, if there is
one. A frame that leads to resets alone leaves it in view. -/
theorem resets_leave_range_in_view {σ : Type} {E : Engine σ} {settings : Settings}
    {start n : Node σ} {b : Bool} {es : List Event} (ho : start.view.Open)
    (h : Attends E settings start b n es) :
    (n.inView = none ∨ n.inView = lastAsked es) ∧
      (b = true → ∀ f b' n' es', Runs E (handleFrame settings f) n b' n' es' →
        Noted n.inView n'.inView es') := by
  constructor
  · refine h.invariant (I := fun m fs => m.inView = none ∨ m.inView = lastAsked fs) ho (.inl rfl)
      fun m f b m' fs fs' _ _ ih _ hout => ?_
    have hnoted : Noted m.inView m'.inView (.took f :: fs') :=
      (noted_of_outcome hout).of_ranges rfl
    exact hnoted.lasts ih
  · rintro rfl f b' n' es' hr
    exact noted_of_outcome (outcome_of_runs (h.keeps_open ho) hr)

/-- A handshake from a peer that is far ahead. -/
def farHandshake : Frame :=
  Frame.ofWritten
    (Message.handshake
      { plainNode.handshake Memory.engine {} with
        libNum := 900
        headNum := 1000
        headId := Checksum.ofBlockNum 1000 }).frame

def blockFrame (raw : Bytes) : Frame := ⟨MessageKind.signedBlock.tag, raw⟩

/-- The first block of an empty chain. -/
def firstBlock : Bytes := (Chain.fixture (Octets.zero 32) 0 1).headD []

/-- Asks for one block at a time. -/
def singly : Settings := { syncFetchSpan := 1 }

theorem attends_blockBeyondGap : ∃ n es,
    Attends Memory.engine singly plainNode true n es ∧ (ranges es).getLast? = some .reset ∧
      n.inView = some ⟨1, 1, by decide⟩ ∧
      ∃ n' es', Runs Memory.engine (handleFrame singly (blockFrame firstBlock)) n true n' es' ∧
        ranges es' = [⟨2, 2, by decide⟩] := by
  have hr : ((rounds Memory.engine singly plainNode [blockFrame blockBeyondGap, farHandshake]).bind
      fun (b, n, es) =>
        (evaluate Memory.engine (handleFrame singly (blockFrame firstBlock)) n).map
          fun (b', _, es') => (b, (ranges es).getLast?, n.inView, b', ranges es')) =
      some (true, some .reset, some ⟨1, 1, by decide⟩, true, [⟨2, 2, by decide⟩]) := by
    decide +kernel
  obtain ⟨⟨b, n, es⟩, hn, hr⟩ := Option.bind_eq_some_iff.mp hr
  obtain ⟨⟨b', n', es'⟩, hn', he⟩ := Option.map_eq_some_iff.mp hr
  simp only [Prod.mk.injEq] at he
  obtain ⟨rfl, hlast, hview, rfl, hnext⟩ := he
  exact ⟨n, es, attends_iff_rounds.mpr ⟨_, hn⟩, hlast, hview, n', es',
    runs_iff_evaluate.mpr hn', hnext⟩

/-- After a gap a reset is the last request, and yet the range stays in view: a block at its end
makes the loop ask for the next range. -/
theorem blockBeyondGap_leaves_range : ∃ n es range,
    plainNode.view.Open ∧ Attends Memory.engine singly plainNode true n es ∧
      (ranges es).getLast? = some .reset ∧ n.inView = some range ∧
      ∃ n' es', Runs Memory.engine (handleFrame singly (blockFrame firstBlock)) n true n' es' ∧
        ranges es' ≠ [] := by
  obtain ⟨n, es, ha, hlast, hview, n', es', hr, hnext⟩ := attends_blockBeyondGap
  refine ⟨n, es, _, open_plainNode, ha, hlast, hview, n', es', hr, ?_⟩
  rw [hnext]
  exact List.cons_ne_nil _ _

theorem blockBeyondGap_range_in_view : ∃ n es,
    plainNode.view.Open ∧ Attends Memory.engine singly plainNode true n es ∧
      (n.inView = none ∨ n.inView = lastAsked es) ∧
      ∀ f b n' es', Runs Memory.engine (handleFrame singly f) n b n' es' →
        Noted n.inView n'.inView es' := by
  obtain ⟨n, es, ha, -⟩ := attends_blockBeyondGap
  obtain ⟨hasked, hnoted⟩ := resets_leave_range_in_view open_plainNode ha
  exact ⟨n, es, open_plainNode, ha, hasked, hnoted rfl⟩

end BlockSync.Session

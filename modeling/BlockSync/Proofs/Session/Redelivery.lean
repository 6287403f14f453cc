import BlockSync.Proofs.Chain.Irreversible
import BlockSync.Proofs.Session.Outstanding

/-! Blocks that come again. A chain in memory that has not started over recognises each block that
it holds, so the receive loop passes over it, and the run goes on as if it had not come. -/

namespace BlockSync.Chain.Memory

variable {start m : Memory} {bs : Store} {num : UInt32} {raw : Bytes} {x : Checksum}

/-- Whether a block is one that the chain stores, or has an identity that the chain names: that of
its head or of a stored block. -/
inductive Holds (m : Memory) (raw : Bytes) : Prop
  | stored {n} : m.answer (.blockAt n) = some raw → Holds m raw
  | named {header n} : Header.ofBlock raw = .ok header →
      m.answer (.idAt n) = some header.id → Holds m raw

def Recognises (m : Memory) (raw : Bytes) : Prop :=
  ∃ header, Header.ofBlock raw = .ok header ∧ header.blockNum ≤ m.headNum ∧
    m.idAt header.blockNum = some header.id

theorem Reachable.exists_named (h : m.Reachable) (hraw : m.Holds raw) :
    ∃ header n, Header.ofBlock raw = .ok header ∧ m.idAt n = some header.id := by
  cases hraw with
  | stored hfetch =>
    obtain ⟨b, hb, rfl⟩ := Option.map_eq_some_iff.mp hfetch
    obtain ⟨header, hd, -, hid, -⟩ := h.genuine b (Store.mem_of_get? hb).1
    exact ⟨header, _, hd, hid ▸ h.linked.idAt_of_get? hb⟩
  | named hd hid => exact ⟨_, _, hd, hid⟩

theorem Grown.blockNum_of_idAt (h : start.Grown bs m) (hm : m.Reachable)
    (hhead : m.headId.blockNum = m.headNum) (hx : m.idAt num = some x) :
    x.blockNum = num ∧ num ≤ m.headNum := by
  unfold idAt at hx
  split at hx
  · next hnum =>
    cases hx
    exact ⟨hnum ▸ hhead, UInt32.le_of_eq hnum⟩
  · obtain ⟨b, hb, rfl⟩ := Option.map_eq_some_iff.mp hx
    obtain ⟨hmem, rfl⟩ := Store.mem_of_get? hb
    obtain ⟨header, -, hnum, hid, -⟩ := hm.genuine b hmem
    refine ⟨?_, ((h.isSome_get? b.num).mp (Option.isSome_of_eq_some hb)).2⟩
    rw [← hid, Header.blockNum_id, hnum]

theorem recognises_of_holds (hstart : start.blocks = [])
    (hid : start.headId.blockNum = start.headNum) (os : List Offer)
    (hroom : start.headNum.toNat + (start.accepted os).length < UInt32.size)
    (h : (start.after os).Holds raw) : (start.after os).Recognises raw := by
  obtain ⟨bs, hg, -, -⟩ := (grown_start hstart).after os hroom
  rw [List.append_nil] at hg
  have hm := reachable_after (.empty hstart) os
  have hhead := (settled_after hstart hid os hroom).head
  obtain ⟨header, n, hd, hx⟩ := hm.exists_named h
  obtain ⟨hnum, hle⟩ := hg.blockNum_of_idAt hm hhead hx
  rw [Header.blockNum_id] at hnum
  subst hnum
  exact ⟨header, hd, hle, hx⟩

end BlockSync.Chain.Memory

namespace BlockSync.Session

open BlockSync.Chain (Engine Memory Offer)

section

variable {σ : Type} {E : Engine σ} {settings : Settings} {n m n' : Node σ} {es es' : List Event}
  {b : Bool}

theorem runs_handleBlock_repeated {raw : Bytes} {header : Header} (hd : Header.ofBlock raw = .ok header)
    (hle : header.blockNum ≤ n.headNum E)
    (hid : E.answer n.chain (.idAt header.blockNum) = some header.id) :
    Runs E (handleBlock settings raw) n true n [] := by
  rw [handleBlock, hd]
  refine (runs_headNum n).bind_quiet ?_
  rw [if_pos hle]
  refine (runs_chain n (.idAt header.blockNum)).bind_quiet ?_
  rw [if_pos hid]
  exact .pure true n

/-- What comes of frames, the earliest first, that are taken one after the other as long as the
loop goes on. The flag says whether it goes on then. -/
def attend (E : Engine σ) (settings : Settings) :
    List Frame → Node σ → Option (Bool × Node σ × List Event)
  | [], n => some (!(n.session.closed || n.stopping), n, [])
  | f :: rest, n =>
    if n.session.closed || n.stopping then some (false, n, [])
    else
      match evaluate E (handleFrame settings f) n with
      | some (true, m, es) =>
        (attend E settings rest m).map fun (b, n', es') => (b, n', .took f :: (es ++ es'))
      | some (false, m, es) => some (false, m, .took f :: es)
      | none => none

def onward (E : Engine σ) (settings : Settings) (rest : List Frame) :
    Bool × Node σ × List Event → Option (Bool × Node σ × List Event)
  | (true, m, es) => (attend E settings rest m).map fun (b, n, es') => (b, n, es ++ es')
  | (false, m, es) => some (false, m, es)

theorem attend_of_over (h : (n.session.closed || n.stopping) = true) (frames : List Frame) :
    attend E settings frames n = some (false, n, []) := by
  cases frames with
  | nil =>
    rw [attend, h]
    rfl
  | cons f rest => rw [attend, if_pos h]

theorem attend_append (before rest : List Frame) :
    attend E settings (before ++ rest) n =
      (attend E settings before n).bind (onward E settings rest) := by
  induction before generalizing n with
  | nil =>
    rw [List.nil_append, attend]
    cases hover : n.session.closed || n.stopping with
    | true => exact attend_of_over hover rest
    | false => exact Option.map_id'.symm
  | cons f before ih =>
    rw [List.cons_append, attend, attend]
    split
    · rfl
    split
    · next m fs _ =>
      rw [ih]
      rcases attend E settings before m with _ | ⟨b, k, gs⟩
      · rfl
      · cases b with
        | false => rfl
        | true =>
          simp only [onward, Option.bind_some, Option.map_some, Option.map_map, Function.comp_def,
            List.cons_append, List.append_assoc]
    · rfl
    · rfl

theorem attend_repeated {f : Frame}
    (hf : m.stopping = false → Runs E (handleFrame settings f) m true m []) (rest : List Frame) :
    attend E settings (f :: rest) m = attend E settings rest m ∨
      attend E settings (f :: rest) m =
        (attend E settings rest m).map fun (b, n', es') => (b, n', .took f :: es') := by
  cases hover : m.session.closed || m.stopping with
  | true => exact .inl ((attend_of_over hover _).trans (attend_of_over hover _).symm)
  | false =>
    have hrun := runs_iff_evaluate.mp (hf (Bool.or_eq_false_iff.mp hover).2)
    right
    simp only [attend, hover, Bool.false_eq_true, if_false, hrun, List.nil_append]

theorem view_attend {frames : List Frame} (h : attend E settings frames n = some (b, n', es)) :
    n'.view = n.view.applyAll E es := by
  induction frames generalizing n es with
  | nil =>
    cases h
    rfl
  | cons f frames ih =>
    rw [attend] at h
    split at h
    · cases h
      rfl
    split at h
    · next m fs he =>
      obtain ⟨⟨b', n'', es'⟩, hm, heq⟩ := Option.map_eq_some_iff.mp h
      cases heq
      rw [ih hm, (runs_iff_evaluate.mpr he).view_eq, ← applyAll_append]
      rfl
    · next m fs he =>
      cases h
      rw [(runs_iff_evaluate.mpr he).view_eq]
      rfl
    · cases h

end

/-- The blocks that events offer to the engine. -/
def offers (es : List Event) : List Offer :=
  es.filterMap fun
    | .pushed raw wantStatistics _ => some ⟨raw, wantStatistics⟩
    | _ => none

theorem chain_applyAll (v : View Memory) (es : List Event) :
    (v.applyAll Memory.engine es).chain = v.chain.after (offers es) := by
  induction es generalizing v with
  | nil => rfl
  | cons e es ih =>
    refine (ih (v.apply Memory.engine e)).trans ?_
    cases e with
    | pushed raw wantStatistics result => rfl
    | took | wrote | spawned | turned | announced | parted | stopped => rfl

/-- An outcome without the taking of frames. -/
def shown {σ : Type} : Bool × Node σ × List Event → Bool × Node σ × List Event
  | (b, n, es) => (b, n, es.filter fun e => !e.isTook)

/-- Wherever a session stands, and whatever frames came before, a block that the chain holds is
taken without a push, a frame or any change. With the same frames after it, the run is the same as
without it. -/
theorem redelivery_is_invisible {origin : Memory} (hempty : origin.blocks = [])
    (hid : origin.headId.blockNum = origin.headNum) {os : List Offer} {settings : Settings}
    {n m : Node Memory} (hchain : n.chain = origin.after os) {before : List Frame} {b : Bool}
    {es : List Event} (hbefore : attend Memory.engine settings before n = some (b, m, es))
    (hroom : origin.headNum.toNat + (origin.accepted (os ++ offers es)).length < UInt32.size)
    {raw : Bytes} (hraw : m.chain.Holds raw) :
    Runs Memory.engine (handleBlock settings raw) m true m [] ∧
      ∀ after, (attend Memory.engine settings (before ++ blockFrame raw :: after) n).map shown =
        (attend Memory.engine settings (before ++ after) n).map shown := by
  have hm : m.chain = origin.after (os ++ offers es) := by
    have hview := congrArg View.chain (view_attend hbefore)
    rw [chain_applyAll] at hview
    rw [Chain.Memory.after_append, ← hchain]
    exact hview
  rw [hm] at hraw
  obtain ⟨header, hd, hle, hname⟩ := Memory.recognises_of_holds hempty hid _ hroom hraw
  rw [← hm] at hle hname
  have hblock : Runs Memory.engine (handleBlock settings raw) m true m [] :=
    runs_handleBlock_repeated hd hle hname
  refine ⟨hblock, fun after => ?_⟩
  rw [attend_append, attend_append, hbefore, Option.bind_some, Option.bind_some]
  cases b with
  | false => rfl
  | true =>
    have hframe (hrunning : m.stopping = false) :
        Runs Memory.engine (handleFrame settings (blockFrame raw)) m true m [] := by
      refine (runs_isStopping m).bind_quiet ?_
      rw [hrunning]
      exact hblock
    simp only [onward]
    obtain h | h := attend_repeated hframe after
    · rw [h]
    · rw [h, Option.map_map, Option.map_map, Option.map_map]
      congr 1
      funext ⟨b, n', es'⟩
      simp [shown, Event.isTook, List.filter_append]

theorem attend_firstBlock : ∃ m es,
    attend Memory.engine singly [farHandshake, blockFrame firstBlock] plainNode =
        some (true, m, es) ∧
      plainNode.chain.headNum.toNat + (plainNode.chain.accepted (offers es)).length <
        UInt32.size ∧
      m.chain.answer (.blockAt 1) = some firstBlock := by
  have hr : (attend Memory.engine singly [farHandshake, blockFrame firstBlock] plainNode).map
      (fun (b, m, es) => (b, (plainNode.chain.accepted (offers es)).length,
        decide (m.chain.answer (.blockAt 1) = some firstBlock))) =
      some (true, 1, true) := by
    decide +kernel
  obtain ⟨⟨b, m, es⟩, ha, he⟩ := Option.map_eq_some_iff.mp hr
  simp only [Prod.mk.injEq, decide_eq_true_eq] at he
  obtain ⟨rfl, hlen, hfetch⟩ := he
  refine ⟨m, es, ha, ?_, hfetch⟩
  rw [hlen]
  decide

/-- The block that ends a range comes once more. -/
theorem firstBlock_comes_again : ∃ m es,
    plainNode.chain.blocks = [] ∧
      plainNode.chain.headId.blockNum = plainNode.chain.headNum ∧
      plainNode.chain = plainNode.chain.after [] ∧
      attend Memory.engine singly [farHandshake, blockFrame firstBlock] plainNode =
        some (true, m, es) ∧
      plainNode.chain.headNum.toNat + (plainNode.chain.accepted ([] ++ offers es)).length <
        UInt32.size ∧
      m.chain.Holds firstBlock ∧
      Runs Memory.engine (handleBlock singly firstBlock) m true m [] ∧
      ∀ after, (attend Memory.engine singly
          ([farHandshake, blockFrame firstBlock] ++ blockFrame firstBlock :: after) plainNode).map
          shown =
        (attend Memory.engine singly ([farHandshake, blockFrame firstBlock] ++ after) plainNode).map
          shown := by
  obtain ⟨m, es, ha, hroom, hfetch⟩ := attend_firstBlock
  have hid : plainNode.chain.headId.blockNum = plainNode.chain.headNum := by decide
  have hchain : plainNode.chain = plainNode.chain.after [] := rfl
  have hholds : m.chain.Holds firstBlock := .stored hfetch
  exact ⟨m, es, rfl, hid, hchain, ha, hroom, hholds,
    redelivery_is_invisible rfl hid hchain ha hroom hholds⟩

end BlockSync.Session

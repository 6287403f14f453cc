import BlockSync.Proofs.Pair.Desertion
import BlockSync.Proofs.Pair.Traffic
import BlockSync.Proofs.Session.Tame

/-! What is left of two parties after the one with the shorter chain has refused a block. It only
withdraws any more, and the other one is never sent a block, whatever it notices of that: both chains
stay as they are. -/

namespace BlockSync.Session

open BlockSync.Chain (Engine Memory)

def Op.Withdraws : Op → Prop
  | .update _ | .hangUp _ | .ignore _ => True
  | _ => False

theorem carries_withdraws : Carries Op.Withdraws :=
  ⟨trivial, trivial, fun _ => trivial, fun _ => trivial⟩

def Event.Withdraws : Event → Prop
  | .turned _ | .parted => True
  | _ => False

section

variable {σ : Type} {E : Engine σ} {n n' : Node σ} {op : Op} {r : interface.Answer op}
  {es : List Event}

theorem Op.Withdraws.perform (h : op.Withdraws) (ho : n.perform E op = some (r, n', es)) :
    n'.chain = n.chain ∧ ∀ e ∈ es, e.Withdraws := by
  cases op with
  | update f =>
    simp only [Node.perform, Option.some.injEq, Prod.mk.injEq] at ho
    obtain ⟨-, rfl, rfl⟩ := ho
    refine ⟨rfl, ?_⟩
    unfold Node.turns
    split
    · exact fun _ he => absurd he List.not_mem_nil
    · exact List.forall_mem_singleton.mpr trivial
  | hangUp link =>
    cases ho
    exact ⟨rfl, List.forall_mem_singleton.mpr trivial⟩
  | ignore link =>
    cases ho
    exact ⟨rfl, fun _ he => absurd he List.not_mem_nil⟩
  | _ => exact h.elim

theorem chain_of_quiet (h : Quiet op) (ho : n.perform E op = some (r, n', es)) :
    n'.chain = n.chain := by
  cases op <;> simp only [Node.perform, Option.some.injEq, Prod.mk.injEq, reduceCtorEq] at ho
  case push | stop => exact h.elim
  all_goals
    obtain ⟨-, rfl, -⟩ := ho
    rfl

theorem still_of_quiet (h : Quiet op) (ho : n.perform E op = some (r, n', es)) :
    ∀ e ∈ es, e.Still := by
  rintro e he raw wantStatistics result rfl
  obtain rfl | ⟨e, rfl, -⟩ := perform_events ho
  · cases he
  cases List.mem_singleton.mp he
  cases op <;> simp only [Node.perform, Option.some.injEq, Prod.mk.injEq, reduceCtorEq] at ho
  case push | stop => exact h.elim
  case update f =>
    obtain ⟨-, -, hes⟩ := ho
    unfold Node.turns at hes
    split at hes <;> cases hes
  case send link frame =>
    obtain ⟨-, -, hes⟩ := ho
    split at hes <;> cases hes
  all_goals
    obtain ⟨-, -, hes⟩ := ho
    cases hes

theorem sent_of_withdraws (h : ∀ e ∈ es, e.Withdraws) : sent es = [] := by
  refine List.filterMap_eq_nil_iff.mpr fun e he => ?_
  have hw := h e he
  cases e with
  | wrote => exact hw.elim
  | _ => rfl

theorem started_of_withdraws {settings : Settings} (h : ∀ e ∈ es, e.Withdraws) :
    started settings es = [] := by
  refine List.filterMap_eq_nil_iff.mpr fun e he => ?_
  have hw := h e he
  cases e with
  | spawned => exact hw.elim
  | _ => rfl

end

namespace Party

variable {x y : Party Memory} {m : Memory} {es : List Event}

/-- A party on its way out, with a chain that it keeps. -/
structure Withdrawn (m : Memory) (x : Party Memory) : Prop where
  chain : x.node.chain = m
  loop : x.loop.Resigned
  withdraws : ∀ p, x.loop = .busy p → p.Within Op.Withdraws fun _ _ => True
  responders : x.responders = []

theorem Withdrawn.advance (hx : x.Withdrawn m) (h : Advance Memory.engine x es y) :
    y.Withdrawn m ∧ ∀ e ∈ es, e.Withdraws := by
  have hresigned := hx.loop
  have hnone {before after : List (Action (Option Activity))} {p : Action (Option Activity)} :
      x.responders ≠ before ++ p :: after := by
    rw [hx.responders]
    exact (List.append_ne_nil_of_right_ne_nil _ (List.cons_ne_nil _ _)).symm
  cases h with
  | move h =>
    cases h with
    | take hl =>
      rw [hl] at hresigned
      exact hresigned.elim
    | proceed hl ho =>
      obtain ⟨hop, hnext⟩ := hx.withdraws _ hl
      obtain ⟨hchain, hes⟩ := hop.perform ho
      rw [hl] at hresigned
      refine ⟨⟨hchain.trans hx.chain, hresigned.next (.proceed _), fun p hp => ?_, ?_⟩, hes⟩
      · cases hp
        exact hnext _ trivial
      · rw [hx.responders, started_of_withdraws hes]
        rfl
    | @finish b hl =>
      rw [hl] at hresigned
      have hb : b = false := hresigned
      subst hb
      exact ⟨⟨hx.chain, trivial, nofun, hx.responders⟩, nofun⟩
    | respond hr | retire hr | renew hr => exact absurd hr hnone
  | breakOff hl | leave hl =>
    rw [hl] at hresigned
    exact hresigned.elim
  | sever => exact ⟨⟨hx.chain, hx.loop, hx.withdraws, hx.responders⟩, nofun⟩

theorem Withdrawn.receive (hx : x.Withdrawn m) (es : List Event) :
    (x.receive es).Withdrawn m := by
  obtain ⟨fs, gs, hr⟩ := x.received es
  rw [hr.eq]
  exact ⟨hx.chain, hx.loop, hx.withdraws, hx.responders⟩

/-- A party that has no block to push, with a chain that it keeps. -/
structure Sparing (m : Memory) (x : Party Memory) : Prop where
  chain : x.node.chain = m
  loop : ∀ p, x.loop = .busy p → Tame p
  responders : ∀ p ∈ x.responders, Tame p
  inbox : ∀ f ∈ x.inbox, ∀ raw, f.message? ≠ some (.signedBlock raw)

theorem tame_started (settings : Settings) (es : List Event) :
    ∀ p ∈ started settings es, Tame p := by
  intro p hp
  obtain ⟨a, -, rfl⟩ := mem_started.mp hp
  exact tame_runOnce settings a

theorem tame_handleFrame (settings : Settings) {f : Frame}
    (h : ∀ raw, f.message? ≠ some (.signedBlock raw)) : Tame (handleFrame settings f) := by
  refine (tameness settings).handleFrame fun m hm => ?_
  have hmessage : f.message? = some m := by
    rw [Frame.message?, hm]
    rfl
  cases m
  case signedBlock raw => exact absurd hmessage (h raw)
  case time m => exact .bind (tame_handleTime m) fun _ => .pure true
  all_goals
    refine (tameness settings).dispatch_of_ne (leaving_tameness settings) (fun heq => ?_)
      fun _ heq => ?_
    · cases heq
    · cases heq

theorem Sparing.move (hx : x.Sparing m) (h : Move Memory.engine x es y) : y.Sparing m := by
  cases h with
  | take _ _ _ hi =>
    have hinbox := hx.inbox
    rw [hi] at hinbox
    obtain ⟨hf, hrest⟩ := List.forall_mem_cons.mp hinbox
    refine ⟨hx.chain, fun p hp => ?_, hx.responders, hrest⟩
    cases hp
    exact tame_handleFrame _ hf
  | proceed hl ho =>
    obtain ⟨hop, hnext⟩ := hx.loop _ hl
    refine ⟨(chain_of_quiet hop ho).trans hx.chain, fun p hp => ?_, ?_, hx.inbox⟩
    · cases hp
      exact hnext _ trivial
    · exact List.forall_mem_append.mpr ⟨hx.responders, tame_started _ _⟩
  | @finish b =>
    refine ⟨hx.chain, fun p hp => ?_, hx.responders, hx.inbox⟩
    cases b <;> cases hp
  | respond hr ho =>
    have hresp := hx.responders
    rw [hr] at hresp
    obtain ⟨hop, hnext⟩ := hresp _ List.mem_append_cons_self
    refine ⟨(chain_of_quiet hop ho).trans hx.chain, hx.loop, ?_, hx.inbox⟩
    refine List.forall_mem_append.mpr ⟨fun p hp => ?_, tame_started _ _⟩
    obtain rfl | hp := eq_or_mem_of_replaced hp
    · exact hnext _ trivial
    · exact hresp p hp
  | retire hr =>
    have hresp := hx.responders
    rw [hr] at hresp
    exact ⟨hx.chain, hx.loop, fun p hp => hresp p (mem_of_removed hp), hx.inbox⟩
  | renew hr =>
    have hresp := hx.responders
    rw [hr] at hresp
    refine ⟨hx.chain, hx.loop, fun p hp => ?_, hx.inbox⟩
    obtain rfl | hp := eq_or_mem_of_replaced hp
    · exact tame_runOnce _ _
    · exact hresp p hp

theorem Sparing.advance (hx : x.Sparing m) (h : Advance Memory.engine x es y) : y.Sparing m := by
  cases h with
  | move h => exact hx.move h
  | breakOff =>
    refine ⟨hx.chain, fun p hp => ?_, hx.responders, hx.inbox⟩
    cases hp
    exact .bind tame_shut fun _ => .pure false
  | leave => exact ⟨hx.chain, nofun, hx.responders, hx.inbox⟩
  | sever => exact ⟨hx.chain, hx.loop, hx.responders, hx.inbox⟩

theorem Sparing.still (hx : x.Sparing m) (h : Advance Memory.engine x es y) :
    ∀ e ∈ es, e.Still := by
  cases h with
  | move h =>
    cases h with
    | take => exact List.forall_mem_singleton.mpr fun _ _ _ h => by cases h
    | proceed hl ho => exact still_of_quiet (hx.loop _ hl).1 ho
    | respond hr ho =>
      obtain ⟨hop, -⟩ := hx.responders _ (hr ▸ List.mem_append_cons_self)
      exact still_of_quiet hop ho
    | finish | retire | renew => exact List.forall_mem_nil _
  | breakOff | leave | sever => exact List.forall_mem_nil _

theorem Sparing.receive (hx : x.Sparing m) (h : ∀ raw, .signedBlock raw ∉ letters es) :
    (x.receive es).Sparing m := by
  obtain ⟨fs, gs, hr⟩ := x.received es
  rw [hr.eq]
  refine ⟨hx.chain, hx.loop, hx.responders, fun f hf raw hm => ?_⟩
  rcases List.mem_append.mp hf with hf | hf
  · exact hx.inbox f hf raw hm
  · refine h raw ?_
    rw [letters_eq, hr.sent_eq]
    exact List.mem_filterMap.mpr ⟨f, List.mem_append_left _ hf, hm⟩

end Party

namespace Pair

variable {a b m : Memory} {s t : Pair}

structure Parting (a b m : Memory) (s : Pair) : Prop where
  left : s.left.Withdrawn m
  right : s.right.Sparing b
  name : b.nameAt m.headNum = some m.headId
  below : ∀ n, Bars a b n → m.headNum < n
  unfit : ¬ Fits a b

theorem Parting.step (h : s.Parting a b m) (hs : Step s t) : t.Parting a b m := by
  cases hs with
  | left hx =>
    obtain ⟨hy, hes⟩ := h.left.advance hx
    refine ⟨hy, h.right.receive fun raw => ?_, h.name, h.below, h.unfit⟩
    rw [letters_eq, sent_of_withdraws hes]
    exact List.not_mem_nil
  | right hy => exact ⟨h.left.receive _, h.right.advance hy, h.name, h.below, h.unfit⟩

end Pair

end BlockSync.Session

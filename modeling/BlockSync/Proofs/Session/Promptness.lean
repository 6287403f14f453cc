import BlockSync.Proofs.Session.Discipline
import BlockSync.Proofs.Session.Party

/-! Between two rounds a receive loop waits for frames, and nothing else of a party ever waits. A
responder comes to its end within a number of steps that is known from its range, whatever its
operations answer. So a party that can go no further is at rest. -/

namespace BlockSync.Session

open BlockSync.Chain (Engine)
open BlockSync.Session.Action

def Op.IsPrompt : Op → Prop
  | .receive _ _ _ | .awaitTurn _ _ | .pause _ _ | .dial _ _ | .lockDial | .unlockDial => False
  | .spawn (.heartbeat _) => False
  | _ => True

def Op.IsSingle : Op → Prop
  | .spawn _ => False
  | op => op.IsPrompt

def Prompt {α : Type} (p : Action α) : Prop := p.Within Op.IsPrompt fun _ _ => True

theorem Op.IsSingle.isPrompt {op : Op} (h : op.IsSingle) : op.IsPrompt := by
  cases op with
  | spawn => exact h.elim
  | _ => exact h

theorem Op.IsOrdinary.isPrompt {op : Op} (h : op.IsOrdinary) : op.IsPrompt := by
  cases op with
  | spawn a =>
    cases a with
    | heartbeat => exact h
    | respond => trivial
  | receive | awaitTurn | pause | dial | lockDial | unlockDial => exact h
  | _ => trivial

section

variable {σ α β : Type} {E : Engine σ} {n n' : Node σ} {op : Op} {r : interface.Answer op}
  {es : List Event}

theorem Op.IsPrompt.exists_perform (h : op.IsPrompt) (E : Engine σ) (n : Node σ) :
    ∃ r n' es, n.perform E op = some (r, n', es) := by
  cases op with
  | receive | awaitTurn | pause | dial | lockDial | unlockDial => exact h.elim
  | _ => exact ⟨_, _, _, rfl⟩

theorem spawn_of_spawned {a : Activity} (ho : n.perform E op = some (r, n', es))
    (ha : .spawned a ∈ es) : op = .spawn a := by
  obtain rfl | ⟨e, rfl, -⟩ := perform_events ho
  · cases ha
  cases List.mem_singleton.mp ha
  cases op <;> simp only [Node.perform, Option.some.injEq, Prod.mk.injEq, reduceCtorEq] at ho
  case spawn =>
    obtain ⟨-, -, he⟩ := ho
    cases he
    rfl
  case update f =>
    obtain ⟨-, -, he⟩ := ho
    unfold Node.turns at he
    split at he <;> cases he
  case send link frame =>
    obtain ⟨-, -, he⟩ := ho
    split at he <;> cases he
  all_goals
    obtain ⟨-, -, he⟩ := ho
    cases he

theorem started_of_single {settings : Settings} (h : op.IsSingle)
    (ho : n.perform E op = some (r, n', es)) : started settings es = [] := by
  refine List.filterMap_eq_nil_iff.mpr fun e he => ?_
  cases e with
  | spawned a =>
    cases spawn_of_spawned ho he
    exact h.elim
  | _ => rfl

theorem linked_le_of_perform (ho : n.perform E op = some (r, n', es)) :
    n'.linked.toNat ≤ n.linked.toNat := by
  cases op <;> simp only [Node.perform, Option.some.injEq, Prod.mk.injEq, reduceCtorEq] at ho
  case hangUp =>
    obtain ⟨-, rfl, -⟩ := ho
    exact Nat.zero_le _
  all_goals
    obtain ⟨-, rfl, -⟩ := ho
    exact Nat.le_refl _

theorem Prompt.bind {p : Action α} {f : α → Action β} (hp : Prompt p) (hf : ∀ a, Prompt (f a)) :
    Prompt (p >>= f) := Program.Within.bind hp hf

theorem Prompt.request (h : op.IsPrompt) : Prompt (Program.request (I := interface) op) :=
  ⟨h, fun _ _ => trivial⟩

end

theorem carries_prompt : Carries Op.IsPrompt := carries_ordinary.mono fun _ => Op.IsOrdinary.isPrompt

theorem prompt_send (m : Message) : Prompt (send m) := carries_prompt.send fun _ => trivial

variable (settings : Settings)

theorem prompt_sendHandshake : Prompt (sendHandshake settings) := by
  refine .bind ?_ fun m => prompt_send (.handshake m)
  iterate 8 refine .bind (.request trivial) fun _ => ?_
  trivial

def promptness : Discipline settings where
  Holds := Prompt
  pure _ := trivial
  bind := .bind
  request h := .request h.isPrompt
  sendHandshake := prompt_sendHandshake settings

theorem offering_promptness : (promptness settings).Offering where
  push _ _ := .request trivial
  stop := .request trivial

theorem leaving_promptness : (promptness settings).Leaving where
  announce _ _ _ hp := .bind (.request trivial) fun _ => hp

theorem timing_promptness : (promptness settings).Timing where
  send m := prompt_send (.time m)
  modifyPeer _ _ := .bind (.request trivial) fun _ => trivial

theorem prompt_handleFrame (frame : Frame) : Prompt (handleFrame settings frame) :=
  (promptness settings).handleFrame fun m _ =>
    (timing_promptness settings).dispatch (offering_promptness settings)
      (leaving_promptness settings) m

theorem prompt_breakOff : Prompt (do shut; return false) :=
  .bind carries_prompt.shut fun _ => trivial

/-- Whether a responder comes to its end within a number of steps. -/
inductive Lasts (settings : Settings) : Nat → Action (Option Activity) → Prop
  | ended {n} : Lasts settings (n + 1) (.done none)
  | onward {n a} : Lasts settings n (runOnce settings a) → Lasts settings (n + 1) (.done (some a))
  | ask {n op next} : op.IsSingle → (∀ r, Lasts settings n (next r)) →
      Lasts settings (n + 1) (.ask op next)

section

variable {settings : Settings} {α : Type} {n k : Nat} {p : Action (Option Activity)}

theorem Lasts.mono (h : Lasts settings n p) (hle : n ≤ k) : Lasts settings k p := by
  induction h generalizing k with
  | ended =>
    obtain ⟨k, rfl⟩ : ∃ k', k = k' + 1 := ⟨k - 1, by omega⟩
    exact .ended
  | onward _ ih =>
    obtain ⟨k, rfl⟩ : ∃ k', k = k' + 1 := ⟨k - 1, by omega⟩
    exact .onward (ih (by omega))
  | ask hop _ ih =>
    obtain ⟨k, rfl⟩ : ∃ k', k = k' + 1 := ⟨k - 1, by omega⟩
    exact .ask hop fun r => ih r (by omega)

theorem Lasts.bind {q : Action α} {f : α → Action (Option Activity)}
    (hw : q.Within Op.IsSingle fun _ _ => True) (hq : q.AtMost (fun _ => True) k)
    (hf : ∀ a, Lasts settings n (f a)) : Lasts settings (n + k) (q >>= f) := by
  induction q generalizing k with
  | done a => exact (hf a).mono (Nat.le_add_right n k)
  | ask op next ih =>
    rcases hq with ⟨hno, -⟩ | ⟨hpos, hnext⟩
    · exact absurd trivial hno
    · obtain ⟨k, rfl⟩ : ∃ k', k = k' + 1 := ⟨k - 1, by omega⟩
      exact .ask hw.1 fun r => ih r (hw.2 r trivial) (hnext r)

theorem carries_single : Carries Op.IsSingle where
  look := trivial
  close := trivial
  hangUp _ := trivial
  ignore _ := trivial

theorem atMost_three_shut : shut.AtMost (fun _ => True) 3 := by
  refine .request (k := 2) fun before => .ite (.bind (j := 1) (k := 1) ?_ fun _ => .ite ?_ ?_) ?_
  · cases before.writer with
    | none => trivial
    | some link => exact .request (k := 0) fun _ => trivial
  · cases before.reader with
    | none => trivial
    | some link => exact .request (k := 0) fun _ => trivial
  · trivial
  · trivial

theorem atMost_five_send (m : Message) : (send m).AtMost (fun _ => True) 5 := by
  refine .request (k := 4) fun s => .ite trivial (.bind (j := 1) (k := 3) ?_ fun sent => ?_)
  · cases s.writer with
    | none => trivial
    | some link => exact .request (k := 0) fun _ => trivial
  · exact .ite (.bind (k := 0) atMost_three_shut fun _ => trivial) trivial

/-- A responder lasts as long as there are blocks in its range, at most. -/
theorem lasts_respond (settings : Settings) (next last : UInt32) (transport responder : Nat) :
    ∃ n, Lasts settings n (runOnce settings (.respond next last transport responder)) := by
  generalize hd : (last - next).toNat = d
  induction d using Nat.strongRecOn generalizing next with
  | _ d ih =>
  have hover : Lasts settings 1 (.done none) := .ended
  have hrest : ∃ n, 0 < n ∧ ∀ sent : Bool, Lasts settings n
      (if !sent then return none
        else if next = last then return none
        else return some (.respond (next + 1) last transport responder)) := by
    by_cases hlast : next = last
    · refine ⟨1, Nat.one_pos, fun sent => ?_⟩
      rw [if_pos hlast]
      cases sent <;> exact hover
    have hlt : (last - (next + 1)).toNat < d := by
      have hnext := next.toNat_lt
      have hend := last.toNat_lt
      rw [← UInt32.toNat_inj] at hlast
      rw [UInt32.toNat_sub] at hd
      rw [UInt32.toNat_sub, UInt32.toNat_add, UInt32.toNat_one]
      omega
    obtain ⟨n, hn⟩ := ih _ hlt _ rfl
    refine ⟨n + 1, Nat.succ_pos n, fun sent => ?_⟩
    rw [if_neg hlast]
    cases sent with
    | false => exact hover.mono (Nat.succ_le_succ (Nat.zero_le n))
    | true => exact .onward hn
  obtain ⟨n, hpos, hn⟩ := hrest
  have hmono : ∀ k, n ≤ k → Lasts settings k (.done none) :=
    fun k hk => hover.mono (Nat.le_trans hpos hk)
  refine ⟨n + 5 + 3, .ask trivial fun s => ?_⟩
  change Lasts settings _ (if _ then _ else _)
  split
  · exact hmono _ (by omega)
  refine .ask trivial fun stopping => ?_
  change Lasts settings _ (if _ then _ else _)
  split
  · exact hmono _ (by omega)
  refine .ask trivial fun raw? => ?_
  cases raw? with
  | none => exact hmono _ (by omega)
  | some raw =>
    have hsend := carries_single.send (m := .signedBlock raw) fun _ => trivial
    have hlasts := Lasts.bind hsend (atMost_five_send _) hn
    exact hlasts

end

inductive Remaining (settings : Settings) : List (Action (Option Activity)) → Nat → Prop
  | nil : Remaining settings [] 0
  | cons {p ps n k} : Lasts settings n p → Remaining settings ps k →
      Remaining settings (p :: ps) (n + k)

namespace Remaining

variable {settings : Settings} {ps qs : List (Action (Option Activity))}
  {p q : Action (Option Activity)} {n k j : Nat}

theorem append (h : Remaining settings ps k) (h' : Remaining settings qs j) :
    Remaining settings (ps ++ qs) (k + j) := by
  induction h with
  | nil =>
    rw [Nat.zero_add]
    exact h'
  | cons hp _ ih =>
    rw [Nat.add_assoc]
    exact .cons hp ih

theorem split (h : Remaining settings (ps ++ p :: qs) k) :
    ∃ n j, Lasts settings n p ∧ k = n + j ∧ Remaining settings (ps ++ qs) j ∧
      ∀ q m, Lasts settings m q → Remaining settings (ps ++ q :: qs) (m + j) := by
  induction ps generalizing k with
  | nil =>
    cases h with
    | cons hp hrest => exact ⟨_, _, hp, rfl, hrest, fun _ _ hq => .cons hq hrest⟩
  | cons first ps ih =>
    cases h with
    | @cons _ _ m _ hfirst hrest =>
      obtain ⟨n, j, hp, rfl, hrest, hput⟩ := ih hrest
      refine ⟨n, m + j, hp, Nat.add_left_comm m n j, .cons hfirst hrest, fun q i hq => ?_⟩
      rw [Nat.add_left_comm]
      exact .cons hfirst (hput q i hq)

theorem exists_of_lasts (h : ∀ p ∈ ps, ∃ n, Lasts settings n p) :
    ∃ k, Remaining settings ps k := by
  induction ps with
  | nil => exact ⟨0, .nil⟩
  | cons p ps ih =>
    obtain ⟨⟨n, hp⟩, hps⟩ := List.forall_mem_cons.mp h
    obtain ⟨k, hk⟩ := ih hps
    exact ⟨n + k, .cons hp hk⟩

end Remaining

inductive Loop.Next : Loop → Loop → Prop
  | proceed {op next} (r) : Next (.busy (.ask op next)) (.busy (next r))
  | finish (b) : Next (.busy (.done b)) (if b then .idle else .ended)
  | breakOff : Next .idle (.busy (do shut; return false))
  | leave : Next .idle .ended

def Loop.Resigned : Loop → Prop
  | .idle => False
  | .busy p => p.Ensures (fun _ _ => True) (fun _ _ _ (_ : Unit) => True) (fun b _ => b = false) ()
  | .ended => True

namespace Loop

variable {l l' : Loop}

theorem resigned_breakOff : (Loop.busy do shut; return false).Resigned := by
  have hkept : shut.Ensures (fun _ _ => True) (fun _ _ _ (_ : Unit) => True) (fun _ _ => True) () :=
    .kept (fun _ _ _ => trivial) (fun _ _ _ _ _ _ => trivial) trivial
  exact .bind (hkept.mono fun _ _ _ => rfl)

theorem Resigned.next (hl : l.Resigned) (h : Next l l') : l'.Resigned := by
  cases h with
  | proceed r => exact hl.2 r () trivial
  | finish b =>
    have hb : b = false := hl
    subst hb
    trivial
  | breakOff | leave => exact hl.elim

end Loop

namespace Party

variable {σ : Type} {E : Engine σ} {x y : Party σ} {es : List Event} {k k' : Nat}

/-- A party of which the loop does not wait within a round, with what its responders can still
take. -/
structure Brisk (x : Party σ) (k : Nat) : Prop where
  loop : ∀ p, x.loop = .busy p → Prompt p
  responders : Remaining x.settings x.responders k

def links (x : Party σ) : Nat := x.node.linked.toNat

inductive Nears (x : Party σ) (k : Nat) (y : Party σ) (k' : Nat) : Prop
  | loop : x.loop.Next y.loop → y.inbox = x.inbox → Nears x k y k'
  | work : y.loop = x.loop → y.inbox = x.inbox → k' + y.links < k + x.links → Nears x k y k'
  | take {f} : x.loop = .idle → x.inbox = f :: y.inbox → Nears x k y k'

theorem exists_remaining_started (settings : Settings) {op : Op} {r : interface.Answer op}
    {n n' : Node σ} (h : op.IsPrompt) (ho : n.perform E op = some (r, n', es)) :
    ∃ k, Remaining settings (started settings es) k := by
  refine Remaining.exists_of_lasts fun p hp => ?_
  obtain ⟨a, ha, rfl⟩ := mem_started.mp hp
  cases spawn_of_spawned ho ha
  cases a with
  | heartbeat => exact h.elim
  | respond next last transport responder =>
    exact lasts_respond settings next last transport responder

theorem Brisk.move (hx : x.Brisk k) (h : Move E x es y) : ∃ k', y.Brisk k' ∧ x.Nears k y k' := by
  have hcalm {y : Party σ} {k' : Nat} (hl : y.loop = x.loop) (hs : y.settings = x.settings)
      (hr : Remaining x.settings y.responders k') : y.Brisk k' :=
    ⟨hl ▸ hx.loop, hs ▸ hr⟩
  cases h with
  | take hl _ _ hi =>
    refine ⟨k, ⟨fun p hp => ?_, hx.responders⟩, .take hl hi⟩
    cases hp
    exact prompt_handleFrame _ _
  | proceed hl ho =>
    have hp := hx.loop _ hl
    obtain ⟨j, hj⟩ := exists_remaining_started x.settings hp.1 ho
    refine ⟨k + j, ⟨fun p hp' => ?_, hx.responders.append hj⟩, .loop ?_ rfl⟩
    · cases hp'
      exact hp.2 _ trivial
    · rw [hl]
      exact .proceed _
  | @finish b hl =>
    refine ⟨k, ⟨fun p hp => ?_, hx.responders⟩, .loop ?_ rfl⟩
    · cases b <;> cases hp
    · rw [hl]
      exact .finish b
  | respond hr ho =>
    have hresp := hx.responders
    rw [hr] at hresp
    obtain ⟨n, j, hp, rfl, -, hput⟩ := hresp.split
    cases hp with
    | @ask m _ _ hop hnext =>
      rw [started_of_single hop ho, List.append_nil]
      refine ⟨m + j, hcalm rfl rfl (hput _ _ (hnext _)), .work rfl rfl ?_⟩
      have hle := linked_le_of_perform ho
      dsimp only [links]
      omega
  | retire hr =>
    have hresp := hx.responders
    rw [hr] at hresp
    obtain ⟨n, j, hp, rfl, hrest, -⟩ := hresp.split
    cases hp with
    | ended => exact ⟨j, hcalm rfl rfl hrest, .work rfl rfl (by change j + x.links < _; omega)⟩
  | renew hr =>
    have hresp := hx.responders
    rw [hr] at hresp
    obtain ⟨n, j, hp, rfl, -, hput⟩ := hresp.split
    cases hp with
    | @onward m _ ha =>
      exact ⟨m + j, hcalm rfl rfl (hput _ _ ha), .work rfl rfl (by change m + j + x.links < _; omega)⟩

theorem Brisk.advance (hx : x.Brisk k) (h : Advance E x es y) :
    ∃ k', y.Brisk k' ∧ x.Nears k y k' := by
  cases h with
  | move h => exact hx.move h
  | breakOff hl =>
    refine ⟨k, ⟨fun p hp => ?_, hx.responders⟩, .loop ?_ rfl⟩
    · cases hp
      exact prompt_breakOff
    · rw [hl]
      exact .breakOff
  | leave hl =>
    refine ⟨k, ⟨fun p hp => ?_, hx.responders⟩, .loop ?_ rfl⟩
    · cases hp
    · rw [hl]
      exact .leave
  | sever _ hlinked =>
    refine ⟨k, ⟨hx.loop, hx.responders⟩, .work rfl rfl ?_⟩
    change k + 0 < k + x.links
    rw [links, hlinked]
    exact Nat.lt_succ_self k

theorem Brisk.receive (hx : x.Brisk k) (es : List Event) : (x.receive es).Brisk k := by
  obtain ⟨fs, gs, hr⟩ := x.received es
  rw [hr.eq]
  exact ⟨hx.loop, hx.responders⟩

end Party

end BlockSync.Session

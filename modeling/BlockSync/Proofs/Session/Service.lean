import BlockSync.Proofs.Session.Serving

/-! A later request takes the place of an earlier one. All responders of a session are served in
order, whatever happens to the chain; one that was replaced asks the chain for nothing any more, and
one that nobody disturbs sends the longest stretch of its range that is stored. -/

namespace BlockSync.Session

open BlockSync.Chain (Memory)

variable {settings : Settings}

/-- The desk when a range was asked for. -/
def Desk.asked (settings : Settings) (range : BlockRange) (d : Desk) : Desk :=
  if range.isReset then { d with session := d.session.stopResponder }
  else
    { d with session := d.session.startResponder }.place d.session.responders
      { first := range.first
        last := range.last
        transport := d.session.transport
        program := runOnce settings
          (.respond range.first range.last d.session.transport d.session.responders) }

theorem performs_handleSyncRequest_iff {range : BlockRange} {d d' : Desk} :
    Performs settings (handleSyncRequest range) d d' ↔ d' = d.asked settings range := by
  unfold handleSyncRequest Desk.asked
  constructor
  · intro h
    by_cases hreset : range.isReset = true
    · rw [if_pos hreset] at h ⊢
      cases h with
      | ask hr h =>
        cases h
        rfl
    · rw [if_neg hreset] at h ⊢
      cases h with
      | ask hr h =>
        obtain rfl := hr
        cases h with
        | ask _ h =>
          cases h
          rfl
  · rintro rfl
    by_cases hreset : range.isReset = true
    · rw [if_pos hreset, if_pos hreset]
      have hsession : d.Allows (.update stopResponder) d.session := rfl
      exact .ask hsession (.done _)
    · rw [if_neg hreset, if_neg hreset]
      have hsession : d.Allows (.update startResponder) d.session := rfl
      refine .ask hsession ?_
      exact .ask (r := (0 : TaskId)) trivial (.done _)

namespace Desk

theorem place_self (d : Desk) (n : Nat) (x : Responder) : (d.place n x).responders n = some x := by
  simp only [place, Function.update_self]

theorem place_of_ne (d : Desk) (x : Responder) {n m : Nat} (h : m ≠ n) :
    (d.place n x).responders m = d.responders m := by
  simp only [place, Function.update_of_ne h]

theorem of_place {d : Desk} {n m : Nat} {x y : Responder}
    (h : (d.place n x).responders m = some y) :
    (m = n ∧ y = x) ∨ d.responders m = some y := by
  by_cases hm : m = n
  · subst hm
    rw [place_self] at h
    exact .inl ⟨rfl, (Option.some.inj h).symm⟩
  · rw [place_of_ne d x hm] at h
    exact .inr h

structure Orderly (settings : Settings) (d : Desk) : Prop where
  range : ∀ n x, d.responders n = some x → x.first ≤ x.last ∧ ¬ (x.first = 0 ∧ x.last = 0)
  accounts : ∀ n x, d.responders n = some x →
    ∃ visits tail, Accounts settings True (x.errand n) x.log x.program visits tail
  numbered : ∀ n x, d.responders n = some x → n < d.session.responders

theorem Fresh.orderly {d : Desk} (h : d.Fresh) : d.Orderly settings := by
  constructor <;> intro n x hx <;> rw [h n] at hx <;> cases hx

variable {d d' : Desk} {n m : Nat} {x : Responder}

theorem Orderly.place {f : Session → Session} {x' : Responder} (h : d.Orderly settings)
    (hf : Leaves f) (hx : d.responders n = some x) (hfirst : x'.first = x.first)
    (hlast : x'.last = x.last)
    (haccounts : ∃ visits tail,
      Accounts settings True (x'.errand n) x'.log x'.program visits tail) :
    ({ d with session := f d.session }.place n x').Orderly settings := by
  constructor
  · intro m y hy
    rcases of_place hy with ⟨rfl, rfl⟩ | hy
    · rw [hfirst, hlast]
      exact h.range m x hx
    · exact h.range m y hy
  · intro m y hy
    rcases of_place hy with ⟨rfl, rfl⟩ | hy
    · exact haccounts
    · exact h.accounts m y hy
  · intro m y hy
    change m < (f d.session).responders
    rw [hf.responders]
    rcases of_place hy with ⟨rfl, -⟩ | hy
    · exact h.numbered m x hx
    · exact h.numbered m y hy

theorem Orderly.act (h : d.Orderly settings) (hact : Act settings n d d') :
    d'.Orderly settings := by
  cases hact with
  | @ask x op next r hx hp hr =>
    obtain ⟨visits, tail, haccounts⟩ := h.accounts n x hx
    obtain ⟨f, hf, hafter⟩ := (haccounts.harmless hp).after settings d
    rw [hafter]
    exact h.place hf hx rfl rfl (haccounts.ask (h.range n x hx).1 hp hr (.inl trivial))
  | @renew x a hx hp =>
    obtain ⟨visits, tail, haccounts⟩ := h.accounts n x hx
    exact h.place leaves_id hx rfl rfl ⟨visits, tail, haccounts.renew hp⟩

theorem Orderly.others {f : Session → Session} (h : d.Orderly settings) (hf : Leaves f) :
    { d with session := f d.session }.Orderly settings := by
  refine ⟨h.range, h.accounts, ?_⟩
  intro n x hx
  change n < (f d.session).responders
  rw [hf.responders]
  exact h.numbered n x hx

theorem Orderly.asked {range : BlockRange} (h : d.Orderly settings) :
    (d.asked settings range).Orderly settings := by
  unfold Desk.asked
  by_cases hreset : range.isReset = true
  · rw [if_pos hreset]
    exact h.others ⟨fun _ => rfl, fun _ => .inr rfl⟩
  · rw [if_neg hreset]
    constructor
    · intro n x hx
      rcases of_place hx with ⟨-, rfl⟩ | hx
      · refine ⟨range.first_le_last, ?_⟩
        simpa [BlockRange.isReset] using hreset
      · exact h.range n x hx
    · intro n x hx
      rcases of_place hx with ⟨rfl, rfl⟩ | hx
      · exact ⟨[], [], Accounts.begin settings True ⟨range.first, range.last, _, _⟩⟩
      · exact h.accounts n x hx
    · intro n x hx
      change n < d.session.responders + 1
      rcases of_place hx with ⟨rfl, -⟩ | hx
      · exact Nat.lt_succ_self _
      · exact Nat.lt_succ_of_lt (h.numbered n x hx)

theorem Orderly.step (h : d.Orderly settings) (hstep : Step settings d d') :
    d'.Orderly settings := by
  cases hstep with
  | act hact => exact h.act hact
  | request hperforms =>
    rw [performs_handleSyncRequest_iff] at hperforms
    subst hperforms
    exact h.asked
  | push raw wantStatistics => exact ⟨h.range, h.accounts, h.numbered⟩
  | others _ hf => exact h.others hf
  | stop => exact ⟨h.range, h.accounts, h.numbered⟩

theorem Orderly.run (h : d.Orderly settings)
    (hrun : Relation.ReflTransGen (Step settings) d d') : d'.Orderly settings := by
  induction hrun with
  | refl => exact h
  | tail _ hstep ih => exact ih.step hstep

end Desk

theorem Reached.orderly {d : Desk} (h : Reached settings d) :
    d.Orderly settings := by
  obtain ⟨start, hfresh, hrun⟩ := h
  exact hfresh.orderly.run hrun

/-- What a responder leaves alone: the other responders, and the session but for closing it. -/
theorem Act.rest {n : Nat} {d d' : Desk} (ho : d.Orderly settings) (h : Act settings n d d') :
    (∃ f, Leaves f ∧ d'.session = f d.session) ∧
      ∀ m, m ≠ n → d'.responders m = d.responders m := by
  cases h with
  | @ask x op next r hx hp hr =>
    obtain ⟨visits, tail, haccounts⟩ := ho.accounts n x hx
    obtain ⟨f, hf, hafter⟩ := (haccounts.harmless hp).after settings d
    rw [hafter]
    exact ⟨⟨f, hf, rfl⟩, fun m hm => Desk.place_of_ne _ _ hm⟩
  | renew hx hp => exact ⟨⟨id, leaves_id, rfl⟩, fun m hm => Desk.place_of_ne _ _ hm⟩

/-- A responder that was replaced: its number will not be the current one again. -/
structure Desk.Outdates (d : Desk) (n : Nat) : Prop where
  given : n < d.session.responders
  replaced : d.session.responder ≠ some n

/-- How a responder that was replaced ends: it asks the chain once more at most, and only if it was
about to. -/
def Responder.WindsDown (x x' : Responder) : Prop :=
  (x'.fetches = x.fetches ∧ (Poised x'.program → Poised x.program)) ∨
    Poised x.program ∧ ¬ Poised x'.program ∧ ∃ one, x'.fetches = x.fetches ++ [one]

namespace Responder.WindsDown

variable {x x' x'' : Responder}

theorem refl (x : Responder) : x.WindsDown x := .inl ⟨rfl, id⟩

theorem trans (h : x.WindsDown x') (h' : x'.WindsDown x'') : x.WindsDown x'' := by
  rcases h with ⟨hsame, hpoised⟩ | ⟨hpoised, hnot, one, hone⟩
  · rcases h' with ⟨hsame', hpoised'⟩ | ⟨hpoised', hnot', one, hone⟩
    · exact .inl ⟨hsame'.trans hsame, fun h => hpoised (hpoised' h)⟩
    · exact .inr ⟨hpoised hpoised', hnot', one, by rw [hone, hsame]⟩
  · rcases h' with ⟨hsame', hpoised'⟩ | ⟨hpoised', -⟩
    · exact .inr ⟨hpoised, fun h => hnot (hpoised' h), one, by rw [hsame', hone]⟩
    · exact absurd hpoised' hnot

end Responder.WindsDown

namespace Desk.Outdates

variable {d d' : Desk} {n m : Nat} {x : Responder}

theorem leaves {f : Session → Session} (h : d.Outdates n) (hf : Leaves f)
    (hsession : d'.session = f d.session) : d'.Outdates n := by
  constructor
  · rw [hsession, hf.responders]
    exact h.given
  · rw [hsession]
    rcases hf.responder d.session with hsame | hnone
    · rw [hsame]
      exact h.replaced
    · rw [hnone]
      exact nofun

theorem of_asked {range : BlockRange} (h : n < d.session.responders) :
    (d.asked settings range).Outdates n := by
  unfold Desk.asked
  split
  · exact ⟨h, nofun⟩
  · constructor
    · exact Nat.lt_succ_of_lt h
    · intro hsame
      cases hsame
      exact Nat.lt_irrefl _ h

theorem asked_responders {range : BlockRange} (h : n < d.session.responders) :
    (d.asked settings range).responders n = d.responders n := by
  unfold Desk.asked
  split
  · rfl
  · exact Desk.place_of_ne _ _ (Nat.ne_of_lt h)

theorem act (h : d.Outdates n) (ho : d.Orderly settings) (hx : d.responders n = some x)
    (hact : Act settings m d d') :
    d'.Outdates n ∧ ∃ x', d'.responders n = some x' ∧ x.WindsDown x' := by
  obtain ⟨⟨f, hf, hsession⟩, hothers⟩ := hact.rest ho
  refine ⟨h.leaves hf hsession, ?_⟩
  by_cases hm : n = m
  · subst hm
    cases hact with
    | @ask y op next r hy hp hr =>
      obtain rfl : x = y := Option.some.inj (hx.symm.trans hy)
      obtain ⟨visits, tail, haccounts⟩ := ho.accounts n x hx
      refine ⟨_, Desk.place_self _ _ _, ?_⟩
      have hfetches : (x.log ++ d.note op r).filterMap Note.fetch? =
          x.fetches ++ (d.note op r).filterMap Note.fetch? := List.filterMap_append
      rcases haccounts.outdated hp hr h.replaced with ⟨hnone, hpoised⟩ | ⟨hpoised, hnot, one, hone⟩
      · rw [hnone, List.append_nil] at hfetches
        exact .inl ⟨hfetches, hpoised⟩
      · rw [hone] at hfetches
        exact .inr ⟨hpoised, hnot, one, hfetches⟩
    | @renew y a hy hp =>
      obtain rfl : x = y := Option.some.inj (hx.symm.trans hy)
      obtain ⟨visits, tail, haccounts⟩ := ho.accounts n x hx
      refine ⟨_, Desk.place_self _ _ _, .inl ⟨rfl, ?_⟩⟩
      cases a <;> exact False.elim
  · exact ⟨x, (hothers n hm).trans hx, .refl x⟩

theorem step (h : d.Outdates n) (ho : d.Orderly settings) (hx : d.responders n = some x)
    (hstep : Step settings d d') :
    d'.Outdates n ∧ ∃ x', d'.responders n = some x' ∧ x.WindsDown x' := by
  cases hstep with
  | act hact => exact h.act ho hx hact
  | request hperforms =>
    rw [performs_handleSyncRequest_iff] at hperforms
    subst hperforms
    exact ⟨of_asked h.given, x, (asked_responders h.given).trans hx, .refl x⟩
  | push raw wantStatistics => exact ⟨⟨h.given, h.replaced⟩, x, hx, .refl x⟩
  | others _ hf => exact ⟨h.leaves hf rfl, x, hx, .refl x⟩
  | stop => exact ⟨⟨h.given, h.replaced⟩, x, hx, .refl x⟩

theorem run (h : d.Outdates n) (ho : d.Orderly settings) (hx : d.responders n = some x)
    (hrun : Relation.ReflTransGen (Step settings) d d') :
    ∃ x', d'.responders n = some x' ∧ x.WindsDown x' := by
  -- From the front, for what counts is how the responder stood when it was replaced.
  induction hrun using Relation.ReflTransGen.head_induction_on generalizing x with
  | refl => exact ⟨x, hx, .refl x⟩
  | head hstep _ ih =>
    obtain ⟨hnext, x', hx', hwinds⟩ := h.step ho hx hstep
    obtain ⟨x'', hx'', hwinds'⟩ := ih hnext (ho.step hstep) hx'
    exact ⟨x'', hx'', hwinds.trans hwinds'⟩

end Desk.Outdates

/-- How many blocks from a number on are stored without a gap, up to so many. -/
def stretch (chain : Memory) (first : UInt32) : Nat → Nat
  | 0 => 0
  | n + 1 =>
    if (chain.answer (.blockAt first)).isSome then stretch chain (first + 1) n + 1 else 0

theorem stretch_eq {chain : Memory} {first : UInt32} {n k : Nat} (hk : k ≤ n)
    (hstored : ∀ i < k, (chain.answer (.blockAt (first + UInt32.ofNat i))).isSome)
    (hend : k = n ∨ chain.answer (.blockAt (first + UInt32.ofNat k)) = none) :
    stretch chain first n = k := by
  induction n generalizing first k with
  | zero => exact (Nat.le_zero.mp hk).symm
  | succ n ih =>
    have hshift (i : Nat) : first + 1 + UInt32.ofNat i = first + UInt32.ofNat (i + 1) := by
      rw [UInt32.ofNat_add, UInt32.add_assoc, UInt32.add_comm 1]
      rfl
    have hzero : first + UInt32.ofNat 0 = first := UInt32.add_zero first
    cases k with
    | zero =>
      have hnone := hend.resolve_left (Nat.succ_ne_zero n).symm
      rw [hzero] at hnone
      rw [stretch, hnone]
      rfl
    | succ k =>
      have hfirst := hstored 0 (Nat.succ_pos k)
      rw [hzero] at hfirst
      have hrest : stretch chain (first + 1) n = k := by
        apply ih (Nat.le_of_succ_le_succ hk)
        · intro i hi
          rw [hshift]
          exact hstored (i + 1) (Nat.succ_lt_succ hi)
        · rw [hshift]
          exact hend.imp_left Nat.succ.inj
      rw [stretch, if_pos hfirst, hrest]

/-- Nobody disturbs a responder: the chain is a certain one, the responder is the current one on an
open transport, and none of its writes has failed. -/
structure Desk.Undisturbed (d : Desk) (chain : Memory) (n : Nat) : Prop where
  chain_eq : d.chain = chain
  running : d.stopping = false
  opened : d.session.closed = false
  linked : d.session.writer ≠ none
  current : ∀ x, d.responders n = some x → (x.errand n).Current d.session.standing
  sent : ∀ x, d.responders n = some x → ∀ frame, Note.wrote frame false ∉ x.log

/-- A step that disturbs a responder neither before nor after it. -/
def Lull (settings : Settings) (chain : Memory) (n : Nat) (d d' : Desk) : Prop :=
  Step settings d d' ∧ d.Undisturbed chain n ∧ d'.Undisturbed chain n

structure Tends (settings : Settings) (chain : Memory) (e : Errand) (x : Responder) : Prop where
  errand : x.errand e.responder = e
  accounts : ∃ visits tail, Accounts settings False e x.log x.program visits tail
  chains : ∀ num c, Note.fetched num c ∈ x.log → c = chain

section

variable {chain : Memory} {e : Errand} {d d' : Desk} {x : Responder}

theorem Desk.note_eq_of_fetched {op : Op} {r : interface.Answer op} {num : UInt32} {c : Memory}
    (h : Note.fetched num c ∈ d.note op r) : c = d.chain := by
  cases op with
  | chain q =>
    cases q with
    | blockAt num' => exact (Note.fetched.inj (List.mem_singleton.mp h)).2
    | _ => cases h
  | send link frame => cases List.mem_singleton.mp h
  | _ => cases h

theorem Tends.step (hle : e.next ≤ e.last) (h : Tends settings chain e x)
    (ho : d.Orderly settings) (hx : d.responders e.responder = some x)
    (hlull : Lull settings chain e.responder d d') :
    ∃ x', d'.responders e.responder = some x' ∧ Tends settings chain e x' := by
  obtain ⟨hstep, hd, hd'⟩ := hlull
  cases hstep with
  | @act m _ _ hact =>
    by_cases hm : e.responder = m
    · subst hm
      cases hact with
      | @ask y op next r hy hp hr =>
        obtain rfl : x = y := Option.some.inj (hx.symm.trans hy)
        obtain ⟨visits, tail, haccounts⟩ := h.accounts
        have hsent : ∀ frame, Note.wrote frame false ∉ d.note op r := fun frame hmem =>
          hd'.sent _ (Desk.place_self _ _ _) frame (List.mem_append_right _ hmem)
        have hfair : d.Favours e op r :=
          ⟨h.errand ▸ hd.current x hx, hd.running, hd.opened, hd.linked, hsent⟩
        refine ⟨_, Desk.place_self _ _ _, h.errand, haccounts.ask hle hp hr (.inr hfair), ?_⟩
        intro num c hmem
        rcases List.mem_append.mp hmem with hold | hnew
        · exact h.chains num c hold
        · rw [Desk.note_eq_of_fetched hnew, hd.chain_eq]
      | @renew y a hy hp =>
        obtain rfl : x = y := Option.some.inj (hx.symm.trans hy)
        obtain ⟨visits, tail, haccounts⟩ := h.accounts
        exact ⟨_, Desk.place_self _ _ _, h.errand, ⟨visits, tail, haccounts.renew hp⟩, h.chains⟩
    · exact ⟨x, ((hact.rest ho).2 _ hm).trans hx, h⟩
  | request hperforms =>
    -- A later request would replace the responder.
    rw [performs_handleSyncRequest_iff] at hperforms
    subst hperforms
    have hgiven := ho.numbered _ x hx
    have hcurrent := hd'.current x (by rw [Desk.Outdates.asked_responders hgiven, hx])
    exact absurd hcurrent.2.2 (Desk.Outdates.of_asked hgiven).replaced
  | push | others | stop => exact ⟨x, hx, h⟩

theorem Tends.run (hle : e.next ≤ e.last) (h : Tends settings chain e x)
    (ho : d.Orderly settings) (hx : d.responders e.responder = some x)
    (hrun : Relation.ReflTransGen (Lull settings chain e.responder) d d') :
    d'.Orderly settings ∧
      ∃ x', d'.responders e.responder = some x' ∧ Tends settings chain e x' := by
  induction hrun with
  | refl => exact ⟨ho, x, hx, h⟩
  | tail _ hlull ih =>
    obtain ⟨ho', x', hx', h'⟩ := ih
    exact ⟨ho'.step hlull.1, h'.step hle ho' hx' hlull⟩

theorem Tends.length_of_over (h : Tends settings chain e x) (hover : x.IsOver) :
    x.frames.length = stretch chain e.next (e.reach + 1) := by
  obtain ⟨visits, tail, haccounts⟩ := h.accounts
  obtain ⟨hstands, hlog, hstored⟩ := haccounts
  have hchain (k : Nat) (hk : k < visits.length) : visits[k].1 = chain := by
    apply h.chains (e.sentOn k).next
    rw [hlog, record, List.mem_append, List.mem_flatten]
    exact .inl ⟨_, List.mem_mapIdx.mpr ⟨k, hk, rfl⟩, List.mem_cons_self⟩
  have hsome (k : Nat) (hk : k < visits.length) :
      (chain.answer (.blockAt (e.next + UInt32.ofNat k))).isSome := by
    have hblock := hstored k hk
    rw [hchain k hk] at hblock
    exact Option.isSome_of_eq_some hblock
  have hframes : tail.filterMap Note.frame? = [] := by
    rcases hstands.tail_cases with ⟨rfl, -⟩ | ⟨-, c, rfl⟩ | ⟨-, c, raw, -, rfl⟩ <;> rfl
  have hlength : x.frames.length = visits.length := by
    rw [Responder.frames, hlog, List.filterMap_append, filterMap_frame_record, hframes,
      List.append_nil, List.length_map]
  rw [hlength]
  symm
  generalize hp : x.program = p at hstands
  rw [Responder.IsOver, hp] at hover
  cases hstands with
  | begun | allowed | fetching | holding | writing | onward => cases hover
  | missing hk hnone =>
    rename_i c
    have hc : c = chain := by
      apply h.chains (e.sentOn visits.length).next
      rw [hlog]
      exact List.mem_append_right _ List.mem_cons_self
    subst hc
    exact stretch_eq (Nat.le_succ_of_le hk) hsome (.inr hnone)
  | complete hk => exact stretch_eq (Nat.le_of_eq hk) hsome (.inl hk)
  | dismissed htrouble => exact htrouble.elim
  | refused htrouble => exact htrouble.elim
  | failed htrouble => exact htrouble.elim

/-- The responder comes to its end, and nobody disturbs it on the way. -/
def Ends (settings : Settings) (chain : Memory) (n : Nat) (d : Desk) : Prop :=
  ∃ d', Relation.ReflTransGen (Lull settings chain n) d d' ∧
    ∃ x, d'.responders n = some x ∧ x.IsOver

theorem Ends.head {n : Nat} (h : Lull settings chain n d d') (h' : Ends settings chain n d') :
    Ends settings chain n d := by
  obtain ⟨d'', hrun, hover⟩ := h'
  exact ⟨d'', .head h hrun, hover⟩

theorem Desk.Undisturbed.place {n : Nat} {log : List Note} (h : d.Undisturbed chain n)
    (hx : d.responders n = some x) (program : Action (Option Activity))
    (hsent : ∀ frame, Note.wrote frame false ∉ log) :
    (d.place n { x with program, log }).Undisturbed chain n := by
  refine ⟨h.chain_eq, h.running, h.opened, h.linked, ?_, ?_⟩ <;> intro y hy <;>
    rw [place_self] at hy <;> cases hy
  · exact h.current x hx
  · exact hsent

def EndsFrom (settings : Settings) (chain : Memory) (e : Errand) (k : Nat) (place : Place) :
    Prop :=
  ∀ d x, d.Undisturbed chain e.responder → d.responders e.responder = some x →
    x.errand e.responder = e → x.program = (e.sentOn k).program settings place →
    Ends settings chain e.responder d

theorem Ends.ask {op : Op} {next : interface.Answer op → Action (Option Activity)}
    (r : interface.Answer op) (hd : d.Undisturbed chain e.responder)
    (hx : d.responders e.responder = some x) (herrand : x.errand e.responder = e)
    (hp : x.program = .ask op next) (hr : d.Allows op r) (hafter : d.after settings op = d)
    (hsent : ∀ frame, Note.wrote frame false ∉ d.note op r)
    (h : ∀ d' x', d'.Undisturbed chain e.responder → d'.responders e.responder = some x' →
      x'.errand e.responder = e → x'.program = next r → Ends settings chain e.responder d') :
    Ends settings chain e.responder d := by
  have hact : Act settings e.responder d _ := .ask hx hp hr
  rw [hafter] at hact
  have hlog : ∀ frame, Note.wrote frame false ∉ x.log ++ d.note op r := by
    intro frame hmem
    rcases List.mem_append.mp hmem with hold | hnew
    · exact hd.sent x hx frame hold
    · exact hsent frame hnew
  have hd' := hd.place hx (next r) hlog
  exact .head ⟨.act hact, hd, hd'⟩ (h _ _ hd' (Desk.place_self _ _ _) herrand rfl)

variable {k : Nat}

theorem endsFrom_ended : EndsFrom settings chain e k .ended := by
  intro d x hd hx herrand hp
  exact ⟨d, .refl, x, hx, hp⟩

theorem endsFrom_onward (h : EndsFrom settings chain e (k + 1) .begun) :
    EndsFrom settings chain e k .onward := by
  intro d x hd hx herrand hp
  have hact : Act settings e.responder d _ := .renew hx hp
  rw [Errand.sentOn_succ] at hact
  have hd' := hd.place hx (runOnce settings (e.sentOn (k + 1)).activity) (hd.sent x hx)
  exact .head ⟨.act hact, hd, hd'⟩ (h _ _ hd' (Desk.place_self _ _ _) herrand rfl)

theorem endsFrom_writing (hle : e.next ≤ e.last) (hk : k ≤ e.reach) (link : LinkId) (raw : Bytes)
    (h : k < e.reach → EndsFrom settings chain e (k + 1) .begun) :
    EndsFrom settings chain e k (.writing link raw) := by
  intro d x hd hx herrand hp
  refine Ends.ask true hd hx herrand hp trivial rfl (by simp [Desk.note]) ?_
  intro d' x' hd' hx' herrand' hp'
  change x'.program = if (e.sentOn k).next = e.last then _ else _ at hp'
  have hend := Errand.sentOn_eq_last_iff hle hk
  by_cases hlast : (e.sentOn k).next = e.last
  · rw [if_pos hlast] at hp'
    exact endsFrom_ended (k := k) d' x' hd' hx' herrand' hp'
  · rw [if_neg hlast] at hp'
    have hmore : k < e.reach := Nat.lt_of_le_of_ne hk (mt hend.mpr hlast)
    exact endsFrom_onward (h hmore) d' x' hd' hx' herrand' hp'

theorem endsFrom_holding (raw : Bytes)
    (h : ∀ link, EndsFrom settings chain e k (.writing link raw)) :
    EndsFrom settings chain e k (.holding raw) := by
  intro d x hd hx herrand hp
  have hr : d.Allows (.update id) d.session := rfl
  refine .ask d.session hd hx herrand hp hr rfl (by simp [Desk.note]) ?_
  intro d' x' hd' hx' herrand' hp'
  change x'.program =
    ((if d.session.closed = true then _ else _ : Action Bool) >>= _) at hp'
  obtain ⟨link, hlink⟩ := Option.ne_none_iff_exists'.mp hd.linked
  rw [if_neg (by rw [hd.opened]; decide), hlink] at hp'
  exact h link d' x' hd' hx' herrand' hp'

theorem endsFrom_fetching (h : ∀ raw, EndsFrom settings chain e k (.holding raw)) :
    EndsFrom settings chain e k .fetching := by
  intro d x hd hx herrand hp
  have hr : d.Allows (.chain (.blockAt (e.sentOn k).next))
      (d.chain.answer (.blockAt (e.sentOn k).next)) := rfl
  refine .ask _ hd hx herrand hp hr rfl (by simp [Desk.note]) ?_
  intro d' x' hd' hx' herrand' hp'
  rcases hblock : d.chain.answer (.blockAt (e.sentOn k).next) with _ | raw
  · rw [hblock] at hp'
    exact endsFrom_ended (k := k) d' x' hd' hx' herrand' hp'
  · rw [hblock] at hp'
    exact h raw d' x' hd' hx' herrand' hp'

theorem endsFrom_allowed (h : EndsFrom settings chain e k .fetching) :
    EndsFrom settings chain e k .allowed := by
  intro d x hd hx herrand hp
  have hr : d.Allows .isStopping d.stopping := rfl
  refine .ask d.stopping hd hx herrand hp hr rfl (by simp [Desk.note]) ?_
  intro d' x' hd' hx' herrand' hp'
  rw [hd.running] at hp'
  exact h d' x' hd' hx' herrand' hp'

theorem endsFrom_begun (h : EndsFrom settings chain e k .allowed) :
    EndsFrom settings chain e k .begun := by
  intro d x hd hx herrand hp
  have hr : d.Allows (.update id) d.session := rfl
  refine .ask d.session hd hx herrand hp hr rfl (by simp [Desk.note]) ?_
  intro d' x' hd' hx' herrand' hp'
  have hcurrent : (e.sentOn k).Current d.session.standing := herrand ▸ hd.current x hx
  rw [Errand.current_iff] at hcurrent
  change x'.program = if _ then _ else _ at hp'
  rw [hcurrent] at hp'
  exact h d' x' hd' hx' herrand' hp'

theorem endsFrom_start (hle : e.next ≤ e.last) (hk : k ≤ e.reach) :
    EndsFrom settings chain e k .begun := by
  -- By the number of blocks that are still to be sent.
  induction hleft : e.reach - k using Nat.strongRecOn generalizing k with
  | ind left ih =>
    apply endsFrom_begun
    apply endsFrom_allowed
    apply endsFrom_fetching
    intro raw
    apply endsFrom_holding
    intro link
    apply endsFrom_writing hle hk
    intro hmore
    exact ih (e.reach - (k + 1)) (by omega) hmore rfl

theorem tends_asked {range : BlockRange} (settings : Settings) (d : Desk)
    (hreset : range.isReset = false) :
    ∃ x, (d.asked settings range).responders d.session.responders = some x ∧
      Tends settings chain
        ⟨range.first, range.last, d.session.transport, d.session.responders⟩ x := by
  rw [Desk.asked, if_neg (by rw [hreset]; exact Bool.false_ne_true)]
  refine ⟨_, Desk.place_self _ _ _, rfl, ?_, nofun⟩
  exact ⟨[], [], Accounts.begin settings False ⟨range.first, range.last, _, _⟩⟩

theorem Tends.ends (hle : e.next ≤ e.last) (h : Tends settings chain e x)
    (hd : d.Undisturbed chain e.responder) (hx : d.responders e.responder = some x) :
    Ends settings chain e.responder d := by
  obtain ⟨visits, tail, haccounts⟩ := h.accounts
  have hstands := haccounts.stands
  have hwriting (hk : visits.length ≤ e.reach) (link : LinkId) (raw : Bytes) :
      EndsFrom settings chain e visits.length (.writing link raw) :=
    endsFrom_writing hle hk link raw fun hmore => endsFrom_start hle hmore
  have hfetching (hk : visits.length ≤ e.reach) :
      EndsFrom settings chain e visits.length .fetching :=
    endsFrom_fetching fun raw => endsFrom_holding raw fun link => hwriting hk link raw
  generalize hp : x.program = p at hstands
  cases hstands with
  | begun hk => exact endsFrom_start hle hk d x hd hx h.errand hp
  | allowed hk => exact endsFrom_allowed (hfetching hk) d x hd hx h.errand hp
  | fetching hk => exact hfetching hk d x hd hx h.errand hp
  | missing | complete => exact ⟨d, .refl, x, hx, hp⟩
  | holding hk => exact endsFrom_holding _ (fun link => hwriting hk link _) d x hd hx h.errand hp
  | writing hk => exact hwriting hk _ _ d x hd hx h.errand hp
  | onward hk =>
    have hact : Act settings e.responder d _ := .renew hx hp
    have hd' := hd.place hx (runOnce settings (e.sentOn visits.length).activity) (hd.sent x hx)
    exact .head ⟨.act hact, hd, hd'⟩
      (endsFrom_start hle hk _ _ hd' (Desk.place_self _ _ _) h.errand rfl)
  | dismissed htrouble => exact htrouble.elim
  | refused htrouble => exact htrouble.elim
  | failed htrouble => exact htrouble.elim

end

theorem Desk.Orderly.winds_down {d d' : Desk} {n : Nat} {x : Responder} {range : BlockRange}
    (ho : d.Orderly settings) (hx : d.responders n = some x)
    (hrun : Relation.ReflTransGen (Step settings) (d.asked settings range) d') :
    ∃ x', d'.responders n = some x' ∧ x.WindsDown x' := by
  have hgiven := ho.numbered n x hx
  have hx' : (d.asked settings range).responders n = some x := by
    rw [Desk.Outdates.asked_responders hgiven, hx]
  exact (Desk.Outdates.of_asked hgiven).run ho.asked hx' hrun

/-- A range that is asked for is served block by block, in order and as stored; a reset starts
nothing. Whoever is asked for a range next replaces the responder before, which asks the chain for
nothing more from then on but the block that it had looked at the session for. Left alone, a
responder sends all that is stored without a gap. -/
theorem range_is_served (settings : Settings) :
    (∀ range d d', Performs settings (handleSyncRequest range) d d' →
      if range.isReset then d'.responders = d.responders
      else ∃ x : Responder, x.first = range.first ∧ x.last = range.last ∧ x.log = [] ∧
        d'.responders = Function.update d.responders d.session.responders (some x)) ∧
    (∀ d n x, Reached settings d → d.responders n = some x →
      ¬ (x.first = 0 ∧ x.last = 0) ∧ ∃ visits, Served x visits) ∧
    (∀ range d d₁ d₂ n x, Reached settings d → d.responders n = some x →
      Performs settings (handleSyncRequest range) d d₁ →
      Relation.ReflTransGen (Step settings) d₁ d₂ →
      ∃ x', d₂.responders n = some x' ∧ (x'.fetches = x.fetches ∨
        Poised x.program ∧ ∃ one, x'.fetches = x.fetches ++ [one])) ∧
    (∀ range d d₁ d₂, Reached settings d → range.isReset = false →
      Performs settings (handleSyncRequest range) d d₁ →
      d₁.Undisturbed d.chain d.session.responders →
      Relation.ReflTransGen (Lull settings d.chain d.session.responders) d₁ d₂ →
      Ends settings d.chain d.session.responders d₂ ∧
      ∃ x, d₂.responders d.session.responders = some x ∧ (x.IsOver →
        x.frames.length =
          stretch d.chain range.first (range.last.toNat - range.first.toNat + 1))) := by
  refine ⟨?_, ?_, ?_, ?_⟩
  · intro range d d' hperforms
    rw [performs_handleSyncRequest_iff] at hperforms
    subst hperforms
    unfold Desk.asked
    split
    · rfl
    · exact ⟨_, rfl, rfl, rfl, rfl⟩
  · intro d n x hd hx
    obtain ⟨hle, hreset⟩ := hd.orderly.range n x hx
    obtain ⟨visits, tail, haccounts⟩ := hd.orderly.accounts n x hx
    exact ⟨hreset, visits, haccounts.served hle⟩
  · intro range d d₁ d₂ n x hd hx hperforms hrun
    rw [performs_handleSyncRequest_iff] at hperforms
    subst hperforms
    obtain ⟨x', hx', hwinds⟩ := hd.orderly.winds_down hx hrun
    refine ⟨x', hx', ?_⟩
    rcases hwinds with ⟨hsame, -⟩ | ⟨hpoised, -, hone⟩
    · exact .inl hsame
    · exact .inr ⟨hpoised, hone⟩
  · intro range d d₁ d₂ hd hreset hperforms hundisturbed hrun
    rw [performs_handleSyncRequest_iff] at hperforms
    subst hperforms
    obtain ⟨x, hx, htends⟩ := tends_asked settings d hreset
    obtain ⟨ho₂, x₂, hx₂, htends₂⟩ :=
      htends.run range.first_le_last hd.orderly.asked hx hrun
    have hd₂ : d₂.Undisturbed d.chain d.session.responders := by
      cases hrun with
      | refl => exact hundisturbed
      | tail _ hlull => exact hlull.2.2
    constructor
    · exact htends₂.ends range.first_le_last hd₂ hx₂
    · exact ⟨x₂, hx₂, htends₂.length_of_over⟩

def sampleDesk : Desk where
  chain :=
    { Memory.ofSnapshot (Octets.zero 32) 2 (Octets.zero 32) with
      blocks := [⟨2, Octets.zero 32, [7]⟩, ⟨1, Octets.zero 32, [5]⟩] }
  session := { closed := false, writer := some 0, transport := 1 }

def sampleRange : BlockRange := ⟨1, 5, by decide⟩

/-- The desk with a responder for five blocks. -/
def busyDesk : Desk := sampleDesk.asked {} sampleRange

theorem busyDesk_responder : busyDesk.responders 0 =
    some ⟨1, 5, 1, runOnce {} (.respond 1 5 1 0), []⟩ := rfl

/-- The desk when the responder has looked at the session. -/
def poisedDesk : Desk :=
  busyDesk.place 0 ⟨1, 5, 1, (Errand.mk 1 5 1 0).program {} .allowed, []⟩

theorem sampleDesk_reached : Reached {} sampleDesk := ⟨sampleDesk, fun _ => rfl, .refl⟩

theorem performs_busyDesk : Performs {} (handleSyncRequest sampleRange) sampleDesk busyDesk :=
  performs_handleSyncRequest_iff.mpr rfl

theorem poisedDesk_reached : Reached {} poisedDesk := by
  have hlook : Act {} 0 busyDesk poisedDesk := .ask busyDesk_responder rfl rfl
  exact ⟨sampleDesk, fun _ => rfl, .tail (.single (.request performs_busyDesk)) (.act hlook)⟩

/-- Of five blocks that are asked for the two that are stored are sent, and a responder that has
looked at the session asks for one block more at most. -/
theorem sample_service :
    (∃ x, busyDesk.responders 0 = some x ∧ x.log = []) ∧
    (∃ (d : Desk) (x : Responder) (visits : List (Memory × Bytes)), d.responders 0 = some x ∧
      x.IsOver ∧ x.frames.length = 2 ∧ Served x visits) ∧
    ∀ d, Relation.ReflTransGen (Step {}) (poisedDesk.asked {} .reset) d →
      ∃ x, d.responders 0 = some x ∧ x.fetches.length ≤ 1 := by
  obtain ⟨hasked, hserved, hreplaced, hexact⟩ := range_is_served {}
  have hundisturbed : busyDesk.Undisturbed sampleDesk.chain 0 := by
    refine ⟨rfl, rfl, rfl, nofun, ?_, ?_⟩ <;> intro x hx <;> cases hx
    · exact ⟨rfl, rfl, rfl⟩
    · exact nofun
  constructor
  · obtain ⟨x, -, -, hlog, hresponders⟩ := hasked sampleRange sampleDesk busyDesk performs_busyDesk
    exact ⟨x, by rw [hresponders]; rfl, hlog⟩
  constructor
  · have hexact' := fun d => hexact sampleRange sampleDesk busyDesk d sampleDesk_reached rfl
      performs_busyDesk hundisturbed
    obtain ⟨⟨d, hrun, x, hx, hover⟩, -⟩ := hexact' busyDesk .refl
    obtain ⟨-, x', hx', hlength⟩ := hexact' d hrun
    obtain rfl : x = x' := Option.some.inj (hx.symm.trans hx')
    have hsteps : Relation.ReflTransGen (Step {}) sampleDesk d :=
      .head (.request performs_busyDesk) (hrun.lift id fun _ _ h => h.1)
    obtain ⟨-, visits, hvisits⟩ := hserved d 0 x ⟨sampleDesk, fun _ => rfl, hsteps⟩ hx
    exact ⟨d, x, visits, hx, hover, hlength hover, hvisits⟩
  · intro d hrun
    obtain ⟨x, hx, hfetches⟩ := hreplaced .reset poisedDesk _ d 0 _ poisedDesk_reached rfl
      (performs_handleSyncRequest_iff.mpr rfl) hrun
    refine ⟨x, hx, ?_⟩
    rcases hfetches with hsame | ⟨-, one, hone⟩
    · rw [hsame]
      exact Nat.zero_le _
    · rw [hone]
      exact Nat.le_refl _

/-- A responder that was replaced behind its look at the session asks the chain once more, and one
whose session was closed ends although its chain has two blocks of the range. -/
theorem range_is_cut_short :
    (∃ (d : Desk) (x x' : Responder), Reached {} poisedDesk ∧ poisedDesk.responders 0 = some x ∧
      Relation.ReflTransGen (Step {}) (poisedDesk.asked {} .reset) d ∧
      d.responders 0 = some x' ∧ x.fetches.length = 0 ∧ x'.fetches.length = 1) ∧
    ∃ (d : Desk) (x : Responder),
      Relation.ReflTransGen (fun d d' => Step {} d d' ∧ d'.chain = d.chain) busyDesk d ∧
      d.responders 0 = some x ∧ x.IsOver ∧ x.frames.length = 0 ∧ stretch d.chain 1 5 = 2 := by
  constructor
  · have hx : (poisedDesk.asked {} .reset).responders 0 =
        some ⟨1, 5, 1, (Errand.mk 1 5 1 0).program {} .allowed, []⟩ := rfl
    have hstop : Act {} 0 (poisedDesk.asked {} .reset) _ := .ask hx rfl rfl
    have hfetch : Act {} 0 ((poisedDesk.asked {} .reset).place 0
        ⟨1, 5, 1, (Errand.mk 1 5 1 0).program {} .fetching, []⟩) _ :=
      .ask (Desk.place_self _ _ _) rfl rfl
    exact ⟨_, _, _, poisedDesk_reached, rfl, .tail (.single (.act hstop)) (.act hfetch),
      Desk.place_self _ _ _, rfl, rfl⟩
  · have hclose : Step {} busyDesk _ := .others busyDesk leaves_close
    have hlook : Act {} 0 { busyDesk with session := close busyDesk.session } _ :=
      .ask busyDesk_responder rfl rfl
    exact ⟨_, _, .tail (.single ⟨hclose, rfl⟩) ⟨.act hlook, rfl⟩, Desk.place_self _ _ _, rfl, rfl,
      rfl⟩

end BlockSync.Session

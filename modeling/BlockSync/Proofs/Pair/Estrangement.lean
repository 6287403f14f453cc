import BlockSync.Proofs.Pair.Refusal

/-! Two parties of which one refuses the handshake of the other. All that it ever takes is what was
said before that, so it asks for no block and sends none, and neither is one sent to it: both chains
stay as they are. -/

namespace BlockSync.Session

open BlockSync.Chain (Memory)

section

variable {op : Op} {r : interface.Answer op} {n n' : Node Memory} {es : List Event}

/-- Operations that push no block, send none, and have nobody else send one. -/
def Op.Blockless : Op → Prop
  | .push _ _ | .stop | .spawn _ => False
  | .send _ frame => ∃ m : Message, m.kind ≠ .signedBlock ∧ frame = m.frame
  | _ => True

def Event.Blockless : Event → Prop
  | .pushed _ _ _ | .spawned _ => False
  | .wrote bytes => ∃ m : Message, m.kind ≠ .signedBlock ∧ bytes = m.frame
  | _ => True

theorem Op.Blockless.quiet (h : op.Blockless) : Quiet op := by
  cases op with
  | push | stop => exact h
  | _ => trivial

theorem carries_blockless : Carries Op.Blockless :=
  ⟨trivial, trivial, fun _ => trivial, fun _ => trivial⟩

theorem Op.Blockless.events (h : op.Blockless)
    (ho : n.perform Memory.engine op = some (r, n', es)) : ∀ e ∈ es, e.Blockless := by
  cases op <;> simp only [Node.perform, Option.some.injEq, Prod.mk.injEq, reduceCtorEq] at ho
  case push | stop | spawn => exact h.elim
  case update f =>
    obtain ⟨-, -, rfl⟩ := ho
    unfold Node.turns
    split
    · exact List.forall_mem_nil _
    · exact List.forall_mem_singleton.mpr trivial
  case send link frame =>
    obtain ⟨-, -, rfl⟩ := ho
    split
    · exact List.forall_mem_singleton.mpr h
    · exact List.forall_mem_nil _
  case hangUp | announce =>
    obtain ⟨-, -, rfl⟩ := ho
    exact List.forall_mem_singleton.mpr trivial
  all_goals
    obtain ⟨-, -, rfl⟩ := ho
    exact List.forall_mem_nil _

theorem started_of_blockless {settings : Settings} (h : ∀ e ∈ es, e.Blockless) :
    started settings es = [] :=
  List.eq_nil_iff_forall_not_mem.mpr fun _ hp => by
    obtain ⟨a, ha, -⟩ := mem_started.mp hp
    exact h _ ha

theorem signedBlock_notMem_of_blockless (h : ∀ e ∈ es, e.Blockless) (raw : Bytes) :
    .signedBlock raw ∉ letters es := by
  intro hmem
  obtain ⟨e, he, hm⟩ := List.mem_filterMap.mp hmem
  cases e with
  | wrote bytes =>
    obtain ⟨m, hkind, rfl⟩ := h _ he
    have hread := Frame.ofPayload_of_message? (f := Frame.ofWritten m.frame) hm
    rw [m.ofWritten_frame] at hread
    have htag := Message.ofTag_of_ofPayload hread
    rw [ofTag_tag] at htag
    exact hkind (Except.ok.inj htag)
  | _ => cases hm

theorem blockless_handleFrame (settings : Settings) {f : Frame}
    (h : f.message? = some (.syncRequest .reset)) :
    (handleFrame settings f).Within Op.Blockless fun _ _ => True := by
  refine .ask trivial fun stopping => .ite trivial ?_
  rw [Frame.ofPayload_of_message? h]
  exact .ask trivial fun _ => trivial

end

namespace Party

variable {x y : Party Memory} {m : Memory} {es : List Event}

/-- A party that has taken nothing but resets, with a chain that it keeps. -/
structure Deaf (m : Memory) (x : Party Memory) : Prop where
  chain : x.node.chain = m
  loop : ∀ p, x.loop = .busy p → p.Within Op.Blockless fun _ _ => True
  responders : x.responders = []
  inbox : ∀ f ∈ x.inbox, f.message? = some (.syncRequest .reset)

theorem Deaf.sparing (hx : x.Deaf m) : x.Sparing m where
  chain := hx.chain
  loop p hp := (hx.loop p hp).mono (fun _ => Op.Blockless.quiet) fun _ _ => id
  responders p hp := by
    rw [hx.responders] at hp
    cases hp
  inbox f hf raw hm := by cases (hx.inbox f hf).symm.trans hm

theorem Deaf.move (hx : x.Deaf m) (h : Move Memory.engine x es y) :
    y.Deaf m ∧ ∀ e ∈ es, e.Blockless := by
  have hnone {before after : List (Action (Option Activity))} {p : Action (Option Activity)} :
      x.responders ≠ before ++ p :: after := by
    rw [hx.responders]
    exact (List.append_ne_nil_of_right_ne_nil _ (List.cons_ne_nil _ _)).symm
  cases h with
  | take _ _ _ hi =>
    have hinbox := hx.inbox
    rw [hi] at hinbox
    obtain ⟨hf, hrest⟩ := List.forall_mem_cons.mp hinbox
    refine ⟨⟨hx.chain, fun p hp => ?_, hx.responders, hrest⟩,
      List.forall_mem_singleton.mpr trivial⟩
    cases hp
    exact blockless_handleFrame _ hf
  | proceed hl ho =>
    obtain ⟨hop, hnext⟩ := hx.loop _ hl
    have hes := hop.events ho
    refine ⟨⟨(chain_of_quiet hop.quiet ho).trans hx.chain, fun p hp => ?_, ?_, hx.inbox⟩, hes⟩
    · cases hp
      exact hnext _ trivial
    · rw [hx.responders, started_of_blockless hes]
      rfl
  | @finish b =>
    refine ⟨⟨hx.chain, fun p hp => ?_, hx.responders, hx.inbox⟩, List.forall_mem_nil _⟩
    cases b <;> cases hp
  | respond hr | retire hr | renew hr => exact absurd hr hnone

theorem Deaf.advance (hx : x.Deaf m) (h : Advance Memory.engine x es y) :
    y.Deaf m ∧ ∀ e ∈ es, e.Blockless := by
  cases h with
  | move h => exact hx.move h
  | breakOff =>
    refine ⟨⟨hx.chain, fun p hp => ?_, hx.responders, hx.inbox⟩, List.forall_mem_nil _⟩
    cases hp
    exact .bind carries_blockless.shut fun _ => trivial
  | leave =>
    refine ⟨⟨hx.chain, fun p hp => ?_, hx.responders, hx.inbox⟩, List.forall_mem_nil _⟩
    cases hp
  | sever => exact ⟨⟨hx.chain, hx.loop, hx.responders, hx.inbox⟩, List.forall_mem_nil _⟩

theorem Deaf.receive (hx : x.Deaf m)
    (h : ∀ f ∈ (x.receive es).inbox, f.message? = some (.syncRequest .reset)) :
    (x.receive es).Deaf m := by
  obtain ⟨fs, gs, hr⟩ := x.received es
  rw [hr.eq] at h ⊢
  exact ⟨hx.chain, hx.loop, hx.responders, h⟩

end Party

namespace Pair

variable {a b : Memory} {s t : Pair} {l r r' : Outlook} {es : List Event}

/-- One party is still to say something that the other will refuse, and nothing but resets before
that. -/
structure Expecting (s : Pair) (l r : Outlook) : Prop where
  left : Orderly (fun _ => True) s.left l
  right : Orderly (fun _ => True) s.right r
  unread : s.left.unread = []
  leftStays : s.right.parted = false
  rightStays : s.left.parted = false
  errands : r.errands = []
  begun : begun r.ahead = []
  words : ∀ k ∈ letters r.ahead, k = .syncRequest .reset ∨ ¬ Admitted k.payload
  refused : ∃ k ∈ letters r.ahead, ¬ Admitted k.payload

structure Estranged (a b : Memory) (s : Pair) : Prop where
  left : s.left.Deaf a
  right : s.right.Sparing b
  refuses : s.left.unread ≠ [] ∨ ∃ l r, s.Expecting l r

theorem Expecting.ahead_ne_nil (h : s.Expecting l r) : r.ahead ≠ [] := by
  obtain ⟨k, hk, -⟩ := h.refused
  intro hnil
  rw [hnil] at hk
  cases hk

theorem Expecting.left_move {x : Party Memory} (h : s.Expecting l r)
    (hx : Party.Advance Memory.engine s.left es x) :
    ∃ l', Expecting ⟨x, s.right.receive es⟩ l' r := by
  obtain hm | ⟨-, hunread, -⟩ := h.left.move_or_breakOff h.rightStays hx
  · obtain ⟨l', -, hx', hes⟩ := change_of_move h.left hm
    exact ⟨l', hx', h.right.receive hes, hm.unread_eq.trans h.unread,
      (parted_receive s.right hes).trans h.leftStays, hm.parted_eq.trans h.rightStays, h.errands,
      h.begun, h.words, h.refused⟩
  · exact absurd h.unread hunread

/-- What is still to be said goes on its way one by one. -/
theorem Expecting.split {y : Party Memory} (h : s.Expecting l r)
    (hc : Change (fun _ => True) s.right r es y r') :
    letters r.ahead = letters es ++ letters r'.ahead ∧ r'.errands = [] ∧
      Session.begun r'.ahead = [] := by
  cases hc with
  | take _ _ _ ha | finish ha => exact absurd ha h.ahead_ne_nil
  | pass => exact ⟨rfl, h.errands, h.begun⟩
  | @proceed _ _ _ e rest _ ha =>
    have hall : r.ahead = [e] ++ rest := ha
    have hbegun := h.begun
    rw [hall, Session.begun, List.filterMap_append, List.append_eq_nil_iff] at hbegun
    refine ⟨by rw [hall, letters_append], ?_, hbegun.2⟩
    exact List.append_eq_nil_iff.mpr ⟨h.errands, hbegun.1⟩
  | respond heq | retire heq | renew heq =>
    rw [h.errands] at heq
    exact absurd heq.symm (List.append_ne_nil_of_right_ne_nil _ (List.cons_ne_nil _ _))

/-- Of what is said while a refusal is expected, only resets are taken. -/
theorem Expecting.reset_of_taken {ms : List Message} {fs gs : List Frame} {x : Party Memory}
    (h : s.Expecting l r) (hes : ∀ e ∈ es, Mannered (fun _ => True) e)
    (hsplit : letters r.ahead = letters es ++ ms)
    (hr : s.left.Received es fs gs x) : ∀ f ∈ fs, f.message? = some (.syncRequest .reset) := by
  intro f hf
  have hsent : f ∈ sent es := hr.sent_eq ▸ List.mem_append_left gs hf
  obtain ⟨bytes, hwrote, rfl⟩ := mem_sent.mp hsent
  obtain ⟨m, rfl, hm⟩ := hes _ hwrote
  have hread := Message.message?_ofWritten hm.fits
  have hmem : m ∈ letters r.ahead := by
    rw [hsplit]
    exact List.mem_append_left _ (List.mem_filterMap.mpr ⟨_, hwrote, hread⟩)
  rcases h.words m hmem with rfl | hrefused
  · exact hread
  · exact absurd ((admits_ofWritten m).mp (hr.admitted _ hf)) hrefused

theorem Expecting.right_move {y : Party Memory} (h : s.Expecting l r)
    (hy : Party.Advance Memory.engine s.right es y)
    (hinbox : ∀ f ∈ s.left.inbox, f.message? = some (.syncRequest .reset)) :
    (∀ f ∈ (s.left.receive es).inbox, f.message? = some (.syncRequest .reset)) ∧
      ((s.left.receive es).unread ≠ [] ∨ ∃ r', Expecting ⟨s.left.receive es, y⟩ l r') := by
  obtain hm | ⟨hidle, -⟩ := h.right.move_or_breakOff h.leftStays hy
  swap
  · exact absurd (h.right.loop.of_idle hidle).2.1 h.ahead_ne_nil
  obtain ⟨r', hc, hy', hes⟩ := change_of_move h.right hm
  obtain ⟨hsplit, herrands, hbegun⟩ := h.split hc
  have hleft := h.left.receive hes
  have hstays := parted_receive s.left hes
  obtain ⟨fs, gs, hr⟩ := s.left.received es
  have hresets := h.reset_of_taken hes hsplit hr
  rw [hr.eq] at hleft hstays ⊢
  refine ⟨List.forall_mem_append.mpr ⟨hinbox, hresets⟩, ?_⟩
  by_cases hgs : gs = []
  · subst hgs
    have hunread : s.left.unread ++ [] = [] := (List.append_nil _).trans h.unread
    obtain ⟨k, hk, hrefused⟩ := h.refused
    refine .inr ⟨r', hleft, hy', hunread, hm.parted_eq.trans h.leftStays,
      hstays.trans h.rightStays, herrands, hbegun, fun k hk => h.words k ?_, k, ?_, hrefused⟩
    · rw [hsplit]
      exact List.mem_append_right _ hk
    · rw [hsplit] at hk
      refine (List.mem_append.mp hk).resolve_left fun hsaid => hrefused ?_
      rw [letters_eq, hr.sent_eq, List.append_nil] at hsaid
      obtain ⟨f, hf, hread⟩ := List.mem_filterMap.mp hsaid
      cases (hresets f hf).symm.trans hread
      exact admitted_syncRequest _
  · exact .inl (List.append_ne_nil_of_right_ne_nil _ hgs)

theorem Estranged.step (h : s.Estranged a b) (hs : Step s t) : t.Estranged a b := by
  cases hs with
  | left hx =>
    obtain ⟨hx', hes⟩ := h.left.advance hx
    refine ⟨hx', h.right.receive (signedBlock_notMem_of_blockless hes), ?_⟩
    rcases h.refuses with hunread | ⟨l, r, he⟩
    · exact .inl (hx.unread_eq ▸ hunread)
    · obtain ⟨l', ht⟩ := he.left_move hx
      exact .inr ⟨l', r, ht⟩
  | @right es y hy =>
    rcases h.refuses with hunread | ⟨l, r, he⟩
    · obtain ⟨fs, gs, hr⟩ := s.left.received es
      obtain rfl := hr.behind hunread
      have hinbox : (s.left.receive es).inbox = s.left.inbox := by
        rw [hr.eq]
        exact List.append_nil _
      refine ⟨h.left.receive (hinbox ▸ h.left.inbox), h.right.advance hy, .inl ?_⟩
      rw [hr.eq]
      exact List.append_ne_nil_of_left_ne_nil hunread _
    · obtain ⟨hinbox, hrefuses⟩ := he.right_move hy h.left.inbox
      refine ⟨h.left.receive hinbox, h.right.advance hy, hrefuses.imp_right ?_⟩
      exact fun ⟨r', ht⟩ => ⟨l, r', ht⟩

end Pair

end BlockSync.Session

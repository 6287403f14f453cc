import BlockSync.Proofs.Pair.Traffic

/-! The party with the longer chain, and how it takes what the other one asks for. It is never
behind, so it pushes nothing; its responders send the blocks of a range one after another, and only
a later request stops them. -/

namespace BlockSync.Session

open BlockSync.Chain (Memory StoredBlock)

variable {a b : Memory} {top : Nat} {k : Message}

inductive Answers (b : Memory) (n : Node Memory) : Message → Node Memory → List Event → Prop
  | stops {range : BlockRange} : range.isReset = true →
      Answers b n (.syncRequest range) (n.mapSession stopResponder) (n.turns stopResponder)
  | serves {range : BlockRange} : range.isReset = false →
      Answers b n (.syncRequest range) n.serving
        [.turned n.serving.session.standing,
          .spawned (.respond range.first range.last n.session.transport n.session.responders)]
  | talks {k : Message} {n' es} : (∀ range, k ≠ .syncRequest range) → n'.view = n.view →
      Talk (Word b) es → Answers b n k n' es

theorem answers {settings : Settings} {n n' : Node Memory} {es : List Event} (hn : n.chain = b)
    (hk : Ask a b top k) (h : Reaction Memory.engine settings n k n' es) :
    Answers b n k n' es := by
  subst hn
  cases hk with
  | reset | range =>
    cases h with
    | stops hr => exact .stops hr
    | serves hr => exact .serves hr
  | request =>
    cases h with
    | asked => exact .talks (fun _ h => nomatch h) rfl .nil
  | handshake hhead hlib _ =>
    have hother {m : Handshake} (range : BlockRange) :
        Message.handshake m ≠ .syncRequest range := fun h => nomatch h
    cases h with
    | behind hlt => exact absurd hlt (UInt32.not_lt.mpr hlib)
    | content => exact .talks hother rfl .nil
    | below _ hlt => exact absurd hlt (UInt32.not_lt.mpr hhead)
    | farAbove =>
      have hword : Word n.chain (.notice (n.irreversibleNotice Memory.engine)) :=
        .notice (fun _ => rfl) (admitted_notice (Nat.le_succ 1))
      exact .talks hother rfl (.cons (honest_irreversibleNotice n) hword .nil)
    | above =>
      have hword : Word n.chain (.notice (n.catchUpNotice Memory.engine)) :=
        .notice (fun h => nomatch h) (admitted_notice (Nat.le_refl 2))
      exact .talks hother rfl (.cons (honest_catchUpNotice n) hword .nil)

def Place.block? : Place → Option Bytes
  | .holding raw | .writing _ raw => some raw
  | _ => none

/-- A responder sends blocks of the longer chain above the shorter one, each no more than one above
the blocks that were sent before. -/
structure Errand.Due (a b : Memory) (top : Nat) (e : Errand) (p : Place) : Prop where
  above : a.headNum < e.next
  within : e.last ≤ b.headNum
  near : e.next.toNat ≤ top + 1
  sent : p = .onward → e.next.toNat ≤ top
  held : ∀ raw, p.block? = some raw → b.answer (.blockAt e.next) = some raw

namespace Errand.Due

variable {e : Errand} {p q : Place} {top' : Nat}

theorem mono (h : e.Due a b top p) (hle : top ≤ top') : e.Due a b top' p where
  above := h.above
  within := h.within
  near := Nat.le_trans h.near (Nat.succ_le_succ hle)
  sent hp := Nat.le_trans (h.sent hp) hle
  held := h.held

theorem elsewhere (h : e.Due a b top p) (hq : q ≠ .onward) (hnone : q.block? = none) :
    e.Due a b top q where
  above := h.above
  within := h.within
  near := h.near
  sent hp := absurd hp hq
  held raw hraw := by
    rw [hnone] at hraw
    cases hraw

theorem block_of_held (h : e.Due a b top p) (hg : b.Genuine fun _ => True)
    (hle : e.next ≤ e.last) {raw : Bytes} (hraw : p.block? = some raw) :
    Block a b (.signedBlock raw) ∧ number (.signedBlock raw) = e.next.toNat := by
  obtain ⟨y, hy, rfl⟩ := Option.map_eq_some_iff.mp (h.held raw hraw)
  obtain ⟨header, hd, hbn, -⟩ := number_of_get? hg hy
  refine ⟨.mk hy h.above (UInt32.le_trans hle h.within), ?_⟩
  rw [number_signedBlock hd, hbn]

theorem advanced (h : e.Due a b top .onward) (hlt : e.next < e.last) :
    e.advanced.Due a b top .begun := by
  have hnext : e.advanced.next.toNat = e.next.toNat + 1 := by
    have := e.last.toNat_lt
    rw [UInt32.lt_iff_toNat_lt] at hlt
    change (e.next + 1).toNat = _
    rw [UInt32.toNat_add, UInt32.toNat_one]
    omega
  refine ⟨?_, h.within, ?_, (fun h => nomatch h), fun _ h => nomatch h⟩
  · have habove := h.above
    rw [UInt32.lt_iff_toNat_lt] at habove ⊢
    omega
  · rw [hnext]
    exact Nat.succ_le_succ (h.sent rfl)

variable {n : Node Memory} {es : List Event}

theorem goes (h : e.Due a b top p) (he : a.Extends b) (hg : b.Genuine fun _ => True)
    (hn : n.chain = b) (hs : e.Sound (fun _ => True) p) (hgo : e.Goes Memory.engine n p es q) :
    (es = [] ∧ e.Due a b top q ∧ (q = .ended → ¬ e.Current n.session.standing)) ∨
      ∃ raw, es = [.said (.signedBlock raw)] ∧ Block a b (.signedBlock raw) ∧
        number (.signedBlock raw) = e.next.toNat ∧ e.Due a b (max top e.next.toNat) q ∧
        (q = .ended → e.next = e.last) := by
  have hmax := h.mono (Nat.le_max_left top e.next.toNat)
  cases hgo with
  | dismissed hno => exact .inl ⟨rfl, h.elsewhere (fun h => nomatch h) rfl, fun _ => hno⟩
  | admitted | running =>
    exact .inl ⟨rfl, h.elsewhere (fun h => nomatch h) rfl, fun h => nomatch h⟩
  | missing hnone =>
    have hstored := he.stored e.next h.above (UInt32.le_trans hs h.within)
    rw [hn] at hnone
    rw [Option.map_eq_none_iff.mp hnone] at hstored
    cases hstored
  | found hfound =>
    refine .inl ⟨rfl, ⟨h.above, h.within, h.near, (fun h => nomatch h), ?_⟩, fun h => nomatch h⟩
    intro raw hraw
    cases hraw
    exact hn ▸ hfound
  | ready =>
    exact .inl ⟨rfl, ⟨h.above, h.within, h.near, (fun h => nomatch h), h.held⟩,
      fun h => nomatch h⟩
  | @last link raw heq =>
    obtain ⟨hblock, hnum⟩ := h.block_of_held hg hs.1 rfl
    exact .inr ⟨raw, rfl, hblock, hnum, hmax.elsewhere (fun h => nomatch h) rfl, fun _ => heq⟩
  | @more link raw =>
    obtain ⟨hblock, hnum⟩ := h.block_of_held hg hs.1 rfl
    exact .inr ⟨raw, rfl, hblock, hnum, ⟨hmax.above, hmax.within, hmax.near,
      (fun _ => Nat.le_max_right _ _), fun _ h => nomatch h⟩, fun h => nomatch h⟩

end Errand.Due

structure Hosting (a b : Memory) (top : Nat) (x : Party Memory) (o : Outlook) : Prop where
  chain : x.node.chain = b
  ahead : ∀ e ∈ o.ahead, e.Still
  words : ∀ m ∈ letters o.ahead, Word b m
  errands : ∀ e p, (e, p) ∈ o.errands ++ begun o.ahead → e.Due a b top p

section

variable {x y : Party Memory} {o o' : Outlook} {es : List Event}

theorem Hosting.receive (h : Hosting a b top x o) (es : List Event) :
    Hosting a b top (x.receive es) o := by
  obtain ⟨hchain, hahead, hwords, herrands⟩ := h
  rw [← x.receive_node es] at hchain
  exact ⟨hchain, hahead, hwords, herrands⟩

theorem front_quiet {ms : List Message} (h : ∀ m ∈ ms, Word b m) (top : Nat) : front top ms = top :=
  front_of_quiet (fun m hm => (h m hm).number_eq) top

theorem Answers.hosting {n n' : Node Memory} (hk : Ask a b top k) (h : Answers b n k n' es) :
    (∀ e ∈ es, e.Still) ∧ (∀ m ∈ letters es, Word b m) ∧
      ∀ e p, (e, p) ∈ begun es → e.Due a b top p := by
  cases h with
  | stops =>
    unfold Node.turns
    split
    · have ht : Talk (Word b) [] := .nil
      exact ⟨ht.still, ht.of_mem_letters, fun _ _ h => absurd h List.not_mem_nil⟩
    · refine ⟨List.forall_mem_singleton.mpr fun _ _ _ h => (nomatch h), ?_, ?_⟩
      · exact fun _ h => absurd h List.not_mem_nil
      · exact fun _ _ h => absurd h List.not_mem_nil
  | @serves range hr =>
    refine ⟨?_, fun _ h => absurd h List.not_mem_nil, fun e p hep => ?_⟩
    · exact List.forall_mem_cons.mpr ⟨(fun _ _ _ h => nomatch h),
        List.forall_mem_singleton.mpr fun _ _ _ h => (nomatch h)⟩
    · cases List.mem_singleton.mp hep
      cases hk with
      | reset => cases hr
      | range hlow hnear hlast =>
        exact ⟨hlow, hlast, hnear, (fun h => nomatch h), fun _ h => nomatch h⟩
  | talks _ _ ht =>
    refine ⟨ht.still, ht.of_mem_letters, fun e p hep => ?_⟩
    rw [ht.begun_eq] at hep
    cases hep

theorem forall_due_of_replaced {before after rest : List (Errand × Place)} {u v : Errand × Place}
    {top' : Nat} (h : ∀ e p, (e, p) ∈ (before ++ u :: after) ++ rest → e.Due a b top p)
    (hv : v.1.Due a b top' v.2) (hle : top ≤ top') :
    ∀ e p, (e, p) ∈ (before ++ v :: after) ++ rest → e.Due a b top' p := by
  intro e p hep
  rw [List.append_assoc] at h hep
  obtain rfl | hep := eq_or_mem_of_replaced hep
  · exact hv
  · exact (h e p hep).mono hle

theorem Hosting.take {n n' : Node Memory} {work : Nat} {y : Party Memory}
    (h : Hosting a b top x o) (hy : y.node = x.node) (hk : Ask a b top k)
    (hans : Answers b n k n' es) :
    Hosting a b top y { o with after := n', ahead := es, work } := by
  obtain ⟨hstill, hwords, hdue⟩ := hans.hosting hk
  refine ⟨hy ▸ h.chain, hstill, hwords, fun e p hep => ?_⟩
  rcases List.mem_append.mp hep with hep | hep
  · exact h.errands e p (List.mem_append_left _ hep)
  · exact hdue e p hep

theorem Hosting.proceed {n : Node Memory} {loop : Loop}
    {responders : List (Action (Option Activity))} {e : Event} {rest : List Event} {work : Nat}
    (h : Hosting a b top x o) (ha : o.ahead = e :: rest)
    (hv : n.view = x.node.view.apply Memory.engine e) :
    (∀ m ∈ letters [e], Word b m) ∧
      Hosting a b top { x with node := n, loop, responders }
        { o with ahead := rest, work, errands := o.errands ++ begun [e] } := by
  have hall : o.ahead = [e] ++ rest := ha
  have hchain : n.chain = x.node.chain := by
    refine (congrArg View.chain hv).trans (View.chain_apply_of_still (h.ahead e ?_) _)
    rw [ha]
    exact List.mem_cons_self
  refine ⟨fun m hm => h.words m ?_, hchain.trans h.chain, fun e' he' => h.ahead e' ?_,
    fun m hm => h.words m ?_, fun e' p hep => h.errands e' p ?_⟩
  · rw [hall, letters_append]
    exact List.mem_append_left _ hm
  · rw [ha]
    exact List.mem_cons_of_mem _ he'
  · rw [hall, letters_append]
    exact List.mem_append_right _ hm
  · rw [hall, begun, List.filterMap_append, ← List.append_assoc]
    exact hep

/-- A move of the party with the longer chain leaves the chain as it is, and what it sends runs
ahead by no more than one. -/
theorem Hosting.change (hx : Orderly (fun _ => True) x o) (he : a.Extends b)
    (hg : b.Genuine fun _ => True) (h : Hosting a b top x o) (hasks : ∀ m ∈ mail x, Ask a b top m)
    (hc : Change (fun _ => True) x o es y o') :
    (∀ m ∈ letters es, Word b m ∨ Block a b m) ∧ Leads top (letters es) ∧
      Hosting a b (front top (letters es)) y o' := by
  have hnone : ∀ m ∈ letters [], Word b m ∨ Block a b m := fun _ h => absurd h List.not_mem_nil
  have hall := h.errands
  cases hc with
  | @take f rest m n ahead work hi hm hh ha hn hw hreact =>
    have hk := hasks m (by rw [mail_cons hi hm]; exact List.mem_cons_self)
    have hhost : Hosting a b top
        { x with inbox := rest, loop := .busy (handleFrame x.settings f) }
        { o with after := n, ahead, work } := h.take rfl hk (answers h.chain hk hreact)
    exact ⟨hnone, trivial, hhost⟩
  | pass hv =>
    exact ⟨hnone, trivial, (congrArg View.chain hv).trans h.chain, h.ahead, h.words, hall⟩
  | proceed ha hv =>
    obtain ⟨hwords, hhost⟩ := h.proceed ha hv
    refine ⟨fun m hm => .inl (hwords m hm), leads_of_quiet fun m hm => (hwords m hm).number_eq, ?_⟩
    rw [front_quiet hwords]
    exact hhost
  | finish ha => exact ⟨hnone, trivial, h.chain, h.ahead, h.words, hall⟩
  | @respond before e p after es q responders heq hgo =>
    have hmem : (e, p) ∈ o.errands := heq ▸ List.mem_append_cons_self
    have hdue := hall e p (List.mem_append_left _ hmem)
    rw [heq] at hall
    obtain ⟨rfl, hq, -⟩ | ⟨raw, rfl, hblock, hnum, hq, -⟩ :=
      hdue.goes he hg h.chain (hx.errands e p hmem) hgo
    · exact ⟨hnone, trivial, h.chain, h.ahead, h.words,
        forall_due_of_replaced (v := (e, q)) hall hq (Nat.le_refl _)⟩
    · have hfront : front top [.signedBlock raw] = max top e.next.toNat := by rw [← hnum]; rfl
      rw [letters_said (hblock.honest hg) [], letters, List.filterMap_nil, hfront]
      exact ⟨List.forall_mem_singleton.mpr (.inr hblock), ⟨hnum ▸ hdue.near, trivial⟩, h.chain,
        h.ahead, h.words, forall_due_of_replaced (v := (e, q)) hall hq (Nat.le_max_left _ _)⟩
  | @retire before e after responders heq =>
    refine ⟨hnone, trivial, h.chain, h.ahead, h.words, fun e' p' hep => hall e' p' ?_⟩
    rw [List.append_assoc] at hep
    rw [heq, List.append_assoc]
    exact mem_of_removed hep
  | @renew before e after responders heq =>
    have hmem : (e, Place.onward) ∈ o.errands := heq ▸ List.mem_append_cons_self
    have hdue := hall e .onward (List.mem_append_left _ hmem)
    rw [heq] at hall
    exact ⟨hnone, trivial, h.chain, h.ahead, h.words,
      forall_due_of_replaced (v := (e.advanced, .begun)) hall
        (hdue.advanced (hx.errands e .onward hmem)) (Nat.le_refl _)⟩

/-- Whether a responder is at work, or about to be, that sends blocks up to one. -/
inductive Serving (s : Standing) (o : Outlook) (last : UInt32) : Prop
  | starting {t e} : o.ahead = [.turned t, .spawned (Errand.activity e)] → e.Current t →
      e.last = last → Serving s o last
  | started {e} : o.ahead = [.spawned (Errand.activity e)] → e.Current s → e.last = last →
      Serving s o last
  | running {e p} : (e, p) ∈ o.errands → p ≠ .ended → e.Current s → e.last = last →
      (∀ t, .turned t ∉ o.ahead) → Serving s o last

/-- Why a block will arrive: the latest range goes up to it, or no range is left to be taken and
the block was sent or is served. -/
inductive Supplied (ranges : List BlockRange) (top : Nat) (s : Standing) (o : Outlook)
    (last : UInt32) : Prop
  | requested : Requested ranges last → Supplied ranges top s o last
  | sent : ranges = [] → last.toNat ≤ top → Supplied ranges top s o last
  | served : ranges = [] → Serving s o last → Supplied ranges top s o last

variable {last : UInt32} {s : Standing} {ranges : List BlockRange}

theorem Supplied.imp {top' : Nat} {s' : Standing} (hle : top ≤ top')
    (hs : Serving s o last → last.toNat ≤ top' ∨ Serving s' o' last)
    (h : Supplied ranges top s o last) : Supplied ranges top' s' o' last := by
  cases h with
  | requested hr => exact .requested hr
  | sent hr htop => exact .sent hr (Nat.le_trans htop hle)
  | served hr h =>
    obtain htop | h := hs h
    · exact .sent hr htop
    · exact .served hr h

theorem Supplied.of_cons {range : BlockRange} (h : Supplied (range :: ranges) top s o last) :
    Requested ranges last ∨ ranges = [] ∧ range.isReset = false ∧ range.last = last := by
  cases h with
  | sent hr => cases hr
  | served hr => cases hr
  | requested hr =>
    obtain ⟨latest, hlatest, hreset, hlast⟩ := hr
    cases ranges with
    | nil =>
      cases hlatest
      exact .inr ⟨rfl, hreset, hlast⟩
    | cons next rest =>
      rw [List.getLast?_cons_cons] at hlatest
      exact .inl ⟨latest, hlatest, hreset, hlast⟩

theorem Supplied.take {n n' : Node Memory} {ms : List Message} {work : Nat} (hn : n.view.Open)
    (ha : o.ahead = []) (hk : Answers b n k n' es)
    (h : Supplied (requests (k :: ms)) top n.session.standing o last) :
    Supplied (requests ms) top n.session.standing { o with after := n', ahead := es, work }
      last := by
  cases hk with
  | talks hother _ ht =>
    rw [requests_cons_of_ne hother] at h
    cases h with
    | requested hr => exact .requested hr
    | sent hr htop => exact .sent hr htop
    | served hr hs =>
      cases hs with
      | starting h => exact absurd (ha.symm.trans h) (fun h => nomatch h)
      | started h => exact absurd (ha.symm.trans h) (fun h => nomatch h)
      | running hmem hp hc hl =>
        refine .served hr (.running hmem hp hc hl fun t ht' => ?_)
        obtain ⟨m, hm, -⟩ := ht _ ht'
        cases hm
  | @stops range hr =>
    obtain hlater | ⟨-, hno, -⟩ := h.of_cons
    · exact .requested hlater
    · cases hr.symm.trans hno
  | @serves range =>
    obtain hlater | ⟨hnone, -, hlast⟩ := h.of_cons
    · exact .requested hlater
    · refine .served hnone (.starting (e := ⟨range.first, range.last, _, _⟩) rfl ?_ hlast)
      exact ⟨rfl, hn.cut, rfl⟩

theorem Serving.proceed {e : Event} {rest : List Event} {work : Nat} {v : View Memory}
    (ha : o.ahead = e :: rest) (h : Serving v.standing o last) :
    Serving (v.apply Memory.engine e).standing
      { o with ahead := rest, work, errands := o.errands ++ begun [e] } last := by
  cases h with
  | starting h hc hl =>
    cases ha.symm.trans h
    exact .started rfl hc hl
  | @started e' h hc hl =>
    cases ha.symm.trans h
    exact .running (e := e') (p := .begun) (List.mem_append_cons_self)
      (fun h => nomatch h) hc hl fun _ h => absurd h List.not_mem_nil
  | running hmem hp hc hl hturned =>
    rw [ha] at hturned
    have hstanding : (v.apply Memory.engine e).standing = v.standing := by
      cases e with
      | turned t => exact absurd List.mem_cons_self (hturned t)
      | took | wrote | pushed | spawned | announced | parted | stopped => rfl
    rw [hstanding]
    exact .running (List.mem_append_left _ hmem) hp hc hl fun t ht =>
      hturned t (List.mem_cons_of_mem _ ht)

theorem Serving.resumed {Q : Prop} (h : Serving s o last) (ha : o'.ahead = o.ahead)
    (hl : ∀ e p, (e, p) ∈ o.errands → p ≠ .ended → e.Current s → e.last = last →
      Q ∨ ∃ e' p', (e', p') ∈ o'.errands ∧ p' ≠ .ended ∧ e'.Current s ∧ e'.last = last) :
    Q ∨ Serving s o' last := by
  cases h with
  | starting h hc hlast => exact .inr (.starting (ha.trans h) hc hlast)
  | started h hc hlast => exact .inr (.started (ha.trans h) hc hlast)
  | @running e p hmem hp hc hlast hturned =>
    refine (hl e p hmem hp hc hlast).imp_right fun ⟨e', p', hmem, hp, hc, hlast⟩ => ?_
    exact .running hmem hp hc hlast (ha ▸ hturned)

theorem Supplied.change (hx : Orderly (fun _ => True) x o) (he : a.Extends b)
    (hg : b.Genuine fun _ => True) (hh : Hosting a b top x o)
    (hasks : ∀ m ∈ mail x, Ask a b top m) (hc : Change (fun _ => True) x o es y o')
    {later : List Message}
    (h : Supplied (requests (mail x ++ later)) top x.node.session.standing o last) :
    Supplied (requests (mail y ++ later)) (front top (letters es)) y.node.session.standing o'
      last := by
  cases hc with
  | @take f rest m n ahead work hi hm hh' ha hn hw hreact =>
    have hmail := mail_cons hi hm
    have hk := hasks m (by rw [hmail]; exact List.mem_cons_self)
    rw [hmail, List.cons_append] at h
    exact h.take hx.opened ha (answers hh.chain hk hreact)
  | @pass n loop responders work hv =>
    have hs : n.session.standing = x.node.session.standing := congrArg View.standing hv
    change Supplied _ top n.session.standing _ _
    rw [hs]
    refine h.imp (Nat.le_refl _) fun hserving => ?_
    exact hserving.resumed rfl fun e p hmem hp hc hl => .inr ⟨e, p, hmem, hp, hc, hl⟩
  | @proceed n loop responders e rest work ha hv =>
    have hs : n.session.standing = (x.node.view.apply Memory.engine e).standing :=
      congrArg View.standing hv
    change Supplied _ _ n.session.standing _ _
    rw [hs]
    exact h.imp (le_front _ _) fun hserving => .inr (hserving.proceed (v := x.node.view) ha)
  | finish =>
    refine h.imp (Nat.le_refl _) fun hserving => ?_
    exact hserving.resumed rfl fun e p hmem hp hc hl => .inr ⟨e, p, hmem, hp, hc, hl⟩
  | @respond before e p after es q responders heq hgo =>
    have hmem : (e, p) ∈ o.errands := heq ▸ List.mem_append_cons_self
    have hdue := hh.errands e p (List.mem_append_left _ hmem)
    have hend := hdue.goes he hg hh.chain (hx.errands e p hmem) hgo
    refine h.imp (le_front _ _) fun hserving => ?_
    refine hserving.resumed rfl fun e' p' hmem' hp' hc hl => ?_
    rw [heq] at hmem'
    obtain heq' | hmem' := eq_or_mem_of_replaced (u := (e, q)) hmem'
    · cases heq'
      -- A responder that may go on is over only after the last block of its range.
      by_cases hq : q = .ended
      · obtain ⟨-, -, hno⟩ | ⟨raw, rfl, hblock, hnum, -, hover⟩ := hend
        · exact absurd hc (hno hq)
        · left
          rw [letters_said (hblock.honest hg) [], ← hl, ← hover hq, ← hnum]
          exact Nat.le_max_right _ _
      · exact .inr ⟨e, q, List.mem_append_cons_self, hq, hc, hl⟩
    · exact .inr ⟨e', p', hmem', hp', hc, hl⟩
  | @retire before e after responders heq =>
    refine h.imp (Nat.le_refl _) fun hserving => ?_
    refine hserving.resumed rfl fun e' p' hmem hp hc hl => ?_
    rw [heq] at hmem
    rcases List.mem_append.mp hmem with hmem | hmem
    · exact .inr ⟨e', p', List.mem_append_left _ hmem, hp, hc, hl⟩
    rcases List.mem_cons.mp hmem with hmem | hmem
    · cases hmem
      exact absurd rfl hp
    · exact .inr ⟨e', p', List.mem_append_right _ hmem, hp, hc, hl⟩
  | @renew before e after responders heq =>
    refine h.imp (Nat.le_refl _) fun hserving => ?_
    refine hserving.resumed rfl fun e' p' hmem hp hc hl => ?_
    rw [heq] at hmem
    obtain heq' | hmem := eq_or_mem_of_replaced (u := (e.advanced, .begun)) hmem
    · cases heq'
      exact .inr ⟨e.advanced, .begun, List.mem_append_cons_self,
        (fun h => nomatch h), hc, hl⟩
    · exact .inr ⟨e', p', hmem, hp, hc, hl⟩

end

end BlockSync.Session

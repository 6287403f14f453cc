import BlockSync.Proofs.Session.Reaction
import BlockSync.Proofs.Session.Responder
import BlockSync.Proofs.Wire.MessageRoundTrip

/-! A party whose peer is honest, at any moment between two operations. What its loop will come to
is known as soon as a frame was taken, since responders leave the node as it is: the outlook says
what is still to be seen of the loop, and where each responder stands. One relation says what a
move can do, and the outlook goes along. -/

namespace BlockSync

def Frame.message? (f : Frame) : Option Message := (Message.ofPayload f.tag f.payload).toOption

theorem Frame.ofPayload_of_message? {f : Frame} {m : Message} (h : f.message? = some m) :
    Message.ofPayload f.tag f.payload = .ok m := by
  unfold message? at h
  cases hp : Message.ofPayload f.tag f.payload with
  | ok m' =>
    rw [hp] at h
    cases h
    rfl
  | error fault =>
    rw [hp] at h
    cases h

theorem Message.ofWritten_frame (m : Message) :
    Frame.ofWritten m.frame = ⟨m.kind.tag, m.payload⟩ := by
  rw [frame, Wire.write_uint8]
  rfl

theorem Message.message?_ofWritten {m : Message} (h : m.Fits) :
    (Frame.ofWritten m.frame).message? = some m := by
  rw [m.ofWritten_frame, Frame.message?, Message.ofPayload_payload h]
  rfl

end BlockSync

namespace BlockSync.Session

open BlockSync.Chain (Benign Engine Memory)

def Admits (P : Header → Prop) (raw : Bytes) : Prop :=
  ∃ header, Header.ofBlock raw = .ok header ∧ P header

structure Honest (P : Header → Prop) (m : Message) : Prop where
  fits : m.Fits
  civil : Civil m
  lib_le : ∀ h, m = .handshake h → h.libNum ≤ h.headNum
  block : ∀ raw, m = .signedBlock raw → Admits P raw

def Event.message? : Event → Option Message
  | .wrote bytes => (Frame.ofWritten bytes).message?
  | _ => none

def Mannered (P : Header → Prop) : Event → Prop
  | .wrote bytes => ∃ m, bytes = m.frame ∧ Honest P m
  | .pushed raw _ _ => Admits P raw
  | .spawned a => ∃ e : Errand, a = e.activity ∧ e.next ≤ e.last
  | .turned s => s.closed = false ∧ s.cut = false ∧ ∃ link, s.writer = some link
  | .took _ => True
  | .announced _ | .parted | .stopped => False

inductive RunsFor {σ α : Type} (E : Engine σ) :
    Action α → Node σ → α → Node σ → List Event → Nat → Prop
  | done (a n) : RunsFor E (.done a) n a n [] 0
  | ask {op next n r n' es a n'' es' k} : Node.perform E n op = some (r, n', es) →
      RunsFor E (next r) n' a n'' es' k → RunsFor E (.ask op next) n a n'' (es ++ es') (k + 1)

theorem Runs.exists_length {σ α : Type} {E : Engine σ} {p : Action α} {n n' : Node σ} {a : α}
    {es : List Event} (h : Runs E p n a n' es) : ∃ k, RunsFor E p n a n' es k := by
  induction h with
  | done a n => exact ⟨0, .done a n⟩
  | ask ho _ ih =>
    obtain ⟨k, hk⟩ := ih
    exact ⟨k + 1, .ask ho hk⟩

/-- What a loop comes to: the node after it, the events on the way, and the work until then. -/
inductive Loop.Foresees {σ : Type} (E : Engine σ) :
    Loop → Node σ → Node σ → List Event → Nat → Prop
  | idle (n) : Foresees E .idle n n [] 0
  | busy {p n n' es k} : RunsFor E p n true n' es k → Foresees E (.busy p) n n' es (k + 1)

theorem Loop.Foresees.of_idle {σ : Type} {E : Engine σ} {loop : Loop} {n n' : Node σ}
    {es : List Event} {k : Nat} (h : loop.Foresees E n n' es k) (hl : loop = .idle) :
    n' = n ∧ es = [] ∧ k = 0 := by
  subst hl
  cases h
  exact ⟨rfl, rfl, rfl⟩

theorem Loop.Foresees.of_busy {σ : Type} {E : Engine σ} {loop : Loop} {n n' : Node σ}
    {es : List Event} {k : Nat} {p : Action Bool} (h : loop.Foresees E n n' es k)
    (hl : loop = .busy p) : ∃ k', k = k' + 1 ∧ RunsFor E p n true n' es k' := by
  subst hl
  cases h with
  | busy hrun => exact ⟨_, rfl, hrun⟩

structure Outlook where
  after : Node Memory
  ahead : List Event
  work : Nat
  errands : List (Errand × Place)

def resume (settings : Settings) : Errand × Place → Action (Option Activity)
  | (e, p) => e.program settings p

def begun (es : List Event) : List (Errand × Place) :=
  es.filterMap fun
    | .spawned (.respond next last transport responder) =>
      some (⟨next, last, transport, responder⟩, .begun)
    | _ => none

/-- Whether there is something left to send, and whether what is in hand can be sent. -/
def Errand.Sound (P : Header → Prop) (e : Errand) : Place → Prop
  | .holding raw | .writing _ raw => e.next ≤ e.last ∧ Admits P raw
  | .onward => e.next < e.last
  | .ended => True
  | .begun | .allowed | .fetching => e.next ≤ e.last

/-- A party with an honest peer, and its outlook. -/
structure Orderly (P : Header → Prop) (x : Party Memory) (o : Outlook) : Prop where
  loop : x.loop.Foresees Memory.engine x.node o.after o.ahead o.work
  responders : x.responders = o.errands.map (resume x.settings)
  opened : x.node.view.Open
  genuine : x.node.chain.Genuine P
  inbox : ∀ f ∈ x.inbox, ∃ m, f.message? = some m ∧ Honest P m
  ahead : ∀ e ∈ o.ahead, Mannered P e
  errands : ∀ e p, (e, p) ∈ o.errands → e.Sound P p
  address : Short x.settings.p2pAddress
  agent : Short x.settings.agent

inductive Change (P : Header → Prop) (x : Party Memory) (o : Outlook) :
    List Event → Party Memory → Outlook → Prop
  | take {f rest m n ahead work} : x.inbox = f :: rest → f.message? = some m → Honest P m →
      o.ahead = [] → o.after = x.node → o.work = 0 →
      Reaction Memory.engine x.settings x.node m n ahead →
      Change P x o [.took f] { x with inbox := rest, loop := .busy (handleFrame x.settings f) }
        { o with after := n, ahead, work }
  | pass {n loop responders work} : n.view = x.node.view → o.work = work + 1 →
      Change P x o [] { x with node := n, loop, responders } { o with work }
  | proceed {n loop responders e rest work} : o.ahead = e :: rest →
      n.view = x.node.view.apply Memory.engine e →
      (∀ raw wantStatistics result, e = .pushed raw wantStatistics result →
        result = (x.node.chain.push raw wantStatistics).2) → o.work = work + 1 →
      Change P x o [e] { x with node := n, loop, responders }
        { o with ahead := rest, work, errands := o.errands ++ begun [e] }
  | finish : o.ahead = [] → o.after = x.node → o.work = 1 →
      Change P x o [] { x with loop := .idle } { o with work := 0 }
  | respond {before e p after es q responders} : o.errands = before ++ (e, p) :: after →
      e.Goes Memory.engine x.node p es q →
      Change P x o es { x with responders } { o with errands := before ++ (e, q) :: after }
  | retire {before e after responders} : o.errands = before ++ (e, .ended) :: after →
      Change P x o [] { x with responders } { o with errands := before ++ after }
  | renew {before e after responders} : o.errands = before ++ (e, .onward) :: after →
      Change P x o [] { x with responders }
        { o with errands := before ++ (e.advanced, .begun) :: after }

variable {P : Header → Prop}

section

variable {settings : Settings} {n : Node Memory}

theorem mannered_said {m : Message} (h : Honest P m) : Mannered P (.said m) := ⟨m, rfl, h⟩

theorem honest_syncRequest (range : BlockRange) : Honest P (.syncRequest range) :=
  ⟨trivial, trivial, (fun _ h => nomatch h), fun _ h => nomatch h⟩

theorem honest_catchUp (anchor : Checksum) : Honest P (.request (.catchUp anchor)) :=
  ⟨⟨(by decide : 0 < UInt32.size), (by decide : 1 < UInt32.size)⟩, trivial,
    (fun _ h => nomatch h), fun _ h => nomatch h⟩

theorem honest_handshake (hp : Short settings.p2pAddress) (ha : Short settings.agent)
    (n : Node Memory) : Honest P (.handshake (n.handshake Memory.engine settings)) where
  fits := ⟨hp, (by decide +kernel : Short hostOs), ha⟩
  civil := trivial
  lib_le h he := by
    cases he
    exact n.chain.libNum_le
  block _ h := nomatch h

theorem honest_signedBlock {raw : Bytes} (h : Admits P raw) : Honest P (.signedBlock raw) where
  fits := trivial
  civil := let ⟨header, hd, _⟩ := h; ⟨header, hd⟩
  lib_le _ h := nomatch h
  block _ he := by
    cases he
    exact h

theorem honest_irreversibleNotice (n : Node Memory) :
    Honest P (.notice (n.irreversibleNotice Memory.engine)) :=
  ⟨⟨(by decide : 0 < UInt32.size), (by decide : 1 < UInt32.size)⟩, (fun h => nomatch h),
    (fun _ h => nomatch h), fun _ h => nomatch h⟩

theorem honest_catchUpNotice (n : Node Memory) :
    Honest P (.notice (n.catchUpNotice Memory.engine)) :=
  ⟨⟨(by decide : 0 < UInt32.size), (by decide : 2 < UInt32.size)⟩,
    fun _ => List.cons_ne_nil _ _, (fun _ h => nomatch h), fun _ h => nomatch h⟩

theorem mannered_restart (anchor : Checksum) :
    ∀ e ∈ [Event.said (.syncRequest .reset), .said (.request (.catchUp anchor))], Mannered P e := by
  refine List.forall_mem_cons.mpr ⟨?_, List.forall_mem_singleton.mpr ?_⟩
  · exact mannered_said (honest_syncRequest _)
  · exact mannered_said (honest_catchUp anchor)

variable {es : List Event} {n' : Node Memory}

theorem mannered_of_sought (hp : Short settings.p2pAddress) (ha : Short settings.agent)
    (h : Sought Memory.engine settings n n' es) : ∀ e ∈ es, Mannered P e := by
  cases h with
  | unknown => exact fun _ he => absurd he List.not_mem_nil
  | range _ r => exact List.forall_mem_singleton.mpr (mannered_said (honest_syncRequest r))
  | nothing =>
    exact List.forall_mem_singleton.mpr (mannered_said (honest_handshake hp ha _))

theorem mannered_of_greeted {num : UInt32} (hp : Short settings.p2pAddress)
    (ha : Short settings.agent) (h : Greeted Memory.engine settings num n n' es) :
    ∀ e ∈ es, Mannered P e := by
  cases h with
  | yes => exact List.forall_mem_singleton.mpr (mannered_said (honest_handshake hp ha _))
  | no => exact fun _ he => absurd he List.not_mem_nil

theorem mannered_of_followed {num : UInt32} (hp : Short settings.p2pAddress)
    (ha : Short settings.agent) (h : Followed Memory.engine settings num n n' es) :
    ∀ e ∈ es, Mannered P e := by
  cases h with
  | within => exact fun _ he => absurd he List.not_mem_nil
  | next _ _ hs => exact mannered_of_sought hp ha hs
  | settled =>
    refine List.forall_mem_cons.mpr ⟨?_, List.forall_mem_singleton.mpr ?_⟩
    · exact mannered_said (honest_handshake hp ha _)
    · exact mannered_said (honest_catchUp _)

theorem mannered_of_reaction {m : Message} (hp : Short settings.p2pAddress)
    (ha : Short settings.agent) (hn : n.view.Open) (hm : Honest P m)
    (h : Reaction Memory.engine settings n m n' es) : ∀ e ∈ es, Mannered P e := by
  have hopen {f : Session → Session} (hc : (f n.session).closed = n.session.closed)
      (ht : (f n.session).cut = n.session.cut) (hw : (f n.session).writer = n.session.writer) :
      Mannered P (.turned (f n.session).standing) := by
    obtain ⟨link, hl⟩ := hn.writer
    exact ⟨hc.trans hn.closed, ht.trans hn.cut, link, hw.trans hl⟩
  cases h with
  | behind _ hs => exact mannered_of_sought hp ha hs
  | content | unmoved | asked | repeated => exact fun _ he => absurd he List.not_mem_nil
  | below | pointed => exact List.forall_mem_singleton.mpr (mannered_said (honest_catchUp _))
  | farAbove =>
    exact List.forall_mem_singleton.mpr (mannered_said (honest_irreversibleNotice n))
  | above => exact List.forall_mem_singleton.mpr (mannered_said (honest_catchUpNotice n))
  | invited range =>
    refine List.forall_mem_cons.mpr ⟨?_, List.forall_mem_singleton.mpr ?_⟩
    · exact mannered_said (honest_syncRequest _)
    · exact mannered_said (honest_syncRequest range)
  | stops =>
    unfold Node.turns
    split
    · exact fun _ he => absurd he List.not_mem_nil
    · exact List.forall_mem_singleton.mpr (hopen rfl rfl rfl)
  | @serves range hr =>
    refine List.forall_mem_cons.mpr ⟨?_, List.forall_mem_singleton.mpr ?_⟩
    · exact hopen (f := startResponder) rfl rfl rfl
    · exact ⟨⟨_, _, _, _⟩, rfl, range.first_le_last⟩
  | gap => exact mannered_restart _
  | unlinked => exact List.forall_mem_cons.mpr ⟨hm.block _ rfl, mannered_restart _⟩
  | known => exact List.forall_mem_singleton.mpr (hm.block _ rfl)
  | accepted _ _ _ _ _ _ _ hg hf =>
    refine List.forall_mem_cons.mpr ⟨hm.block _ rfl, fun e he => ?_⟩
    rcases List.mem_append.mp he with he | he
    · exact mannered_of_greeted hp ha hg e he
    · exact mannered_of_followed hp ha hf e he

end

theorem open_applyAll {v : View Memory} {es : List Event} (hv : v.Open)
    (h : ∀ e ∈ es, Mannered P e) : (v.applyAll Memory.engine es).Open := by
  induction es generalizing v with
  | nil => exact hv
  | cons e es ih =>
    obtain ⟨he, hes⟩ := List.forall_mem_cons.mp h
    refine ih ?_ hes
    cases e with
    | turned s => exact ⟨he.1, he.2.1, he.2.2, hv.linked, hv.stopping⟩
    | took | wrote | pushed | spawned =>
      exact ⟨hv.closed, hv.cut, hv.writer, hv.linked, hv.stopping⟩
    | announced | parted | stopped => exact he.elim

theorem genuine_applyAll {v : View Memory} {es : List Event} (hv : v.chain.Genuine P)
    (h : ∀ e ∈ es, Mannered P e) : (v.applyAll Memory.engine es).chain.Genuine P := by
  induction es generalizing v with
  | nil => exact hv
  | cons e es ih =>
    obtain ⟨he, hes⟩ := List.forall_mem_cons.mp h
    refine ih ?_ hes
    cases e with
    | pushed raw wantStatistics =>
      obtain ⟨header, hd, hP⟩ := he
      refine hv.push wantStatistics fun header' hd' => ?_
      cases hd.symm.trans hd'
      exact hP
    | took | wrote | spawned | turned | announced | parted | stopped => exact hv

theorem started_eq_begun (settings : Settings) {es : List Event} (h : ∀ e ∈ es, Mannered P e) :
    started settings es = (begun es).map (resume settings) := by
  induction es with
  | nil => rfl
  | cons e es ih =>
    obtain ⟨he, hes⟩ := List.forall_mem_cons.mp h
    cases e with
    | spawned a =>
      obtain ⟨e, rfl, -⟩ := he
      exact congrArg (_ :: ·) (ih hes)
    | took | wrote | pushed | turned | announced | parted | stopped => exact ih hes

theorem mem_begun {es : List Event} {e : Errand} {p : Place} (hp : (e, p) ∈ begun es) :
    p = .begun ∧ .spawned e.activity ∈ es := by
  obtain ⟨ev, hev, he⟩ := List.mem_filterMap.mp hp
  cases ev with
  | spawned a =>
    cases a with
    | respond =>
      cases he
      exact ⟨rfl, hev⟩
    | heartbeat => cases he
  | took | wrote | pushed | turned | announced | parted | stopped => cases he

theorem forall_mem_begun {es : List Event} (h : ∀ e ∈ es, Mannered P e) :
    ∀ e p, (e, p) ∈ begun es → e.Sound P p := by
  intro e p hp
  obtain ⟨rfl, he⟩ := mem_begun hp
  obtain ⟨⟨⟩, ha, hle⟩ := h _ he
  cases e
  cases ha
  exact hle

theorem Errand.advanced_le {e : Errand} (h : e.next < e.last) :
    e.advanced.next ≤ e.advanced.last := by
  have hlast := e.last.toNat_lt
  rw [UInt32.lt_iff_toNat_lt] at h
  change e.next + 1 ≤ e.last
  rw [UInt32.le_iff_toNat_le, UInt32.toNat_add, UInt32.toNat_one]
  omega

section

variable {n : Node Memory} {e : Errand} {p q : Place} {es : List Event}

theorem started_of_goes {settings : Settings} (h : e.Goes Memory.engine n p es q) :
    started settings es = [] := by
  cases h <;> rfl

theorem mannered_of_goes (hs : e.Sound P p) (h : e.Goes Memory.engine n p es q) :
    ∀ ev ∈ es, Mannered P ev := by
  cases h with
  | last | more =>
    exact List.forall_mem_singleton.mpr (mannered_said (honest_signedBlock hs.2))
  | dismissed | admitted | running | missing | found | ready =>
    exact fun _ he => absurd he List.not_mem_nil

theorem sound_of_goes (hg : n.chain.Genuine P) (hs : e.Sound P p)
    (h : e.Goes Memory.engine n p es q) : e.Sound P q := by
  cases h with
  | dismissed | missing | last => trivial
  | admitted | running => exact hs
  | @found raw hb =>
    obtain ⟨b, hget, rfl⟩ := Option.map_eq_some_iff.mp hb
    obtain ⟨header, hd, -, -, hP⟩ := hg b (Chain.Store.mem_of_get? hget).1
    exact ⟨hs, header, hd, hP⟩
  | ready => exact hs
  | more hne =>
    refine UInt32.lt_iff_toNat_lt.mpr (Nat.lt_of_le_of_ne (UInt32.le_iff_toNat_le.mp hs.1) ?_)
    exact fun h => hne (UInt32.toNat_inj.mp h)

end

theorem RunsFor.of_ask {σ α : Type} {E : Engine σ} {op : Op} {next : interface.Answer op → Action α}
    {n n' n'' : Node σ} {a : α} {r : interface.Answer op} {es es₁ : List Event} {k : Nat}
    (h : RunsFor E (.ask op next) n a n'' es k) (ho : n.perform E op = some (r, n', es₁)) :
    ∃ es₂ k', es = es₁ ++ es₂ ∧ k = k' + 1 ∧ RunsFor E (next r) n' a n'' es₂ k' := by
  cases h with
  | ask ho' hr =>
    rw [ho, Option.some.injEq, Prod.mk.injEq, Prod.mk.injEq] at ho'
    obtain ⟨rfl, rfl, rfl⟩ := ho'
    exact ⟨_, _, rfl, rfl, hr⟩

theorem RunsFor.exists_perform {σ α : Type} {E : Engine σ} {op : Op}
    {next : interface.Answer op → Action α} {n n' : Node σ} {a : α} {es : List Event} {k : Nat}
    (h : RunsFor E (.ask op next) n a n' es k) : ∃ r m es₁, n.perform E op = some (r, m, es₁) := by
  cases h with
  | ask ho _ => exact ⟨_, _, _, ho⟩

theorem RunsFor.of_done {σ α : Type} {E : Engine σ} {n n' : Node σ} {a b : α} {es : List Event}
    {k : Nat} (h : RunsFor E (.done b) n a n' es k) : b = a ∧ n' = n ∧ es = [] ∧ k = 0 := by
  cases h with
  | done => exact ⟨rfl, rfl, rfl, rfl⟩

theorem exists_errand {settings : Settings} {errands : List (Errand × Place)}
    {before after : List (Action (Option Activity))} {r : Action (Option Activity)}
    (h : before ++ r :: after = errands.map (resume settings)) :
    ∃ before' e p after', errands = before' ++ (e, p) :: after' ∧
      before = before'.map (resume settings) ∧
      r = e.program settings p ∧
      after = after'.map (resume settings) := by
  obtain ⟨before', rest, rfl, hb, hr⟩ := List.map_eq_append_iff.mp h.symm
  obtain ⟨⟨e, p⟩, after', rfl, hp, ha⟩ := List.map_eq_cons_iff.mp hr
  exact ⟨before', e, p, after', rfl, hb.symm, hp.symm, ha.symm⟩

theorem eq_or_mem_of_replaced {α : Type} {before after : List α} {u v w : α}
    (h : w ∈ before ++ v :: after) : w = v ∨ w ∈ before ++ u :: after := by
  rcases List.mem_append.mp h with h | h
  · exact .inr (List.mem_append_left _ h)
  · exact (List.mem_cons.mp h).imp_right fun h =>
      List.mem_append_right _ (List.mem_cons_of_mem _ h)

theorem mem_of_removed {α : Type} {before after : List α} {u w : α}
    (h : w ∈ before ++ after) : w ∈ before ++ u :: after :=
  List.mem_append.mpr ((List.mem_append.mp h).imp_right (List.mem_cons_of_mem _))

variable {x y : Party Memory} {o : Outlook} {es : List Event}

theorem Orderly.take {f : Frame} {rest : List Frame} (hx : Orderly P x o) (hl : x.loop = .idle)
    (hi : x.inbox = f :: rest) :
    ∃ o', Change P x o [.took f]
        { x with inbox := rest, loop := .busy (handleFrame x.settings f) } o' ∧
      Orderly P { x with inbox := rest, loop := .busy (handleFrame x.settings f) } o' := by
  obtain ⟨hn, ha, hw⟩ := hx.loop.of_idle hl
  have hinbox := hx.inbox
  rw [hi] at hinbox
  obtain ⟨⟨m, hm, hh⟩, hrest⟩ := List.forall_mem_cons.mp hinbox
  have hb : ∀ raw, m = .signedBlock raw →
      ∀ wantStatistics, Benign (Memory.engine.push x.node.chain raw wantStatistics).2 := by
    rintro raw rfl wantStatistics
    obtain ⟨header, hd⟩ := hh.civil
    exact Memory.push_benign wantStatistics hd
  obtain ⟨n', es, hr, hreact⟩ :=
    react x.settings hx.opened (Frame.ofPayload_of_message? hm) hh.civil hb
  obtain ⟨k, hk⟩ := hr.exists_length
  refine ⟨⟨n', es, k + 1, o.errands⟩, .take hi hm hh ha hn hw hreact, ?_⟩
  exact ⟨.busy hk, hx.responders, hx.opened, hx.genuine, hrest,
    mannered_of_reaction hx.address hx.agent hx.opened hh hreact, hx.errands, hx.address, hx.agent⟩

theorem Orderly.proceed {op : Op} {next : interface.Answer op → Action Bool}
    {r : interface.Answer op} {n : Node Memory} (hx : Orderly P x o)
    (hl : x.loop = .busy (.ask op next)) (ho : x.node.perform Memory.engine op = some (r, n, es)) :
    ∃ rest k, o.ahead = es ++ rest ∧ o.work = k + 1 ∧ (∀ e ∈ es, Mannered P e) ∧
      Orderly P
        { x with
          node := n
          loop := .busy (next r)
          responders := x.responders ++ started x.settings es }
        { o with ahead := rest, work := k, errands := o.errands ++ begun es } := by
  obtain ⟨_, hw, hrun⟩ := hx.loop.of_busy hl
  obtain ⟨rest, k, ha, rfl, hrest⟩ := hrun.of_ask ho
  have hahead := hx.ahead
  rw [ha] at hahead
  obtain ⟨hes, hlater⟩ := List.forall_mem_append.mp hahead
  have hv := view_perform ho
  refine ⟨rest, k + 1, ha, hw, hes, .busy hrest, ?_, ?_, ?_, hx.inbox, hlater, fun e p hep => ?_,
    hx.address, hx.agent⟩
  · rw [List.map_append, ← started_eq_begun x.settings hes, ← hx.responders]
  · change n.view.Open
    rw [hv]
    exact open_applyAll hx.opened hes
  · change n.view.chain.Genuine P
    rw [hv]
    exact genuine_applyAll hx.genuine hes
  · rcases List.mem_append.mp hep with hep | hep
    · exact hx.errands e p hep
    · exact forall_mem_begun hes e p hep

/-- A responder that gets on leaves the node as it is, so what was foreseen of the loop holds. -/
theorem Orderly.replace {before after : List (Errand × Place)} {u v : Errand × Place}
    {responders : List (Action (Option Activity))} (hx : Orderly P x o)
    (he : o.errands = before ++ u :: after) (hs : v.1.Sound P v.2)
    (hr : responders = (before ++ v :: after).map (resume x.settings)) :
    Orderly P { x with responders } { o with errands := before ++ v :: after } := by
  obtain ⟨hloop, -, hopen, hgen, hinbox, hahead, herrands, haddr, hagent⟩ := hx
  refine ⟨hloop, hr, hopen, hgen, hinbox, hahead, fun e p hep => ?_, haddr, hagent⟩
  obtain rfl | hep := eq_or_mem_of_replaced hep
  · exact hs
  · exact herrands e p (he ▸ hep)

/-- Every move of an orderly party is one of the changes, and leaves it orderly. -/
theorem change_of_move (hx : Orderly P x o) (h : Party.Move Memory.engine x es y) :
    ∃ o', Change P x o es y o' ∧ Orderly P y o' ∧ ∀ e ∈ es, Mannered P e := by
  have hnone : ∀ e ∈ [], Mannered P e := fun _ he => absurd he List.not_mem_nil
  cases h with
  | take hl _ _ hi =>
    obtain ⟨o', hc, hy⟩ := hx.take hl hi
    exact ⟨o', hc, hy, List.forall_mem_singleton.mpr trivial⟩
  | proceed hl ho =>
    obtain ⟨rest, k, ha, hw, hes, hy⟩ := hx.proceed hl ho
    obtain rfl | ⟨e, rfl, htrue⟩ := perform_events ho
    · refine ⟨{ o with work := k }, .pass (view_perform ho) hw, ?_, hes⟩
      have he : o.errands ++ begun [] = o.errands := List.append_nil _
      rw [List.nil_append] at ha
      rw [he, ← ha] at hy
      exact hy
    · exact ⟨_, .proceed ha (view_perform ho) htrue hw, hy, hes⟩
  | finish hl =>
    obtain ⟨hloop, hresp, hopen, hgen, hinbox, hahead, herrands, haddr, hagent⟩ := hx
    obtain ⟨k, hw, hrun⟩ := hloop.of_busy hl
    obtain ⟨hb, hn, ha, hk⟩ := hrun.of_done
    subst hb hk
    refine ⟨{ o with work := 0 }, .finish ha hn hw, ?_, hnone⟩
    have hidle : Loop.idle.Foresees Memory.engine x.node o.after o.ahead 0 := by
      rw [hn, ha]
      exact .idle _
    exact ⟨hidle, hresp, hopen, hgen, hinbox, hahead, herrands, haddr, hagent⟩
  | respond hr ho =>
    obtain ⟨before, e, p, after, he, rfl, hp, rfl⟩ := exists_errand (hr.symm.trans hx.responders)
    have hs := hx.errands e p (he ▸ List.mem_append_cons_self)
    obtain ⟨rfl, q, hq, hg⟩ := Errand.goes_of_perform hx.opened hp.symm ho
    refine ⟨_, .respond he hg, hx.replace he (sound_of_goes hx.genuine hs hg) ?_,
      mannered_of_goes hs hg⟩
    rw [started_of_goes hg, List.append_nil, List.map_append, List.map_cons, hq]
    rfl
  | retire hr =>
    obtain ⟨before, e, p, after, he, rfl, hp, rfl⟩ := exists_errand (hr.symm.trans hx.responders)
    obtain ⟨rfl, -⟩ | ⟨-, h⟩ := Errand.program_eq_done hp.symm
    · obtain ⟨hloop, -, hopen, hgen, hinbox, hahead, herrands, haddr, hagent⟩ := hx
      rw [he] at herrands
      refine ⟨{ o with errands := before ++ after }, .retire he, ?_, hnone⟩
      exact ⟨hloop, List.map_append.symm, hopen, hgen, hinbox, hahead,
        fun e p hep => herrands e p (mem_of_removed hep), haddr, hagent⟩
    · cases h
  | renew hr =>
    obtain ⟨before, e, p, after, he, rfl, hp, rfl⟩ := exists_errand (hr.symm.trans hx.responders)
    obtain ⟨-, h⟩ | ⟨rfl, h⟩ := Errand.program_eq_done hp.symm
    · cases h
    cases h
    have hs := hx.errands e .onward (he ▸ List.mem_append_cons_self)
    refine ⟨_, .renew he, hx.replace he (Errand.advanced_le hs) ?_, hnone⟩
    rw [List.map_append, List.map_cons]
    rfl

/-- A party that can go no further has nothing left to do. -/
structure Party.Silent {σ : Type} (x : Party σ) : Prop where
  inbox : x.inbox = []
  unread : x.unread = []
  loop : x.loop = .idle
  responders : x.responders = []

theorem silent_of_stuck (hx : Orderly P x o)
    (hadvance : ∀ es y, ¬ Party.Advance Memory.engine x es y) : x.Silent := by
  obtain ⟨hloop, hresp, hopen, -, -, -, -, -, -⟩ := hx
  have h (es : List Event) (y : Party Memory) : ¬ Party.Move Memory.engine x es y :=
    fun hm => hadvance es y (.move hm)
  have hidle : x.loop = .idle := by
    cases hl : x.loop with
    | idle => rfl
    | busy p =>
      obtain ⟨k, -, hrun⟩ := hloop.of_busy hl
      cases p with
      | done b => exact absurd (.finish hl) (h _ _)
      | ask op next =>
        obtain ⟨r, n, es, ho⟩ := hrun.exists_perform
        exact absurd (.proceed hl ho) (h _ _)
    | ended =>
      rw [hl] at hloop
      cases hloop
  have hinbox : x.inbox = [] := by
    cases hi : x.inbox with
    | nil => rfl
    | cons f rest => exact absurd (.take hidle hopen.closed hopen.stopping hi) (h _ _)
  refine ⟨hinbox, ?_, hidle, ?_⟩
  · refine Decidable.by_contra fun hne => ?_
    exact hadvance _ _ (.breakOff hidle hopen.closed hopen.stopping hinbox (.inl hne))
  · cases he : o.errands with
    | nil =>
      rw [hresp, he]
      rfl
    | cons first rest =>
      obtain ⟨e, p⟩ := first
      have hr : x.responders = [] ++ e.program x.settings p :: rest.map (resume x.settings) := by
        rw [hresp, he]
        rfl
      by_cases hover : p = .ended
      · subst hover
        exact absurd (.retire hr) (h _ _)
      by_cases hon : p = .onward
      · subst hon
        exact absurd (.renew hr) (h _ _)
      · obtain ⟨op, f, r, n', es, hp, ho⟩ := Errand.exists_perform (E := Memory.engine)
          (n := x.node) (e := e) x.settings hon hover
        rw [hp] at hr
        exact absurd (.respond hr ho) (h _ _)

theorem Orderly.of_silent (hx : Orderly P x o) (hs : x.Silent) :
    o.after = x.node ∧ o.ahead = [] ∧ o.errands = [] := by
  obtain ⟨hn, ha, -⟩ := hx.loop.of_idle hs.loop
  exact ⟨hn, ha, List.map_eq_nil_iff.mp (hx.responders.symm.trans hs.responders)⟩

theorem Orderly.receive (hx : Orderly P x o) (h : ∀ e ∈ es, Mannered P e) :
    Orderly P (x.receive es) o := by
  obtain ⟨fs, gs, hr⟩ := x.received es
  obtain ⟨hloop, hresp, hopen, hgen, hinbox, hahead, herrands, haddr, hagent⟩ := hx
  rw [hr.eq]
  refine ⟨hloop, hresp, hopen, hgen, fun f hf => ?_, hahead, herrands, haddr, hagent⟩
  rcases List.mem_append.mp hf with hf | hf
  · exact hinbox f hf
  have hsent : f ∈ sent es := hr.sent_eq ▸ List.mem_append_left gs hf
  obtain ⟨bytes, hwrote, rfl⟩ := mem_sent.mp hsent
  obtain ⟨m, rfl, hm⟩ := h _ hwrote
  exact ⟨m, Message.message?_ofWritten hm.fits, hm⟩

/-- With the other end still there, an orderly party goes on unless it cannot read what comes next. -/
theorem Orderly.move_or_breakOff (hx : Orderly P x o) (hparted : x.parted = false)
    (h : Party.Advance Memory.engine x es y) :
    Party.Move Memory.engine x es y ∨ x.loop = .idle ∧ x.unread ≠ [] ∧ es = [] ∧
      y = { x with loop := .busy (do shut; return false) } := by
  cases h with
  | move h => exact .inl h
  | breakOff hidle _ _ _ hlost =>
    refine .inr ⟨hidle, hlost.resolve_right fun hp => ?_, rfl, rfl⟩
    exact Bool.false_ne_true (hparted.symm.trans hp)
  | leave _ hover =>
    rcases hover with hclosed | hstopping
    · exact absurd (hx.opened.closed.symm.trans hclosed) Bool.false_ne_true
    · exact absurd (hx.opened.stopping.symm.trans hstopping) Bool.false_ne_true
  | sever hp => exact absurd (hparted.symm.trans hp) Bool.false_ne_true

theorem parted_receive (x : Party Memory) (h : ∀ e ∈ es, Mannered P e) :
    (x.receive es).parted = x.parted := by
  obtain ⟨fs, gs, hr⟩ := x.received es
  have hnone : es.any Event.isParted = false := by
    rw [List.any_eq_false]
    intro e he
    have hm := h e he
    cases e with
    | parted => exact hm.elim
    | took | wrote | pushed | spawned | turned | announced | stopped => exact Bool.false_ne_true
  rw [hr.eq, hnone, Bool.or_false]

end BlockSync.Session

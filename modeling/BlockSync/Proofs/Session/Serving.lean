import BlockSync.Proofs.Session.Desk
import Mathlib.Data.List.Induction

/-! A responder sends the blocks of its range from the first on, one after the other, as the chain
has them when it asks. It comes to the end of the range or to a block that is not stored, or a write
fails, or a later request stops it. -/

namespace BlockSync.Session

open BlockSync.Chain (Memory)

namespace Errand

def sentOn (e : Errand) (k : Nat) : Errand := { e with next := e.next + UInt32.ofNat k }

def reach (e : Errand) : Nat := e.last.toNat - e.next.toNat

variable {e : Errand} {k : Nat}

theorem toNat_sentOn (hle : e.next ≤ e.last) (hk : k ≤ e.reach) :
    (e.sentOn k).next.toNat = e.next.toNat + k := by
  have hlast := e.last.toNat_lt
  have hle' := UInt32.le_iff_toNat_le.mp hle
  unfold reach at hk
  rw [sentOn, UInt32.toNat_add, UInt32.toNat_ofNat', Nat.add_mod_mod, Nat.mod_eq_of_lt (by omega)]

theorem sentOn_eq_last_iff (hle : e.next ≤ e.last) (hk : k ≤ e.reach) :
    (e.sentOn k).next = e.last ↔ k = e.reach := by
  have hle' := UInt32.le_iff_toNat_le.mp hle
  rw [← UInt32.toNat_inj, toNat_sentOn hle hk, reach]
  omega

theorem sentOn_succ (e : Errand) (k : Nat) : (e.sentOn k).advanced = e.sentOn (k + 1) := by
  rw [sentOn, sentOn, advanced, UInt32.ofNat_add, UInt32.add_assoc]
  rfl

theorem sentOn_zero (e : Errand) : e.sentOn 0 = e := by
  simp [sentOn]

end Errand

def record (e : Errand) (visits : List (Memory × Bytes)) : List Note :=
  (visits.mapIdx fun k visit =>
    [.fetched (e.sentOn k).next visit.1, .wrote (Message.signedBlock visit.2).frame true]).flatten

theorem record_concat (e : Errand) (visits : List (Memory × Bytes)) (chain : Memory) (raw : Bytes) :
    record e (visits ++ [(chain, raw)]) = record e visits ++
      [.fetched (e.sentOn visits.length).next chain,
        .wrote (Message.signedBlock raw).frame true] := by
  simp [record, List.mapIdx_append]

theorem filterMap_fetch_record (e : Errand) (visits : List (Memory × Bytes)) :
    (record e visits).filterMap Note.fetch? =
      visits.mapIdx fun k visit => ((e.sentOn k).next, visit.1) := by
  induction visits using List.reverseRecOn with
  | nil => rfl
  | append_singleton visits visit ih =>
    rw [record_concat, List.filterMap_append, ih, List.mapIdx_concat]
    rfl

theorem filterMap_frame_record (e : Errand) (visits : List (Memory × Bytes)) :
    (record e visits).filterMap Note.frame? =
      visits.map fun visit => (Message.signedBlock visit.2).frame := by
  induction visits using List.reverseRecOn with
  | nil => rfl
  | append_singleton visits visit ih =>
    rw [record_concat, List.filterMap_append, ih, List.map_append]
    rfl

def Op.Parting : Op → Prop
  | .update f => Leaves f
  | .hangUp _ | .ignore _ => True
  | _ => False

inductive Parts : Action (Option Activity) → Prop
  | done : Parts (.done none)
  | ask {op next} : op.Parting → (∀ r, Parts (next r)) → Parts (.ask op next)

theorem leaves_id : Leaves id := ⟨fun _ => rfl, fun _ => .inl rfl⟩

theorem leaves_close : Leaves close := by
  constructor
  · intro s
    unfold close
    split <;> rfl
  · intro s
    unfold close
    split
    · exact .inl rfl
    · exact .inr rfl

theorem parts_afterWriting (e : Errand) :
    Parts ((shut >>= fun _ => (pure false : Action Bool)) >>= e.afterWriting) := by
  have hrest (s : Session) : Parts (((if s.readings.isEmpty then s.reader.forM Action.ignore
      else pure ()) >>= fun _ => (pure false : Action Bool)) >>= e.afterWriting) := by
    split
    · rcases s.reader with _ | link
      · exact .done
      · exact .ask trivial fun _ => .done
    · exact .done
  refine .ask leaves_close fun before => ?_
  change Parts (((if !before.closed then _ else _ : Action Unit) >>= _) >>= _)
  by_cases hclosed : before.closed = true
  · rw [hclosed]
    exact .done
  · rw [Bool.not_eq_true] at hclosed
    rw [hclosed]
    rcases before.writer with _ | link
    · exact hrest before
    · exact .ask trivial fun _ => hrest before

def Stores (chain : Memory) (num : UInt32) (raw : Bytes) : Prop :=
  chain.answer (.blockAt num) = some raw

/-- Where a responder stands with an errand: which blocks it has sent, what is left of its program,
and what it noted since the last of them. Only trouble keeps it from sending on. -/
inductive Stands (settings : Settings) (trouble : Prop) (e : Errand) :
    List (Memory × Bytes) → Action (Option Activity) → List Note → Prop
  | begun {visits} : visits.length ≤ e.reach →
      Stands settings trouble e visits ((e.sentOn visits.length).program settings .begun) []
  | allowed {visits} : visits.length ≤ e.reach →
      Stands settings trouble e visits ((e.sentOn visits.length).program settings .allowed) []
  | fetching {visits} : visits.length ≤ e.reach →
      Stands settings trouble e visits ((e.sentOn visits.length).program settings .fetching) []
  | missing {visits chain} : visits.length ≤ e.reach →
      chain.answer (.blockAt (e.sentOn visits.length).next) = none →
      Stands settings trouble e visits (.done none) [.fetched (e.sentOn visits.length).next chain]
  | holding {visits chain raw} : visits.length ≤ e.reach →
      Stores chain (e.sentOn visits.length).next raw →
      Stands settings trouble e visits ((e.sentOn visits.length).program settings (.holding raw))
        [.fetched (e.sentOn visits.length).next chain]
  | writing {visits chain raw link} : visits.length ≤ e.reach →
      Stores chain (e.sentOn visits.length).next raw →
      Stands settings trouble e visits
        ((e.sentOn visits.length).program settings (.writing link raw))
        [.fetched (e.sentOn visits.length).next chain]
  | onward {visits} : visits.length ≤ e.reach →
      Stands settings trouble e visits (.done (some (e.sentOn visits.length).activity)) []
  | complete {visits} : visits.length = e.reach + 1 →
      Stands settings trouble e visits (.done none) []
  | dismissed {visits} : trouble → visits.length ≤ e.reach →
      Stands settings trouble e visits (.done none) []
  | refused {visits chain raw p} : trouble → visits.length ≤ e.reach →
      Stores chain (e.sentOn visits.length).next raw → Parts p →
      Stands settings trouble e visits p [.fetched (e.sentOn visits.length).next chain]
  | failed {visits chain raw p} : trouble → visits.length ≤ e.reach →
      Stores chain (e.sentOn visits.length).next raw → Parts p →
      Stands settings trouble e visits p
        [.fetched (e.sentOn visits.length).next chain,
          .wrote (Message.signedBlock raw).frame false]

structure Desk.Favours (d : Desk) (e : Errand) (op : Op) (r : interface.Answer op) : Prop where
  current : e.Current d.session.standing
  running : d.stopping = false
  opened : d.session.closed = false
  linked : d.session.writer ≠ none
  sent : ∀ frame, Note.wrote frame false ∉ d.note op r

/-- The blocks that were sent are those that the chains had, and the rest is as it stands. -/
structure Accounts (settings : Settings) (trouble : Prop) (e : Errand) (log : List Note)
    (p : Action (Option Activity)) (visits : List (Memory × Bytes)) (tail : List Note) : Prop where
  stands : Stands settings trouble e visits p tail
  log_eq : log = record e visits ++ tail
  stored : ∀ k (h : k < visits.length), Stores visits[k].1 (e.sentOn k).next visits[k].2

section

variable {settings : Settings} {trouble : Prop} {e : Errand} {log tail : List Note}
  {visits : List (Memory × Bytes)} {p : Action (Option Activity)} {d : Desk} {op : Op}
  {next : interface.Answer op → Action (Option Activity)} {r : interface.Answer op}

theorem Op.Parting.note (h : op.Parting) (d : Desk) (r : interface.Answer op) :
    d.note op r = [] := by
  cases op with
  | update | hangUp | ignore => rfl
  | _ => exact h.elim

theorem Accounts.begin (settings : Settings) (trouble : Prop) (e : Errand) :
    Accounts settings trouble e [] (runOnce settings e.activity) [] [] := by
  have hbegun : Stands settings trouble e [] ((e.sentOn 0).program settings .begun) [] :=
    .begun (Nat.zero_le _)
  rw [Errand.sentOn_zero] at hbegun
  exact ⟨hbegun, rfl, fun k h => absurd h (Nat.not_lt_zero k)⟩

theorem Accounts.sent {chain : Memory} {raw : Bytes} (hlog : log = record e visits ++
      [.fetched (e.sentOn visits.length).next chain, .wrote (Message.signedBlock raw).frame true])
    (hstored : ∀ k (h : k < visits.length), Stores visits[k].1 (e.sentOn k).next visits[k].2)
    (hraw : Stores chain (e.sentOn visits.length).next raw)
    (h : Stands settings trouble e (visits ++ [(chain, raw)]) p []) :
    Accounts settings trouble e log p (visits ++ [(chain, raw)]) [] := by
  refine ⟨h, ?_, ?_⟩
  · rw [hlog, record_concat, List.append_nil]
  · intro k hk
    rw [List.length_append, List.length_singleton] at hk
    by_cases hold : k < visits.length
    · rw [List.getElem_append_left hold]
      exact hstored k hold
    · obtain rfl : k = visits.length := by omega
      rw [List.getElem_concat_length rfl]
      exact hraw

theorem Stands.look (hk : visits.length ≤ e.reach)
    (hp : (e.sentOn visits.length).program settings .begun = .ask op next) (hr : d.Allows op r)
    (hfair : trouble ∨ d.Favours e op r) :
    d.note op r = [] ∧ Stands settings trouble e visits (next r) [] := by
  cases hp
  obtain rfl : r = d.session := hr
  refine ⟨rfl, ?_⟩
  by_cases hc : (e.sentOn visits.length).Current d.session.standing
  · rw [Errand.current_iff] at hc
    change Stands _ _ _ _ (if _ then _ else _) _
    rw [hc]
    exact .allowed hk
  · have htrouble := hfair.resolve_right fun hf => hc hf.current
    rw [Errand.current_iff, Bool.not_eq_false] at hc
    change Stands _ _ _ _ (if _ then _ else _) _
    rw [hc]
    exact .dismissed htrouble hk

theorem Stands.goOn (hk : visits.length ≤ e.reach)
    (hp : (e.sentOn visits.length).program settings .allowed = .ask op next) (hr : d.Allows op r)
    (hfair : trouble ∨ d.Favours e op r) :
    d.note op r = [] ∧ Stands settings trouble e visits (next r) [] := by
  cases hp
  obtain rfl : r = d.stopping := hr
  refine ⟨rfl, ?_⟩
  change Stands _ _ _ _ (if d.stopping = true then _ else _) _
  split
  · next hstop =>
    refine .dismissed (hfair.resolve_right fun hf => ?_) hk
    rw [hf.running] at hstop
    cases hstop
  · exact .fetching hk

theorem Stands.hold {chain : Memory} {raw : Bytes} (hk : visits.length ≤ e.reach)
    (hraw : Stores chain (e.sentOn visits.length).next raw)
    (hp : (e.sentOn visits.length).program settings (.holding raw) = .ask op next)
    (hr : d.Allows op r) (hfair : trouble ∨ d.Favours e op r) :
    d.note op r = [] ∧ Stands settings trouble e visits (next r)
      [.fetched (e.sentOn visits.length).next chain] := by
  cases hp
  obtain rfl : r = d.session := hr
  refine ⟨rfl, ?_⟩
  change Stands _ _ _ _ ((if d.session.closed = true then _ else _ : Action Bool) >>= _) _
  by_cases hclosed : d.session.closed = true
  · rw [if_pos hclosed]
    refine .refused (hfair.resolve_right fun hf => ?_) hk hraw .done
    rw [hf.opened] at hclosed
    cases hclosed
  · rw [if_neg hclosed]
    rcases hwriter : d.session.writer with _ | link
    · have htrouble := hfair.resolve_right fun hf => hf.linked hwriter
      exact .refused htrouble hk hraw (parts_afterWriting _)
    · exact .writing hk hraw

theorem stands_afterWriting (hle : e.next ≤ e.last) (chain : Memory) (raw : Bytes)
    (hk : visits.length ≤ e.reach) :
    Stands settings trouble e (visits ++ [(chain, raw)])
      ((e.sentOn visits.length).afterWriting true) [] := by
  have hlength : (visits ++ [(chain, raw)]).length = visits.length + 1 := List.length_append
  have hend := Errand.sentOn_eq_last_iff hle hk
  change Stands _ _ _ _ (if (e.sentOn visits.length).next = e.last then _ else _) _
  split
  · next hlast => exact .complete (by rw [hlength, hend.mp hlast])
  · next hmore =>
    have hlt : visits.length < e.reach := Nat.lt_of_le_of_ne hk (mt hend.mpr hmore)
    rw [Errand.sentOn_succ, ← hlength]
    exact .onward (hlength ▸ hlt)

theorem Accounts.ask (hle : e.next ≤ e.last) (h : Accounts settings trouble e log p visits tail)
    (hp : p = .ask op next) (hr : d.Allows op r) (hfair : trouble ∨ d.Favours e op r) :
    ∃ visits' tail', Accounts settings trouble e (log ++ d.note op r) (next r) visits' tail' := by
  obtain ⟨hstands, rfl, hstored⟩ := h
  have hstay (h' : d.note op r = [] ∧ Stands settings trouble e visits (next r) tail) :
      ∃ visits' tail', Accounts settings trouble e (record e visits ++ tail ++ d.note op r)
        (next r) visits' tail' := by
    rw [h'.1, List.append_nil]
    exact ⟨visits, tail, h'.2, rfl, hstored⟩
  cases hstands with
  | begun hk => exact hstay (Stands.look hk hp hr hfair)
  | allowed hk => exact hstay (Stands.goOn hk hp hr hfair)
  | fetching hk =>
    cases hp
    obtain rfl : r = d.chain.answer (.blockAt _) := hr
    refine ⟨visits, [.fetched (e.sentOn visits.length).next d.chain], ?_, ?_, hstored⟩
    · rcases hblock : d.chain.answer (.blockAt (e.sentOn visits.length).next) with _ | raw
      · exact .missing hk hblock
      · exact .holding hk hblock
    · rw [List.append_nil]
      rfl
  | holding hk hraw => exact hstay (Stands.hold hk hraw hp hr hfair)
  | @writing chain raw link hk hraw =>
    cases hp
    cases r with
    | false =>
      have htrouble := hfair.resolve_right fun hf => hf.sent _ (List.mem_singleton.mpr rfl)
      refine ⟨visits, _, .failed htrouble hk hraw (parts_afterWriting _), ?_, hstored⟩
      rw [List.append_assoc]
      rfl
    | true =>
      refine ⟨_, _, Accounts.sent ?_ hstored hraw (stands_afterWriting hle chain raw hk)⟩
      rw [List.append_assoc]
      rfl
  | onward | missing | complete | dismissed => cases hp
  | refused htrouble hk hraw hparts =>
    subst hp
    cases hparts with
    | ask hop hparts => exact hstay ⟨hop.note d r, .refused htrouble hk hraw (hparts r)⟩
  | failed htrouble hk hraw hparts =>
    subst hp
    cases hparts with
    | ask hop hparts => exact hstay ⟨hop.note d r, .failed htrouble hk hraw (hparts r)⟩

def Op.Harmless : Op → Prop
  | .update f => Leaves f
  | .spawn _ => False
  | _ => True

theorem Op.Parting.harmless (h : op.Parting) : op.Harmless := by
  cases op with
  | update f => exact h
  | spawn a => exact h.elim
  | _ => trivial

theorem Op.Harmless.after (h : op.Harmless) (settings : Settings) (d : Desk) :
    ∃ f, Leaves f ∧ d.after settings op = { d with session := f d.session } := by
  cases op with
  | update f => exact ⟨f, h, rfl⟩
  | spawn a => exact h.elim
  | _ => exact ⟨id, leaves_id, rfl⟩

theorem Accounts.harmless (h : Accounts settings trouble e log p visits tail)
    (hp : p = .ask op next) : op.Harmless := by
  cases h.stands with
  | begun | holding =>
    cases hp
    exact leaves_id
  | allowed | fetching | writing =>
    cases hp
    trivial
  | onward | missing | complete | dismissed => cases hp
  | refused _ _ _ hparts | failed _ _ _ hparts =>
    subst hp
    cases hparts with
    | ask hop _ => exact hop.harmless

theorem Accounts.renew {a : Activity} (h : Accounts settings trouble e log p visits tail)
    (hp : p = .done (some a)) :
    Accounts settings trouble e log (runOnce settings a) visits tail := by
  obtain ⟨hstands, rfl, hstored⟩ := h
  cases hstands with
  | onward hk =>
    cases hp
    exact ⟨.begun hk, rfl, hstored⟩
  | begun | allowed | fetching | holding | writing | missing | complete | dismissed => cases hp
  | refused _ _ _ hparts | failed _ _ _ hparts =>
    subst hp
    cases hparts

/-- A responder that has looked at the session and has not asked the chain yet. -/
def Poised : Action (Option Activity) → Prop
  | .ask .isStopping _ | .ask (.chain _) _ => True
  | _ => False

theorem Parts.not_poised (h : Parts p) : ¬ Poised p := by
  cases h with
  | done => exact id
  | @ask op next hop =>
    cases op with
    | update | hangUp | ignore => exact id
    | _ => exact hop.elim

theorem Accounts.outdated (h : Accounts settings trouble e log p visits tail)
    (hp : p = .ask op next) (hr : d.Allows op r)
    (hnew : d.session.responder ≠ some e.responder) :
    ((d.note op r).filterMap Note.fetch? = [] ∧ (Poised (next r) → Poised p)) ∨
      Poised p ∧ ¬ Poised (next r) ∧ ∃ one, (d.note op r).filterMap Note.fetch? = [one] := by
  cases h.stands with
  | begun hk =>
    cases hp
    obtain rfl : r = d.session := hr
    have hc : ¬ (e.sentOn visits.length).Current d.session.standing := fun hc => hnew hc.2.2
    rw [Errand.current_iff, Bool.not_eq_false] at hc
    refine .inl ⟨rfl, ?_⟩
    change Poised (if _ then _ else _) → _
    rw [hc]
    exact id
  | allowed =>
    cases hp
    exact .inl ⟨rfl, fun _ => trivial⟩
  | fetching =>
    cases hp
    refine .inr ⟨trivial, ?_, _, rfl⟩
    cases r <;> exact id
  | holding =>
    cases hp
    obtain rfl : r = d.session := hr
    refine .inl ⟨rfl, ?_⟩
    change Poised ((if d.session.closed = true then _ else _ : Action Bool) >>= _) → _
    split
    · exact id
    · rcases d.session.writer with _ | link <;> exact id
  | writing =>
    cases hp
    refine .inl ⟨rfl, ?_⟩
    cases r with
    | false => exact id
    | true =>
      change Poised (if _ then _ else _) → _
      split <;> exact id
  | onward | missing | complete | dismissed => cases hp
  | refused _ _ _ hparts | failed _ _ _ hparts =>
    subst hp
    cases hparts with
    | ask hop hparts =>
      rw [hop.note]
      exact .inl ⟨rfl, fun hpoised => absurd hpoised (hparts r).not_poised⟩

/-- What has a responder stop: its chain has no such block, or its write failed. -/
def Note.Ends : Note → Prop
  | fetched num chain => chain.answer (.blockAt num) = none
  | wrote _ sent => sent = false

theorem Stores.not_ends {chain : Memory} {num : UInt32} {raw : Bytes} (h : Stores chain num raw) :
    ¬ (Note.fetched num chain).Ends := by
  intro hends
  rw [Stores] at h
  rw [Note.Ends, h] at hends
  cases hends

end

/-- What a responder did is what it should: it fetched the blocks of its range in order, each once
and none beyond the end, and sent each as it was stored. Where it had to stop it did. -/
structure Served (x : Responder) (visits : List (Memory × Bytes)) : Prop where
  frames : x.frames = visits.map fun visit => (Message.signedBlock visit.2).frame
  fetches : ∃ pending : Option Memory, x.fetches =
    (visits.map (·.1) ++ pending.toList).mapIdx fun k chain => (x.first + UInt32.ofNat k, chain)
  stored : ∀ k (h : k < visits.length),
    visits[k].1.answer (.blockAt (x.first + UInt32.ofNat k)) = some visits[k].2
  bounded : x.fetches.length ≤ x.last.toNat - x.first.toNat + 1
  numbers : ∀ k < x.fetches.length, (x.first + UInt32.ofNat k).toNat = x.first.toNat + k
  final : ∀ note ∈ x.log.dropLast, ¬ note.Ends

def Responder.errand (x : Responder) (n : Nat) : Errand := ⟨x.first, x.last, x.transport, n⟩

section

variable {settings : Settings} {trouble : Prop} {e : Errand} {log tail : List Note}
  {visits : List (Memory × Bytes)} {p : Action (Option Activity)}

theorem Stands.tail_cases (h : Stands settings trouble e visits p tail) :
    (tail = [] ∧ visits.length ≤ e.reach + 1) ∨
    (visits.length ≤ e.reach ∧ ∃ chain, tail = [.fetched (e.sentOn visits.length).next chain]) ∨
    (visits.length ≤ e.reach ∧ ∃ chain raw, Stores chain (e.sentOn visits.length).next raw ∧
      tail = [.fetched (e.sentOn visits.length).next chain,
        .wrote (Message.signedBlock raw).frame false]) := by
  cases h with
  | begun hk | allowed hk | fetching hk | onward hk | dismissed _ hk =>
    exact .inl ⟨rfl, Nat.le_succ_of_le hk⟩
  | complete hk => exact .inl ⟨rfl, Nat.le_of_eq hk⟩
  | missing hk | holding hk | writing hk | refused _ hk => exact .inr (.inl ⟨hk, _, rfl⟩)
  | failed _ hk hraw => exact .inr (.inr ⟨hk, _, _, hraw, rfl⟩)

theorem not_ends_of_mem_record {note : Note}
    (hstored : ∀ k (h : k < visits.length), Stores visits[k].1 (e.sentOn k).next visits[k].2)
    (h : note ∈ record e visits) : ¬ note.Ends := by
  rw [record, List.mem_flatten] at h
  obtain ⟨notes, hnotes, hmem⟩ := h
  obtain ⟨k, hk, rfl⟩ := List.mem_mapIdx.mp hnotes
  rcases List.mem_cons.mp hmem with rfl | hmem
  · exact (hstored k hk).not_ends
  · rw [List.mem_singleton.mp hmem]
    exact Bool.noConfusion

theorem Accounts.final (h : Accounts settings trouble e log p visits tail) :
    ∀ note ∈ log.dropLast, ¬ note.Ends := by
  intro note hnote
  rw [h.log_eq] at hnote
  rcases h.stands.tail_cases with ⟨rfl, -⟩ | ⟨-, chain, rfl⟩ | ⟨-, chain, raw, hraw, rfl⟩
  · rw [List.append_nil] at hnote
    exact not_ends_of_mem_record h.stored ((List.dropLast_sublist _).subset hnote)
  · rw [List.dropLast_concat] at hnote
    exact not_ends_of_mem_record h.stored hnote
  · rw [List.dropLast_append_of_ne_nil (by simp), List.mem_append] at hnote
    rcases hnote with hnote | hnote
    · exact not_ends_of_mem_record h.stored hnote
    · obtain rfl : note = _ := List.mem_singleton.mp hnote
      exact hraw.not_ends

theorem Accounts.served {x : Responder} {n : Nat} (hle : x.first ≤ x.last)
    (h : Accounts settings trouble (x.errand n) x.log x.program visits tail) : Served x visits := by
  have hframes : tail.filterMap Note.frame? = [] := by
    rcases h.stands.tail_cases with ⟨rfl, -⟩ | ⟨-, chain, rfl⟩ | ⟨-, chain, raw, -, rfl⟩ <;> rfl
  have hpending : ∃ pending : Option Memory, visits.length + pending.toList.length ≤
        (x.errand n).reach + 1 ∧ tail.filterMap Note.fetch? =
        pending.toList.map fun chain => (((x.errand n).sentOn visits.length).next, chain) := by
    rcases h.stands.tail_cases with ⟨rfl, hk⟩ | ⟨hk, chain, rfl⟩ | ⟨hk, chain, raw, -, rfl⟩
    · exact ⟨none, hk, rfl⟩
    · exact ⟨some chain, Nat.succ_le_succ hk, rfl⟩
    · exact ⟨some chain, Nat.succ_le_succ hk, rfl⟩
  obtain ⟨pending, hbound, hfetch⟩ := hpending
  have hfetches : x.fetches = (visits.map (·.1) ++ pending.toList).mapIdx
      fun k chain => (x.first + UInt32.ofNat k, chain) := by
    have hvisits : (visits.map (·.1)).mapIdx (fun k chain => (x.first + UInt32.ofNat k, chain)) =
        visits.mapIdx fun k visit => (((x.errand n).sentOn k).next, visit.1) :=
      List.ext_getElem (by simp) (by simp [Errand.sentOn, Responder.errand])
    rw [Responder.fetches, h.log_eq, List.filterMap_append, filterMap_fetch_record, hfetch,
      List.mapIdx_append, hvisits, List.length_map]
    cases pending with
    | none => rfl
    | some chain => simp [Errand.sentOn, Responder.errand]
  have hlength : x.fetches.length ≤ (x.errand n).reach + 1 := by
    rw [hfetches, List.length_mapIdx, List.length_append, List.length_map]
    exact hbound
  constructor
  · rw [Responder.frames, h.log_eq, List.filterMap_append, filterMap_frame_record, hframes,
      List.append_nil]
  · exact ⟨pending, hfetches⟩
  · exact h.stored
  · exact hlength
  · intro k hk
    exact Errand.toNat_sentOn (e := x.errand n) hle (by omega)
  · exact h.final

end

end BlockSync.Session

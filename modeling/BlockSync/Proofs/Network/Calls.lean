import Mathlib.Data.List.MinMax
import BlockSync.Proofs.Network.Tasks

/-! What a single call on a supervisor comes to, told as of the site on which it is made. Between two
operations of a call others may have theirs (`Step`), and what it answers then depends on them as
well. To say what it answers for one site, they are kept out here for as long as the call does not
wait; while it waits, they may make anything of the site. -/

namespace BlockSync.Network

open BlockSync.Network.Action

/-- Operations that wait for something outside of the supervisor: the chain, a link, a task or a
time. -/
def Op.waits : Op → Bool
  | .session _ op =>
    match op with
    | .push _ _ | .receive _ _ _ | .send _ _ | .hangUp _ | .awaitTurn _ _ | .pause _ _ | .rest
    | .dial _ _ | .lockDial => true
    | _ => false
  | .join _ | .pause _ => true
  | _ => false

/-- Operations that neither wait nor start a task. -/
def Op.IsPlain (op : Op) : Prop := op.waits = false ∧ ∀ a, op ≠ .spawn a

/-- One operation of a task, and what others make of the site while it waits. -/
def Site.Takes (settings : Settings) (task : TaskId) (waits : Site → Site → Prop) (s : Site)
    (op : Op) (r : interface.Answer op) (t : Site) : Prop :=
  ∃ u, (if op.waits then waits s u else u = s) ∧ u.Allows op r ∧ t = u.after settings task op

/-- From a site on, a call asks only for what it may ask for, and ends as described, whatever others
make of the site while it waits. -/
def Calling (settings : Settings) (task : TaskId) (asks : Site → Op → Prop)
    (waits : Site → Site → Prop) {α : Type} (post : α → Site → Prop) (p : Action α) (s : Site) :
    Prop :=
  p.Ensures asks (Site.Takes settings task waits) post s

def departed (ds : List Departure) (n : Network) : Network :=
  { n with
    contacts := n.contacts.filter (·.peer ∉ ds.map (·.peer))
    active := n.active.filter (·.peer ∉ ds.map (·.peer)) }

theorem departed_nil (n : Network) : n.departed [] = n := by
  cases n with
  | mk initialized contacts active => cases active <;> simp [departed]

theorem departed_cons (d : Departure) (ds : List Departure) (n : Network) :
    n.departed (d :: ds) = ((n.without d.peer).deactivated d.peer).departed ds := by
  simp only [departed, without, deactivated, List.filter_filter, Option.filter_filter,
    List.map_cons, List.mem_cons, not_or]
  congr 2
  · funext c
    simp [Bool.and_comm]
  · funext c
    simp

/-- How a call ends that meets no others. -/
inductive Alone (settings : Settings) (task : TaskId) {α : Type} : Action α → Site → α → Site → Prop
  | done (a : α) (s : Site) : Alone settings task (.done a) s a s
  | ask {op next s r a t} : s.Allows op r →
      Alone settings task (next r) (s.after settings task op) a t →
      Alone settings task (.ask op next) s a t

namespace Site

def bare (s : Site) : Site := { s with toHistory := {} }

def depart (s : Site) : Site :=
  { s with network := s.network.departed s.announced, announced := [] }

def enroll (peers : List String) (s : Site) : Site :=
  { s with
    network.contacts := s.network.contacts ++ enrolled peers s.peers.length
    peers := s.peers ++ (enrolled peers s.peers.length).map (·.peer) }

/-- A site on which the configured peers are among the contacts. -/
def prepared (settings : Settings) (s : Site) : Site :=
  if s.network.initialized then s
  else { s with network.initialized := true }.enroll settings.peers

def connected (s : Site) (c : Contact) : Bool := (s.sessions c.session).connected

def latency (s : Site) (c : Contact) : Duration := (s.sessions c.session).peer.latency

section

variable {settings : Settings} {task : TaskId} {waits : Site → Site → Prop} {s : Site} {op : Op}
  {r : interface.Answer op}

theorem depart_of_nobody (h : s.announced = []) : s.depart = s := by
  rw [depart, h, departed_nil, ← h]

theorem bare_prepared (settings : Settings) (s : Site) :
    (s.prepared settings).bare = s.bare.prepared settings := by
  unfold prepared
  rw [apply_ite bare]
  rfl

theorem takes_at_once (hr : s.Allows op r) (hs : waits s s) :
    s.Takes settings task waits op r (s.after settings task op) := by
  refine ⟨s, ?_, hr, rfl⟩
  split
  · exact hs
  · rfl

theorem isReady_of_not_waits (s : Site) (h : op.waits = false) : s.isReady [] op = true := by
  cases op with
  | session id op => cases op <;> first | rfl | cases h
  | join => cases h
  | _ => rfl

end

end Site

section

variable {settings : Settings} {task : TaskId} {asks : Site → Op → Prop}
  {waits : Site → Site → Prop} {α β : Type} {post : α → Site → Prop} {post' : β → Site → Prop}
  {p : Action α} {s t : Site}

theorem Calling.pure {a : α} (h : post a s) :
    Calling settings task asks waits post (Pure.pure a) s := h

theorem Calling.bind {f : α → Action β}
    (h : Calling settings task asks waits
      (fun a t => Calling settings task asks waits post' (f a) t) p s) :
    Calling settings task asks waits post' (p >>= f) s := Program.Ensures.bind h

theorem Calling.mono {post' : α → Site → Prop} (h : Calling settings task asks waits post p s)
    (hpost : ∀ a t, post a t → post' a t) : Calling settings task asks waits post' p s :=
  Program.Ensures.mono h hpost

theorem Calling.ite {c : Prop} [Decidable c] {q : Action α}
    (hp : c → Calling settings task asks waits post p s)
    (hq : ¬ c → Calling settings task asks waits post q s) :
    Calling settings task asks waits post (if c then p else q) s := Program.Ensures.ite hp hq

theorem Calling.request {op : Op} {post : interface.Answer op → Site → Prop}
    (hwaits : op.waits = false) (hop : asks s op)
    (h : ∀ r, s.Allows op r → post r (s.after settings task op)) :
    Calling settings task asks waits post (Program.request (I := interface) op) s := by
  refine ⟨hop, ?_⟩
  rintro r _ ⟨u, hu, hr, rfl⟩
  rw [if_neg (by rw [hwaits]; exact Bool.false_ne_true)] at hu
  subst hu
  exact h r hr

theorem Calling.ask {op : Op} {f : interface.Answer op → Action β} (hwaits : op.waits = false)
    (hop : asks s op)
    (hf : ∀ r, s.Allows op r → Calling settings task asks waits post' (f r)
      (s.after settings task op)) :
    Calling settings task asks waits post' (Program.request (I := interface) op >>= f) s :=
  .bind (.request hwaits hop hf)

theorem Calling.exists_alone
    (h : Calling settings task (fun _ op => op.waits = false) waits post p s) :
    ∃ a t, Alone settings task p s a t := by
  induction p generalizing s with
  | done a => exact ⟨a, s, .done a s⟩
  | ask op next ih =>
    have hr := Site.allows_reply (s.isReady_of_not_waits h.1)
    have hnext := h.2 _ _ ⟨s, by rw [h.1]; rfl, hr, rfl⟩
    obtain ⟨a, t, ht⟩ := ih _ hnext
    exact ⟨a, t, .ask hr ht⟩

theorem Calling.of_alone {a : α} (h : Calling settings task asks waits post p s)
    (ht : Alone settings task p s a t) (hwaits : ∀ s, waits s s) : post a t := by
  induction ht with
  | done => exact h
  | ask hr _ ih => exact ih (h.2 _ _ (Site.takes_at_once hr (hwaits _)))

end

section

variable {settings : Settings} {task : TaskId} {asks : Site → Op → Prop}
  {waits : Site → Site → Prop} {s t : Site} (hasks : ∀ s op, op.IsPlain → asks s op)
include hasks

theorem calling_state (id : SessionId) :
    Calling settings task asks waits (fun session t => t = s ∧ session = s.sessions id)
      (session id Session.Action.state) s := by
  have hlook : Calling settings task asks waits (fun session t => t = s ∧ session = s.sessions id)
      (Program.request (I := interface) (.session id (.update fun x => x))) s :=
    Calling.request rfl (hasks s _ ⟨rfl, nofun⟩) fun _ h => ⟨s.mapSession_id _, h⟩
  exact hlook

theorem calling_peerState (id : SessionId) :
    Calling settings task asks waits (fun peer t => t = s ∧ peer = (s.sessions id).peer)
      (session id Session.Action.peerState) s := by
  have hlook : Calling settings task asks waits
      (fun peer t => t = s ∧ peer = (s.sessions id).peer)
      (Program.request (I := interface) (.session id (.updatePeer fun x => x))) s :=
    Calling.request rfl (hasks s _ ⟨rfl, nofun⟩) fun _ h => ⟨s.mapSession_id _, h⟩
  exact hlook

theorem calling_isConnected (contact : Contact) :
    Calling settings task asks waits (fun connected t => t = s ∧ connected = s.connected contact)
      (isConnected contact) s := by
  refine Calling.bind ((calling_state hasks contact.session).mono ?_)
  rintro _ _ ⟨rfl, rfl⟩
  exact Calling.pure ⟨rfl, rfl⟩

theorem calling_disconnected (contacts : List Contact) :
    Calling settings task asks waits
      (fun others t => t = s ∧ others = contacts.filter (!s.connected ·))
      (disconnected contacts) s := by
  induction contacts with
  | nil => exact Calling.pure ⟨rfl, rfl⟩
  | cons contact rest ih =>
    refine Calling.bind ((calling_isConnected hasks contact).mono ?_)
    rintro connected _ ⟨rfl, rfl⟩
    refine Calling.bind (ih.mono ?_)
    rintro others _ ⟨rfl, rfl⟩
    refine Calling.pure ⟨rfl, ?_⟩
    rw [List.filter_cons]
    cases Site.connected _ contact <;> rfl

theorem calling_fastest (seen contacts : List Contact) {best : Option (Duration × Contact)}
    (hbest : best = ((seen.filter s.connected).argmin s.latency).map fun c => (s.latency c, c)) :
    Calling settings task asks waits
      (fun found t => t = s ∧ found = ((seen ++ contacts).filter s.connected).argmin s.latency)
      (fastest best contacts) s := by
  induction contacts generalizing seen best with
  | nil =>
    refine Calling.pure ⟨rfl, ?_⟩
    rw [List.append_nil, hbest]
    cases (seen.filter s.connected).argmin s.latency <;> rfl
  | cons contact rest ih =>
    rw [List.append_cons]
    refine Calling.bind ((calling_isConnected hasks contact).mono ?_)
    rintro connected _ ⟨rfl, rfl⟩
    refine Calling.ite (fun hskipped => ih _ ?_) fun hconnected => ?_
    · rw [Bool.not_eq_true'] at hskipped
      rw [List.filter_append, List.filter_cons_of_neg (by simp [hskipped]), List.filter_nil,
        List.append_nil, hbest]
    · refine Calling.bind ((calling_peerState hasks contact.session).mono ?_)
      rintro peer _ ⟨rfl, rfl⟩
      refine ih _ ?_
      rw [Bool.not_eq_true', Bool.not_eq_false] at hconnected
      rw [List.filter_append, List.filter_cons_of_pos hconnected, List.filter_nil,
        List.argmin_concat, hbest]
      cases (seen.filter (Site.connected _)).argmin (Site.latency _) with
      | none => rfl
      | some least =>
        refine Eq.trans ?_ (apply_ite _ _ _ _).symm
        refine if_congr ?_ rfl rfl
        exact decide_eq_true_iff

theorem calling_leaveAll (ds : List Departure) :
    Calling settings task asks waits
      (fun _ t => t.bare = { s.bare with network := s.network.departed ds }) (leaveAll ds) s := by
  induction ds generalizing s with
  | nil =>
    refine Calling.pure ?_
    rw [departed_nil]
    rfl
  | cons d ds ih =>
    refine Calling.bind (Calling.ask rfl (hasks _ _ ⟨rfl, nofun⟩) fun _ _ => ?_)
    refine Calling.request rfl (hasks _ _ ⟨rfl, nofun⟩) fun _ _ => ?_
    have hrest := ih (s := (s.after settings task (.forget d.peer)).after settings task
      (.deactivate d.peer))
    refine hrest.mono fun _ t ht => ?_
    rw [ht, departed_cons]
    rfl

theorem calling_leaveDeparted :
    Calling settings task asks waits (fun _ t => t.bare = s.depart.bare) leaveDeparted s := by
  refine Calling.ask rfl (hasks _ _ ⟨rfl, nofun⟩) fun ds hds => ?_
  change ds = s.announced at hds
  subst hds
  refine (calling_leaveAll hasks s.announced).mono fun _ t ht => ?_
  rw [ht]
  rfl

theorem calling_addContacts (peers : List String) :
    Calling settings task asks waits (fun _ t => t.bare = (s.enroll peers).bare)
      (addContacts peers) s := by
  induction peers generalizing s with
  | nil =>
    refine Calling.pure ?_
    simp [Site.enroll, enrolled]
  | cons peer rest ih =>
    unfold addContacts
    split
    · next address haddress =>
      have hcreate : (Op.create peer).IsPlain := ⟨rfl, fun a h => by cases h⟩
      refine Calling.bind (Calling.ask rfl (hasks _ _ hcreate) fun session hsession => ?_)
      change session = s.peers.length at hsession
      subst hsession
      have henlist : (Op.enlist ⟨s.peers.length, peer, address⟩).IsPlain :=
        ⟨rfl, fun a h => by cases h⟩
      refine Calling.ask rfl (hasks _ _ henlist) fun _ _ => Calling.pure (ih.mono ?_)
      rintro _ t ht
      rw [ht]
      simp [Site.enroll, Site.bare, Site.after, Network.extended, enrolled_of_ok haddress]
    · next fault haddress =>
      refine Calling.bind (Calling.pure (ih.mono ?_))
      rintro _ t ht
      rw [ht]
      simp [Site.enroll, enrolled_of_error haddress]

theorem calling_ensureContacts :
    Calling settings task asks waits (fun _ t => t.bare = (s.prepared settings).bare)
      (ensureContacts settings) s := by
  refine Calling.ask rfl (hasks _ _ ⟨rfl, nofun⟩) fun before hbefore => ?_
  change before = s.network.initialized at hbefore
  subst hbefore
  unfold Site.prepared
  cases hinit : s.network.initialized with
  | true =>
    refine Calling.pure ?_
    rw [if_pos rfl]
    simp only [Site.after, Site.bare, ← hinit]
  | false =>
    rw [if_neg Bool.false_ne_true]
    exact calling_addContacts hasks settings.peers (s := s.after settings task .markInitialized)

end

end BlockSync.Network

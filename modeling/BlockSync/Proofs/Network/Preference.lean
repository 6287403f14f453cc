import BlockSync.Proofs.Network.Calls

/-! Which contact is received from. For the site as it is when somebody asks for one, that is the
first contact of least latency among those that are connected and whose peers have not asked to be
left. Where there is none, all are dialed before anything is waited for, and the choice is given up
only after a shutdown was requested. -/

namespace BlockSync.Network

open BlockSync.Network.Action

def Op.dials : Op → Option Contact
  | .spawn (.connect contact) => some contact
  | _ => none

/-- The contacts that were dialed, the latest last. -/
def dialed (ops : List Op) : List Contact := ops.filterMap Op.dials

namespace Site

/-- The contacts that are connected and whose peers are named in no departure that is still to be
taken. -/
def candidates (s : Site) : List Contact :=
  s.network.contacts.filter fun c => s.connected c && c.peer ∉ s.announced.map (·.peer)

/-- The contacts that are dialed where none is connected. -/
def callable (settings : Settings) (s : Site) : List Contact :=
  (s.depart.prepared settings).network.contacts.filter fun c => !s.connected c

end Site

/-- A choice under way: what is left of its round, what was asked for from the beginning, and the
site. While it waits, others may make anything of the site. -/
inductive Choosing (settings : Settings) (task : TaskId) (start : Site) :
    Action (Choice ⊕ Option Contact) → List Op → Site → Prop
  | begin : Choosing settings task start (choose settings .select) [] start
  | ask {op next ops s r t} : Choosing settings task start (.ask op next) ops s →
      s.Takes settings task (fun _ _ => True) op r t →
      Choosing settings task start (next r) (ops ++ [op]) t
  | again {choice ops s} : Choosing settings task start (.done (.inl choice)) ops s →
      Choosing settings task start (choose settings choice) ops s

/-- What a task does at a site where it has asked for certain operations already. -/
def Logged (settings : Settings) (task : TaskId) (asks : List Op → Op → Prop) {α : Type}
    (post : α → Site × List Op → Prop) (p : Action α) (x : Site × List Op) : Prop :=
  p.Ensures (fun x op => asks x.2 op)
    (fun x op r y => x.1.Takes settings task (fun _ _ => True) op r y.1 ∧ y.2 = x.2 ++ [op]) post x

section

variable {settings : Settings} {task : TaskId} {s t : Site} {α : Type}
  {asks : List Op → Op → Prop} {ops : List Op}

theorem Op.IsPlain.dials {op : Op} (h : op.IsPlain) : op.dials = none := by
  cases op with
  | spawn a => exact absurd rfl (h.2 a)
  | _ => rfl

theorem dialed_concat_of_plain {op : Op} (h : op.IsPlain) : dialed (ops ++ [op]) = dialed ops := by
  rw [dialed, List.filterMap_append, List.filterMap_cons, h.dials, List.filterMap_nil,
    List.append_nil, dialed]

theorem dialed_prefix_concat (op : Op) : dialed ops <+: dialed (ops ++ [op]) := by
  rw [dialed, dialed, List.filterMap_append]
  exact List.prefix_append _ _

theorem Calling.logged {post : α → Site → Prop} {p : Action α}
    (h : Calling settings task (fun _ => Op.IsPlain) (fun _ _ => True) post p s)
    (ops : List Op) (hasks : ∀ ops op, op.IsPlain → asks ops op) :
    Logged settings task asks (fun a x => post a x.1 ∧ dialed x.2 = dialed ops) p (s, ops) := by
  refine h.matched (R := fun t x => x.1 = t ∧ dialed x.2 = dialed ops) ⟨rfl, rfl⟩ ?_ ?_ ?_
  · exact fun _ x op _ hop => hasks x.2 op hop
  · rintro _ x op r y ⟨rfl, hx⟩ hop ⟨htakes, hy⟩
    refine ⟨y.1, htakes, rfl, ?_⟩
    rw [hy, dialed_concat_of_plain hop, hx]
  · rintro a _ x ⟨rfl, hx⟩ ha
    exact ⟨ha, hx⟩

theorem Logged.ask {op : Op} {β : Type} {post : β → Site × List Op → Prop}
    {f : interface.Answer op → Action β} (hplain : op.IsPlain) (hop : asks ops op)
    (hf : ∀ r ops', s.Allows op r → dialed ops' = dialed ops →
      Logged settings task asks post (f r) (s.after settings task op, ops')) :
    Logged settings task asks post (Program.request (I := interface) op >>= f) (s, ops) := by
  refine ⟨hop, ?_⟩
  rintro r ⟨_, _⟩ ⟨⟨u, hu, hr, rfl⟩, rfl⟩
  rw [if_neg (by rw [hplain.1]; exact Bool.false_ne_true)] at hu
  subst hu
  exact hf r _ hr (dialed_concat_of_plain hplain)

theorem logged_of_dialed {contacts : List Contact} (p : Action α) {x : Site × List Op}
    (hasks : ∀ ops op, contacts <+: dialed ops → asks ops op) (hx : contacts <+: dialed x.2) :
    Logged settings task asks (fun _ y => contacts <+: dialed y.2) p x := by
  refine .kept (fun y => hasks y.2) ?_ hx
  rintro y op r z hy ⟨-, hz⟩
  rw [hz]
  exact hy.trans (dialed_prefix_concat op)

theorem logged_spawnAll (contacts : List Contact) (x : Site × List Op)
    (hasks : ∀ ops op, op.waits = false → asks ops op) :
    Logged settings task asks (fun _ y => dialed y.2 = dialed x.2 ++ contacts)
      (spawnAll contacts) x := by
  induction contacts generalizing x with
  | nil => exact (List.append_nil _).symm
  | cons contact rest ih =>
    refine ⟨hasks _ _ rfl, ?_⟩
    rintro r y ⟨-, hy⟩
    change Program.Ensures _ _ _ (spawnAll rest >>= _) y
    refine Program.Ensures.bind ((ih y).mono fun tasks z hz => ?_)
    change dialed z.2 = _
    rw [hz, hy, dialed, List.filterMap_append]
    exact List.append_assoc _ _ _

theorem logged_connectAll (hasks : ∀ ops op, op.waits = false → asks ops op)
    (hdialed : ∀ ops op, s.network.contacts.filter (!s.connected ·) <+: dialed ops → asks ops op)
    (hops : dialed ops = []) :
    Logged settings task asks
      (fun _ x => s.network.contacts.filter (!s.connected ·) <+: dialed x.2) connectAll
      (s, ops) := by
  have hplain (t : Site) (op : Op) (h : op.IsPlain) : op.IsPlain := h
  refine Logged.ask ⟨rfl, nofun⟩ (hasks _ _ rfl) fun contacts ops' hcontacts hops' => ?_
  change contacts = s.network.contacts at hcontacts
  subst hcontacts
  rw [hops] at hops'
  refine Program.Ensures.bind (((calling_disconnected hplain s.network.contacts).logged ops'
    fun ops op h => hasks ops op h.1).mono ?_)
  rintro contacts ⟨_, ops''⟩ ⟨⟨rfl, rfl⟩, hops''⟩
  refine Program.Ensures.bind ((logged_spawnAll _ _ hasks).mono fun tasks x hx => ?_)
  refine logged_of_dialed (joinAll tasks) hdialed ?_
  rw [hx, show dialed ops'' = [] from hops''.trans hops', List.nil_append]
  exact List.prefix_refl _

theorem calling_select {asks : Site → Op → Prop} {waits : Site → Site → Prop}
    (hasks : ∀ s op, op.IsPlain → asks s op) :
    Calling settings task asks waits
      (fun result t => match s.candidates.argmin s.latency with
        | some contact => result = .inr (some contact)
        | none => result = .inl .dial ∧ t.bare = (s.depart.prepared settings).bare)
      (choose settings .select) s := by
  refine Calling.bind ((calling_leaveDeparted hasks).mono fun _ t ht => ?_)
  have hsessions : t.sessions = s.sessions := congrArg (·.sessions) ht
  have hcandidates : t.network.contacts.filter t.connected = s.candidates := by
    rw [show t.network.contacts = s.depart.network.contacts from congrArg (·.network.contacts) ht,
      show t.connected = s.connected by unfold Site.connected; rw [hsessions]]
    exact List.filter_filter
  refine Calling.ask rfl (hasks _ _ ⟨rfl, nofun⟩) fun contacts hcontacts => ?_
  change contacts = t.network.contacts at hcontacts
  subst hcontacts
  refine Calling.bind ((calling_fastest hasks [] t.network.contacts rfl).mono ?_)
  rintro found _ ⟨rfl, hfound⟩
  change found = (t.network.contacts.filter t.connected).argmin t.latency at hfound
  rw [hcandidates, show t.latency = s.latency by unfold Site.latency; rw [hsessions]] at hfound
  rw [← hfound]
  cases found with
  | some contact => exact Calling.pure rfl
  | none =>
    refine Calling.bind ((calling_ensureContacts hasks).mono fun _ u hu => ?_)
    refine Calling.pure ⟨rfl, ?_⟩
    rw [hu, Site.bare_prepared, Site.bare_prepared]
    exact congrArg (Site.prepared settings) ht

theorem calling_anything (p : Action α) :
    Calling settings task (fun _ _ => True) (fun _ _ => True) (fun _ _ => True) p s :=
  .kept (fun _ _ _ => trivial) (fun _ _ _ _ _ _ => trivial) trivial

theorem calling_pause (d : Duration) :
    Calling settings task (fun _ _ => True) (fun _ _ => True)
      (fun more t => more = false → t.stopping = true) (Action.pause d) s := by
  refine Calling.ask rfl trivial fun now _ => ⟨trivial, ?_⟩
  rintro more _ ⟨u, -, hmore, rfl⟩
  exact hmore

theorem calling_choose (choice : Choice) :
    Calling settings task (fun _ _ => True) (fun _ _ => True)
      (fun result t => result = .inr none → t.stopping = true) (choose settings choice) s := by
  cases choice with
  | select =>
    refine (calling_select fun _ _ _ => trivial).mono fun result t h hnone => ?_
    subst hnone
    split at h
    · cases h
    · cases h.1
  | dial =>
    refine Calling.bind (Calling.ask rfl trivial fun stopping hstopping => Calling.ite ?_ fun _ => ?_)
    · rintro rfl
      exact Calling.pure fun _ => hstopping.symm
    refine Calling.bind ((calling_anything leaveDeparted).mono fun _ t _ => ?_)
    refine Calling.bind ((calling_anything connectAll).mono fun _ u _ => ?_)
    refine Calling.ask rfl trivial fun contacts _ => ?_
    refine Calling.bind ((calling_anything (anyConnected contacts)).mono fun connected v _ => ?_)
    refine Calling.ite (fun _ => Calling.pure nofun) fun _ => ?_
    refine Calling.bind ((calling_pause dialInterval).mono fun more w hmore => ?_)
    refine Calling.ite (fun _ => Calling.pure nofun) fun hstop => Calling.pure fun _ => ?_
    exact hmore (Bool.eq_false_iff.mpr hstop)

theorem Site.callable_eq (h : t.bare = (s.depart.prepared settings).bare) :
    s.callable settings = t.network.contacts.filter (!t.connected ·) := by
  have hsessions : t.sessions = s.sessions := by
    refine (congrArg (·.sessions) h).trans ?_
    unfold prepared
    split <;> rfl
  have hcontacts : t.network.contacts = (s.depart.prepared settings).network.contacts :=
    congrArg (·.network.contacts) h
  unfold callable connected
  rw [hcontacts, hsessions]

theorem Site.stopping_eq (h : t.bare = (s.depart.prepared settings).bare) :
    t.stopping = s.stopping := by
  refine (congrArg (·.stopping) h).trans ?_
  unfold prepared
  split <;> rfl

theorem Site.announced_eq (h : t.bare = (s.depart.prepared settings).bare) : t.announced = [] := by
  refine (congrArg (·.announced) h).trans ?_
  unfold prepared
  split <;> rfl

def Dialed (settings : Settings) (s : Site) (result : Choice ⊕ Option Contact)
    (x : Site × List Op) : Prop :=
  (s.stopping = false ∧ s.callable settings <+: dialed x.2) ∨
    (s.stopping = true ∧ dialed x.2 = [] ∧ result = .inr none)

def Hastens (settings : Settings) (s : Site) (ops : List Op) (op : Op) : Prop :=
  op.waits = true → s.stopping = false ∧ s.callable settings <+: dialed ops

theorem logged_dial (ht : t.bare = (s.depart.prepared settings).bare) (hops : dialed ops = []) :
    Logged settings task (Hastens settings s) (Dialed settings s) (choose settings .dial)
      (t, ops) := by
  have hplain (ops : List Op) (op : Op) (h : op.waits = false) : Hastens settings s ops op := by
    intro hwaits
    rw [h] at hwaits
    cases hwaits
  refine Program.Ensures.bind (Logged.ask ⟨rfl, nofun⟩ (hplain _ _ rfl)
    fun stopping ops' h hops' => ?_)
  change stopping = t.stopping at h
  rw [Site.stopping_eq ht] at h
  subst h
  rw [hops] at hops'
  cases hstopping : s.stopping with
  | true => exact .inr ⟨hstopping, hops', rfl⟩
  | false =>
    have hdialed (ops : List Op) (op : Op) (h : s.callable settings <+: dialed ops) :
        Hastens settings s ops op := fun _ => ⟨hstopping, h⟩
    refine Program.Ensures.bind (((calling_leaveDeparted fun _ _ h => h).logged ops'
      fun ops op h => hplain ops op h.1).mono ?_)
    rintro - ⟨u, ops''⟩ ⟨hu, hops''⟩
    -- Nobody announced a departure since the last ones were taken.
    change u.bare = t.depart.bare at hu
    rw [Site.depart_of_nobody (Site.announced_eq ht), ht] at hu
    refine Program.Ensures.bind ((logged_connectAll hplain ?_ (hops''.trans hops')).mono ?_)
    · rw [← Site.callable_eq hu]
      exact hdialed
    rw [← Site.callable_eq hu]
    intro _ x hx
    refine (logged_of_dialed _ hdialed hx).mono fun result y hy => ?_
    split <;> exact .inl ⟨hstopping, hy⟩

namespace Choosing

variable {start : Site} {p : Action (Choice ⊕ Option Contact)}

theorem logged {post : Choice ⊕ Option Contact → Site × List Op → Prop}
    (h : Choosing settings task start p ops t)
    (hbegin : Logged settings task asks post (choose settings .select) (start, []))
    (hagain : ∀ choice x, post (.inl choice) x →
      Logged settings task asks post (choose settings choice) x) :
    Logged settings task asks post p (t, ops) := by
  induction h with
  | begin => exact hbegin
  | ask _ htakes ih => exact ih.2 _ (_, _) ⟨htakes, rfl⟩
  | again _ ih => exact hagain _ _ ih

/-- Without a wait a choice goes on to the end of its round or to a wait. -/
theorem goes_on {post : Choice ⊕ Option Contact → Site × List Op → Prop}
    (h : Choosing settings task start p ops t) (hp : Logged settings task asks post p (t, ops))
    (hops : ∀ op ∈ ops, op.waits = false) :
    ∃ q ops' u, Choosing settings task start q ops' u ∧ Logged settings task asks post q (u, ops') ∧
      (∀ op ∈ ops', op.waits = false) ∧
      ((∃ result, q = .done result) ∨ ∃ op next, q = .ask op next ∧ op.waits = true) := by
  induction p generalizing ops t with
  | done result => exact ⟨_, ops, t, h, hp, hops, .inl ⟨result, rfl⟩⟩
  | ask op next ih =>
    cases hwaits : op.waits with
    | true => exact ⟨_, ops, t, h, hp, hops, .inr ⟨op, next, rfl, hwaits⟩⟩
    | false =>
      have hr : t.Takes settings task (fun _ _ => True) op (t.reply [] op)
          (t.after settings task op) :=
        Site.takes_at_once (t.allows_reply (t.isReady_of_not_waits hwaits)) trivial
      refine ih _ (h.ask hr) (hp.2 _ (_, _) ⟨hr, rfl⟩) ?_
      intro op' hop'
      rcases List.mem_append.mp hop' with hold | hnew
      · exact hops op' hold
      · rw [List.mem_singleton.mp hnew]
        exact hwaits

theorem with_candidate {contact : Contact} (h : Choosing settings task start p ops t)
    (hfastest : start.candidates.argmin start.latency = some contact) :
    Logged settings task (fun _ => Op.IsPlain) (fun result _ => result = .inr (some contact)) p
      (t, ops) := by
  have hselect : Calling settings task (fun _ => Op.IsPlain) (fun _ _ => True) _
      (choose settings .select) start := calling_select fun _ _ h => h
  rw [hfastest] at hselect
  refine h.logged ((hselect.logged [] fun _ _ h => h).mono fun result _ h => h.1) ?_
  intro _ _ hnone
  cases hnone

theorem without_candidate (h : Choosing settings task start p ops t)
    (hnone : start.candidates = []) :
    Logged settings task (Hastens settings start) (fun result x => Dialed settings start result x ∨
      dialed x.2 = [] ∧ result = .inl .dial ∧
        x.1.bare = (start.depart.prepared settings).bare) p (t, ops) := by
  have hselect : Calling settings task (fun _ => Op.IsPlain) (fun _ _ => True) _
      (choose settings .select) start := calling_select fun _ _ h => h
  rw [hnone, List.argmin_nil] at hselect
  refine h.logged ((hselect.logged [] fun ops op h => ?_).mono ?_) ?_
  · intro hwaits
    rw [h.1] at hwaits
    cases hwaits
  · rintro result x ⟨⟨hresult, hx⟩, hdialed⟩
    exact .inr ⟨hdialed, hresult, hx⟩
  · rintro choice x ((⟨hstopping, hdialed⟩ | ⟨-, -, hresult⟩) | ⟨hdialed, ⟨⟩, hx⟩)
    · refine (logged_of_dialed _ (fun _ _ h _ => ⟨hstopping, h⟩) hdialed).mono fun _ _ h => ?_
      exact .inl (.inl ⟨hstopping, h⟩)
    · cases hresult
    · exact (logged_dial hx hdialed).mono fun _ _ h => Or.inl h

theorem given_up (h : Choosing settings task start p ops t) :
    Calling settings task (fun _ _ => True) (fun _ _ => True)
      (fun result t => result = .inr none → t.stopping = true) p t := by
  induction h with
  | begin => exact calling_choose .select
  | ask _ htakes ih => exact ih.2 _ _ htakes
  | again _ _ => exact calling_choose _

end Choosing

/-- How a choice stands that found no candidate: all are dialed, or it is given up because of an
earlier shutdown. -/
def CalledAll (settings : Settings) (s : Site) (p : Action (Choice ⊕ Option Contact))
    (ops : List Op) : Prop :=
  if s.stopping then p = .done (.inr none) ∧ dialed ops = []
  else s.callable settings <+: dialed ops

theorem Dialed.calledAll {result : Choice ⊕ Option Contact}
    (h : Dialed settings s result (t, ops)) : CalledAll settings s (.done result) ops := by
  unfold CalledAll
  rcases h with ⟨hstopping, hdialed⟩ | ⟨hstopping, hops, rfl⟩
  · rw [hstopping]
    exact hdialed
  · rw [hstopping]
    exact ⟨rfl, hops⟩

theorem Hastens.calledAll {op : Op} (h : Hastens settings s ops op) (hwaits : op.waits = true)
    (p : Action (Choice ⊕ Option Contact)) : CalledAll settings s p ops := by
  obtain ⟨hstopping, hdialed⟩ := h hwaits
  rw [CalledAll, hstopping]
  exact hdialed

/-- A choice that is over, or goes on only after a wait. -/
def Rests (p : Action (Choice ⊕ Option Contact)) : Prop :=
  (∃ op next, p = .ask op next ∧ op.waits = true) ∨ ∃ contact?, p = .done (.inr contact?)

/-- From any site on: where there are candidates, the first of least latency is chosen, and until
then nothing is waited for and no task is started. Where there are none, the contacts that are not
connected are dialed, all of them and in their order, before anything else is dialed or waited for;
unless a shutdown was requested already, when the choice is given up at once. It is never given up
but after a shutdown was requested. -/
theorem fastest_is_chosen (settings : Settings) (task : TaskId) (s : Site) :
    (s.candidates ≠ [] → ∃ contact, s.candidates.argmin s.latency = some contact ∧
      (∃ ops t, Choosing settings task s (.done (.inr (some contact))) ops t) ∧
      (∀ op next ops t, Choosing settings task s (.ask op next) ops t → op.IsPlain) ∧
      ∀ result ops t, Choosing settings task s (.done result) ops t →
        result = .inr (some contact)) ∧
    (s.candidates = [] →
      (∃ p ops t, Choosing settings task s p ops t ∧ (∀ op ∈ ops, op.waits = false) ∧
        CalledAll settings s p ops) ∧
      ∀ p ops t, Choosing settings task s p ops t → Rests p → CalledAll settings s p ops) ∧
    ∀ ops t, Choosing settings task s (.done (.inr none)) ops t → t.stopping = true := by
  refine ⟨fun hsome => ?_, fun hnone => ⟨?_, ?_⟩, fun ops t h => h.given_up rfl⟩
  · obtain ⟨contact, hfastest⟩ := Option.ne_none_iff_exists'.mp
      (mt (List.argmin_eq_none (f := s.latency)).mp hsome)
    refine ⟨contact, hfastest, ?_, ?_, ?_⟩
    · have hbegin : Choosing settings task s _ [] s := .begin
      obtain ⟨p, ops, t, hp, hlogged, -, ⟨result, rfl⟩ | ⟨op, next, rfl, hwaits⟩⟩ :=
        hbegin.goes_on (hbegin.with_candidate hfastest) nofun
      · cases (hlogged : result = _)
        exact ⟨ops, t, hp⟩
      · rw [hlogged.1.1] at hwaits
        cases hwaits
    · exact fun op next ops t h => (h.with_candidate hfastest).1
    · exact fun result ops t h => h.with_candidate hfastest
  · have hbegin : Choosing settings task s _ [] s := .begin
    obtain ⟨p, ops, t, hp, hlogged, hops, ⟨result, rfl⟩ | ⟨op, next, rfl, hwaits⟩⟩ :=
      hbegin.goes_on (hbegin.without_candidate hnone) nofun
    · rcases hlogged with hdialed | ⟨hdialed, rfl, ht⟩
      · exact ⟨_, ops, t, hp, hops, hdialed.calledAll⟩
      · obtain ⟨q, ops', u, hq, hlogged, hops', ⟨result, rfl⟩ | ⟨op, next, rfl, hwaits⟩⟩ :=
          hp.again.goes_on (logged_dial ht hdialed) hops
        · exact ⟨_, ops', u, hq, hops', Dialed.calledAll hlogged⟩
        · exact ⟨_, ops', u, hq, hops', hlogged.1.calledAll hwaits _⟩
    · exact ⟨_, ops, t, hp, hops, hlogged.1.calledAll hwaits _⟩
  · rintro p ops t h (⟨op, next, rfl, hwaits⟩ | ⟨contact?, rfl⟩)
    · exact (h.without_candidate hnone).1.calledAll hwaits _
    · rcases h.without_candidate hnone with hdialed | ⟨-, hinl, -⟩
      · exact hdialed.calledAll
      · cases hinl

end

namespace Crossroads

def contact (session : SessionId) (peer : String) : Contact :=
  ⟨session, peer, ⟨peer, 9876⟩⟩

def near : Contact := contact 3 "10.0.0.3"

/-- Two sessions with a peer that asked to be left, one that is slow, two that are near and one that
is not connected. -/
def site : Site where
  network :=
    { initialized := true
      contacts := [contact 0 "10.0.0.1", contact 1 "10.0.0.1", contact 2 "10.0.0.2", near,
        contact 4 "10.0.0.4", contact 5 "10.0.0.5"] }
  sessions
    | 2 => { connected := true, peer := PeerState.fresh.setLatency 7 }
    | 5 => {}
    | _ => { connected := true }
  announced := [⟨"10.0.0.1", ⟨.noReason, Octets.zero 32⟩⟩]

def deserted : Site := { site with sessions := fun _ => {} }

end Crossroads

/-- The first of those that are near is chosen. When nobody is connected, all but those to be left
are dialed. -/
theorem fastest_is_chosen_of_tie :
    (∃ ops t, Choosing {} 0 Crossroads.site (.done (.inr (some Crossroads.near))) ops t) ∧
      ∃ p ops t, Choosing {} 0 Crossroads.deserted p ops t ∧
        ["10.0.0.2", "10.0.0.3", "10.0.0.4", "10.0.0.5"] <+: (dialed ops).map (·.peer) := by
  constructor
  · obtain ⟨contact, hfastest, ⟨ops, t, h⟩, -⟩ :=
      (fastest_is_chosen {} 0 Crossroads.site).1 (by decide)
    have hnear : Crossroads.site.candidates.argmin Crossroads.site.latency =
        some Crossroads.near := by decide
    cases hnear.symm.trans hfastest
    exact ⟨ops, t, h⟩
  · obtain ⟨⟨p, ops, t, h, -, hcalled⟩, -⟩ :=
      (fastest_is_chosen {} 0 Crossroads.deserted).2.1 (by decide)
    have hcallable : (Crossroads.deserted.callable {}).map (·.peer) =
        ["10.0.0.2", "10.0.0.3", "10.0.0.4", "10.0.0.5"] := by decide
    refine ⟨p, ops, t, h, ?_⟩
    rw [← hcallable]
    exact hcalled.map _

end BlockSync.Network

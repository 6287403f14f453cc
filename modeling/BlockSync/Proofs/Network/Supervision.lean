import BlockSync.Proofs.Network.Conduct

/-! The rounds of a supervisor's work. Every round is secure from its beginning to its end, whatever
the other tasks do: departures that were taken are dealt with before anything else, the configured
peers are added one after the other, whoever starts a dial waits for its end, and the supervisor
closes what it still knows of. -/

namespace BlockSync.Network

open BlockSync.Network.Action

section

variable {settings : Settings} {task : TaskId} {work : Work} {ids : List TaskId} {ops : List Op}
  {op : Op} {retry : TaskId} {s t u : Site} {α β : Type} {post : β → Site → Prop}

theorem Secure.ask {f : interface.Answer op → Action β} (hs : s.Ready settings task ids)
    (haside : work.isAside = false) (hop : s.Proper settings task work op)
    (hf : ∀ r t, s.Allows op r → (s.after settings task op).Others settings task t →
      Secure settings task work post (f r) t) :
    Secure settings task work post (Program.request (I := interface) op >>= f) s :=
  During.ask (hs.may haside hop) hf

theorem Site.called_after (settings : Settings) (task : TaskId) (op : Op) (s : Site) :
    (s.after settings task op).called = s.called := by
  cases op with
  | session id op => cases op <;> rfl
  | _ => rfl

theorem Secure.called {p : Action β} (h : Secure settings task work post p s) :
    Secure settings task work (fun b t => post b t ∧ s.called <+: t.called) p s := by
  induction p generalizing s with
  | done b => exact ⟨h, List.prefix_refl _⟩
  | ask op next ih =>
    refine ⟨h.1, fun r t ht => During.mono (ih r (h.2 r t ht)) ?_⟩
    rintro b u ⟨hb, hu⟩
    have hcalled := ht.2.meanwhile.called
    rw [Site.called_after] at hcalled
    exact ⟨hb, hcalled.trans hu⟩

theorem secure_mute {p : Session.Action α}
    (h : Session.Routine settings (fun _ => True) False (fun _ => True) p) (hmute : Session.Mute p)
    (hs : s.Ready settings task ids) (hdial : work.isDial = false) (id : SessionId) :
    Secure settings task work (fun _ t => s.Others settings task t) (session id p) s :=
  secure_session h (fun _ => hmute) hdial hs id

theorem secure_pause (hs : s.Ready settings task ids) (haside : work.isAside = false)
    (d : Duration) :
    Secure settings task work (fun _ t => s.Others settings task t) (Action.pause d) s := by
  refine Secure.ask hs haside trivial fun now t _ ht => ?_
  exact ⟨(hs.others ht).may haside trivial, fun _ _ hu => ht.trans hu.2⟩

section

variable (hs : s.Ready settings task ids) (hdial : work.isDial = false)
include hs hdial

theorem secure_isConnected (contact : Contact) :
    Secure settings task work (fun _ t => s.Others settings task t) (isConnected contact) s := by
  have hstate := Session.routine_update settings (fun _ => True) False Session.tidy_id
  exact During.bind ((secure_mute hstate (.request id) hs hdial _).mono fun _ _ ht =>
    During.pure ht)

theorem secure_disconnected (contacts : List Contact) :
    Secure settings task work (fun _ t => s.Others settings task t) (disconnected contacts) s := by
  induction contacts generalizing s with
  | nil => exact During.pure (.refl hs.fit)
  | cons contact rest ih =>
    refine During.bind ((secure_isConnected hs hdial contact).mono fun _ t ht => ?_)
    refine During.bind ((ih (hs.others ht)).mono fun _ u hu => ?_)
    exact During.pure (ht.trans hu)

theorem secure_anyConnected (contacts : List Contact) :
    Secure settings task work (fun _ t => s.Others settings task t) (anyConnected contacts) s := by
  induction contacts generalizing s with
  | nil => exact During.pure (.refl hs.fit)
  | cons contact rest ih =>
    refine During.bind ((secure_isConnected hs hdial contact).mono fun connected t ht => ?_)
    refine During.ite (fun _ => During.pure ht) fun _ => ?_
    exact (ih (hs.others ht)).mono fun _ _ hu => ht.trans hu

theorem secure_fastest (best : Option (Duration × Contact)) (contacts : List Contact) :
    Secure settings task work
      (fun found t => s.Others settings task t ∧
        ∀ c, found = some c → c ∈ contacts ∨ c ∈ best.map (·.2))
      (fastest best contacts) s := by
  induction contacts generalizing s best with
  | nil => exact During.pure ⟨.refl hs.fit, fun c hc => .inr hc⟩
  | cons contact rest ih =>
    refine During.bind ((secure_isConnected hs hdial contact).mono fun connected t ht => ?_)
    refine During.ite (fun _ => (ih (hs.others ht) best).mono ?_) fun _ => ?_
    · rintro found u ⟨hu, hfound⟩
      exact ⟨ht.trans hu, fun c hc => (hfound c hc).imp_left (List.mem_cons_of_mem _)⟩
    · have hpeer := Session.routine_peerState settings (fun _ => True) False
      refine During.bind ((secure_mute hpeer (.request id) (hs.others ht) hdial _).mono
        fun peer u hu => ?_)
      refine (ih (hs.others (ht.trans hu)) _).mono ?_
      rintro found v ⟨hv, hfound⟩
      refine ⟨(ht.trans hu).trans hv, fun c hc => ?_⟩
      rcases hfound c hc with hrest | hbetter
      · exact .inl (List.mem_cons_of_mem _ hrest)
      · cases best with
        | none =>
          cases hbetter
          exact .inl List.mem_cons_self
        | some least =>
          dsimp only at hbetter
          split at hbetter
          · cases hbetter
            exact .inl List.mem_cons_self
          · exact .inr hbetter

end

theorem secure_duty (hs : s.Stance settings task ids (op :: ops)) (haside : work.isAside = false)
    (hop : s.Proper settings task work op) : Asks settings task work s op := by
  refine ⟨fun duty rest hduty => ?_, fun he => .inl (hs.enrolled he), fun hthere => ?_, hop⟩
  · rw [hs.owing] at hduty
    exact (List.cons.inj hduty).1
  · rw [haside] at hthere
    cases hthere

theorem Site.owing_settle (s : Site) (task : TaskId) :
    (s.settle task).owing task = (s.owing task).tail := Function.update_self _ _ _

theorem secure_leaveAll {ds : List Departure} (hs : s.Stance settings task ids (duties ds))
    (haside : work.isAside = false) :
    Secure settings task work (fun _ t => t.Ready settings task ids) (leaveAll ds) s := by
  induction ds generalizing s with
  | nil => exact During.pure hs
  | cons d ds ih =>
    have hforget : s.owing task = .forget d.peer :: .deactivate d.peer :: duties ds := hs.owing
    refine During.bind (During.ask (secure_duty hs haside ⟨_, hforget⟩) fun _ t _ ht => ?_)
    have hrest : (s.after settings task (.forget d.peer)).owing task =
        .deactivate d.peer :: duties ds :=
      (s.owing_settle task).trans (congrArg List.tail hforget)
    have hnext : t.Stance settings task ids (.deactivate d.peer :: duties ds) :=
      ht.stance hs.minds hrest hs.enrolled
    refine ⟨secure_duty hnext haside ⟨_, hnext.owing⟩, fun _ u hu => ih ?_⟩
    exact hu.2.stance hnext.minds ((t.owing_settle task).trans (congrArg List.tail hnext.owing))
      hnext.enrolled

theorem secure_leaveDeparted (hs : s.Ready settings task ids) (haside : work.isAside = false) :
    Secure settings task work (fun _ t => t.Ready settings task ids) leaveDeparted s := by
  refine Secure.ask hs haside hs.owing fun ds t hds ht => secure_leaveAll ?_ haside
  change ds = s.announced at hds
  subst hds
  exact ht.stance hs.minds (Function.update_self _ _ _) hs.enrolled

/-- How a task stands that has still to add certain peers. -/
structure Site.Adding (settings : Settings) (task : TaskId) (ids : List TaskId)
    (rest : List String) (s : Site) : Prop where
  fit : s.Fit settings
  minds : s.Minds task ids
  owing : s.owing task = []
  enroller : s.enroller = some task
  peers : s.peers = s.added.map (·.peer)
  added : s.added ++ enrolled rest s.added.length = enrolled settings.peers 0

section

variable {peer : String} {rest : List String} {address : Address}

theorem Site.Adding.added_next (h : s.Adding settings task ids (peer :: rest))
    (haddress : Address.ofText peer = .ok address) :
    s.added ++ [⟨s.added.length, peer, address⟩] ++ enrolled rest (s.added.length + 1) =
      enrolled settings.peers 0 := by
  rw [← h.added, enrolled_of_ok haddress, List.append_assoc, List.singleton_append]

theorem Site.Adding.peers_next (h : s.Adding settings task ids (peer :: rest))
    (address : Address) :
    s.peers ++ [peer] = (s.added ++ [(⟨s.added.length, peer, address⟩ : Contact)]).map (·.peer) := by
  rw [h.peers, List.map_append, List.map_singleton]

end

theorem asks_of_enrolls (howing : s.owing task = []) (haside : work.isAside = false)
    (henrolls : op.Enrolls) (hop : s.Proper settings task work op) :
    Asks settings task work s op := by
  refine ⟨fun duty rest hduty => ?_, fun _ => .inr henrolls, fun hthere => ?_, hop⟩
  · rw [howing] at hduty
    cases hduty
  · rw [haside] at hthere
    cases hthere

theorem secure_addContacts {rest : List String} (hs : s.Adding settings task ids rest)
    (haside : work.isAside = false) :
    Secure settings task work (fun _ t => t.Ready settings task ids) (addContacts rest) s := by
  induction rest generalizing s with
  | nil =>
    refine During.pure ⟨hs.fit, hs.minds, hs.owing, fun _ => ?_⟩
    rw [← hs.added, enrolled, List.append_nil]
  | cons peer rest ih =>
    unfold addContacts
    split
    · next address haddress =>
      have hadded := hs.added_next haddress
      have hcontact := hadded ▸ List.prefix_append _ (enrolled rest (s.added.length + 1))
      have hpeers := hs.peers_next address ▸ hcontact.map Contact.peer
      refine During.bind (During.ask (asks_of_enrolls hs.owing haside trivial ⟨hs.enroller, hpeers⟩)
        fun session t hsession ht => ?_)
      change session = s.peers.length at hsession
      rw [hs.peers, List.length_map] at hsession
      subst hsession
      obtain ⟨htadded, htpeers⟩ := ht.meanwhile.enrolling hs.enroller
      change t.added = s.added at htadded
      change t.peers = s.peers ++ [peer] at htpeers
      rw [hs.peers_next address] at htpeers
      have henroller := ht.meanwhile.enroller.mpr hs.enroller
      have howing : t.owing task = [] := ht.meanwhile.owing.trans hs.owing
      have hnamed : (t.added ++ [(⟨s.added.length, peer, address⟩ : Contact)]).map (·.peer) =
          t.peers := by
        rw [htpeers, htadded]
      refine During.ask (asks_of_enrolls howing haside trivial
        ⟨henroller, htadded ▸ hcontact, hnamed ▸ List.prefix_refl _⟩) fun _ u _ hu => During.pure (ih ?_)
      obtain ⟨huadded, hupeers⟩ := hu.meanwhile.enrolling henroller
      change u.added = t.added ++ [_] at huadded
      change u.peers = t.peers at hupeers
      rw [htadded] at huadded
      rw [← huadded] at htpeers hadded
      refine ⟨hu.fit, hu.meanwhile.minds ids (ht.meanwhile.minds ids hs.minds),
        hu.meanwhile.owing.trans howing, hu.meanwhile.enroller.mpr henroller,
        hupeers.trans htpeers, ?_⟩
      rw [← hadded, huadded, List.length_append, List.length_singleton]
    · next fault haddress =>
      have hadded := hs.added
      rw [enrolled_of_error haddress] at hadded
      exact During.bind (During.pure (ih ⟨hs.fit, hs.minds, hs.owing, hs.enroller, hs.peers, hadded⟩))

theorem secure_ensureContacts (hs : s.Ready settings task ids) (haside : work.isAside = false) :
    Secure settings task work (fun _ t => t.Ready settings task ids)
      (ensureContacts settings) s := by
  refine Secure.ask hs haside trivial fun before t hbefore ht => ?_
  change before = s.network.initialized at hbefore
  subst hbefore
  cases hinit : s.network.initialized with
  | true =>
    refine During.pure (ht.stance hs.minds hs.owing fun he => hs.enrolled ?_)
    change (if s.network.initialized then s.enroller else some task) = some task at he
    rwa [hinit] at he
  | false =>
    obtain ⟨-, hadded, hpeers⟩ := hs.fit.enrolling.before hinit
    have henroller : (s.after settings task .markInitialized).enroller = some task := by
      change (if s.network.initialized then s.enroller else some task) = some task
      rw [hinit]
      rfl
    obtain ⟨htadded, htpeers⟩ := ht.meanwhile.enrolling henroller
    change t.added = s.added at htadded
    change t.peers = s.peers at htpeers
    refine secure_addContacts ⟨ht.fit, ht.meanwhile.minds ids hs.minds,
      ht.meanwhile.owing.trans hs.owing, ht.meanwhile.enroller.mpr henroller, ?_, ?_⟩ haside
    · rw [htpeers, htadded, hpeers, hadded]
      rfl
    · rw [htadded, hadded]
      rfl

theorem Site.Minds.start (h : s.Minds task ids) (parent : Option TaskId) (work : Work) :
    (s.start settings parent work).Minds task (s.nextTask :: ids) := by
  intro t ht hparent haside
  rcases List.mem_append.mp ht with hold | hnew
  · exact List.mem_cons_of_mem _ (h t hold hparent haside)
  · rw [List.mem_singleton.mp hnew]
    exact List.mem_cons_self

theorem secure_spawnAll (hs : s.Ready settings task ids) (haside : work.isAside = false)
    (contacts : List Contact) :
    Secure settings task work (fun tasks t => t.Ready settings task (tasks ++ ids))
      (spawnAll contacts) s := by
  induction contacts generalizing s ids with
  | nil => exact During.pure hs
  | cons contact rest ih =>
    refine Secure.ask hs haside trivial fun started t hstarted ht => ?_
    change started = s.nextTask at hstarted
    subst hstarted
    have hnext := ht.stance (hs.minds.start _ _) hs.owing hs.enrolled
    refine During.bind ((ih hnext).mono fun tasks u hu => During.pure ?_)
    refine ⟨hu.fit, fun v hv hparent hopen => ?_, hu.owing, hu.enrolled⟩
    have hmem := hu.minds v hv hparent hopen
    simp only [List.mem_append, List.mem_cons, List.cons_append] at hmem ⊢
    exact or_left_comm.mp hmem

theorem secure_joinAll {tasks : List TaskId} (hs : s.Ready settings task (tasks ++ ids))
    (haside : work.isAside = false) :
    Secure settings task work (fun _ t => t.Ready settings task ids) (joinAll tasks) s := by
  induction tasks generalizing s with
  | nil => exact During.pure hs
  | cons first rest ih =>
    refine Secure.ask hs haside trivial fun _ t hover ht => ih (ht.stance ?_ hs.owing hs.enrolled)
    intro u hu hparent hopen
    exact (List.mem_cons.mp (hs.minds u hu hparent hopen)).resolve_left (hover u hu)

section

variable (hs : s.Ready settings task ids) (haside : work.isAside = false)
  (hdial : work.isDial = false)
include hs haside hdial

theorem secure_connectAll :
    Secure settings task work (fun _ t => t.Ready settings task ids) connectAll s := by
  refine Secure.ask hs haside trivial fun contacts t _ ht => ?_
  have hlook := ht.stance hs.minds hs.owing hs.enrolled
  refine During.bind ((secure_disconnected hlook hdial contacts).mono fun pending u hu => ?_)
  refine During.bind ((secure_spawnAll (hlook.others hu) haside pending).mono fun tasks v hv => ?_)
  exact secure_joinAll hv haside

theorem secure_dialOnce :
    Secure settings task work (fun _ t => t.Ready settings task ids) dialOnce s := by
  refine Secure.ask hs haside trivial fun stopping t _ ht => ?_
  have ht' := hs.others ht
  refine During.ite (fun _ => During.pure ht') fun _ => ?_
  refine During.bind ((secure_leaveDeparted ht' haside).mono fun _ u hu => ?_)
  refine During.bind ((secure_connectAll hu haside hdial).mono fun _ v hv => ?_)
  refine Secure.ask hv haside trivial fun contacts w _ hw => ?_
  have hlook := hw.stance hv.minds hv.owing hv.enrolled
  refine During.bind ((secure_anyConnected hlook hdial contacts).mono fun connected x hx => ?_)
  have hx' := hlook.others hx
  refine During.ite (fun _ => During.pure hx') fun _ => ?_
  refine During.bind ((secure_pause hx' haside dialInterval).mono fun more y hy => ?_)
  exact During.ite (fun _ => During.pure (hx'.others hy)) fun _ => During.pure (hx'.others hy)

theorem secure_choose (choice : Choice) :
    Secure settings task work (fun result t => t.Ready settings task ids ∧
      ∀ c, result = .inr (some c) → c ∈ t.seen task) (choose settings choice) s := by
  cases choice with
  | select =>
    refine During.bind ((secure_leaveDeparted hs haside).mono fun _ t ht => ?_)
    refine Secure.ask ht haside trivial fun contacts u hcontacts hu => ?_
    change contacts = t.network.contacts at hcontacts
    subst hcontacts
    have hlook := hu.stance ht.minds ht.owing ht.enrolled
    refine During.bind ((secure_fastest hlook hdial none _).mono ?_)
    rintro found v ⟨hv, hfound⟩
    have hv' := hlook.others hv
    cases found with
    | some contact =>
      refine During.pure ⟨hv', ?_⟩
      rintro _ ⟨rfl⟩
      rw [hv.meanwhile.seen, hu.meanwhile.seen]
      change contact ∈ Function.update t.seen task t.network.contacts task
      rw [Function.update_self]
      exact (hfound contact rfl).resolve_right nofun
    | none =>
      refine During.bind ((secure_ensureContacts hv' haside).mono fun _ w hw => ?_)
      exact During.pure ⟨hw, fun _ hc => nomatch hc⟩
  | dial =>
    refine During.bind ((secure_dialOnce hs haside hdial).mono fun result t ht => ?_)
    split <;> exact During.pure ⟨ht, fun _ hc => nomatch hc⟩

theorem secure_afterSession (contact : Contact) :
    Secure settings task work (fun _ t => t.Ready settings task ids) (afterSession contact) s := by
  refine Secure.ask hs haside trivial fun _ t _ ht => ?_
  have ht' := ht.stance hs.minds hs.owing hs.enrolled
  have hstate := Session.routine_update settings (fun _ => True) False Session.tidy_id
  refine During.bind ((secure_mute hstate (.request id) ht' hdial contact.session).mono
    fun s' u hu => ?_)
  have hu' := ht'.others hu
  refine During.bind ((secure_pause hu' haside _).mono fun more v hv => ?_)
  exact During.ite (fun _ => During.pure (hu'.others hv)) fun _ => During.pure (hu'.others hv)

/-- Whoever is alone closes a session for good. -/
theorem secure_shut (id : SessionId) :
    Secure settings task work
      (fun _ t => s.Others settings task t ∧
        (t.Sole → s.Calm task → (t.sessions id).closed = true))
      (session id Session.shut) s := by
  obtain ⟨hask, hrest⟩ := Session.routine_shut settings (fun _ => True) False
  have hclose : s.Proper settings task work (.session id (.update Session.close)) :=
    proper_of_routine hs.fit.whole hask nofun
  refine ⟨hs.may haside hclose, ?_⟩
  rintro before t ⟨-, ht⟩
  change (s.afterOn settings task id (.update Session.close)).Others settings task t at ht
  have hmeanwhile : Site.Meanwhile task s (s.afterOn settings task id (.update Session.close)) :=
    Site.meanwhile_afterOn hclose fun _ => hdial
  have hclosed : ((s.afterOn settings task id (.update Session.close)).sessions id).closed =
      true := by
    rw [Site.afterOn_sessions, Function.update_self]
    exact Session.closed_close _
  have hmute := Session.carries_mute.shut.2 before trivial
  refine During.mono (secure_mute (hrest before () trivial) hmute (hs.afterOn ht) hdial id) ?_
  intro _ u hu
  refine ⟨.of_meanwhile hmeanwhile (ht.trans hu), fun hsole hcalm => ?_⟩
  have hlater := (ht.trans hu).meanwhile
  exact (hlater.calm hsole (Site.calm_afterOn hcalm)).2.2 id hclosed

theorem secure_closeAll (contacts : List Contact) :
    Secure settings task work
      (fun _ t => s.Others settings task t ∧ (t.Sole → s.Calm task →
        ∀ c ∈ contacts, (t.sessions c.session).closed = true))
      (closeAll contacts) s := by
  induction contacts generalizing s with
  | nil => exact During.pure ⟨.refl hs.fit, fun _ _ _ hc => nomatch hc⟩
  | cons contact rest ih =>
    refine During.bind ((secure_shut hs haside hdial contact.session).mono ?_)
    rintro _ t ⟨ht, hclosed⟩
    refine (ih (hs.others ht)).mono ?_
    rintro _ u ⟨hu, hrest⟩
    refine ⟨ht.trans hu, fun hsole hcalm => ?_⟩
    have hbefore := hsole.earlier hu.meanwhile.called
    have hstill := (ht.meanwhile.calm hbefore hcalm).1
    refine List.forall_mem_cons.mpr ⟨?_, hrest hsole hstill⟩
    exact (hu.meanwhile.calm hsole hstill).2.2 _ (hclosed hbefore hcalm)

end

def Work.pending : Work → List TaskId
  | .activity (.supervise _ retry) => [retry]
  | _ => []

/-- Whose work it may be: the supervisor's is the first task's, where nothing else was called. -/
def Site.Suits (s : Site) (task : TaskId) : Work → Prop
  | .activity (.session _ _) => True
  | .activity (.connect _) | .activity .retry => task ≠ 0
  | .activity (.supervise _ _) | .activity .run => s.Sole → task = 0
  | .ensure | .init | .dial | .select _ => ¬ s.Sole

structure Site.Begins (settings : Settings) (task : TaskId) (work : Work) (s : Site) : Prop where
  ready : s.Ready settings task work.pending
  suits : s.Suits task work

/-- What holds when a round ends. -/
def Site.Ends (settings : Settings) (task : TaskId) (work : Work) (s : Site) :
    Option Work → Prop
  | some next => next.isAside = work.isAside ∧ s.Begins settings task next
  | none => s.Ready settings task [] ∧ (work.isAside = true ∨ (task = 0 → s.Sole → s.Shut))

def Site.Stands (settings : Settings) (task retry : TaskId) (s : Site) : Option Phase → Prop
  | some _ => s.Ready settings task [retry]
  | none => s.Ready settings task [] ∧ (s.Sole → s.Shut)

theorem secure_stopping (hs : s.Ready settings task [retry]) (haside : work.isAside = false)
    (hdial : work.isDial = false) (hfirst : s.Sole → task = 0) :
    Secure settings task work (fun next t => t.Stands settings task retry next)
      (supervise settings retry .stopping) s := by
  refine Secure.ask hs haside trivial fun _ t _ ht => ?_
  have hstop : t.stopping = true := ht.meanwhile.stopping rfl
  have ht' := ht.stance hs.minds hs.owing hs.enrolled
  refine Secure.ask ht' haside trivial fun _ u hover hu => ?_
  have hnobody : t.Minds task [] := fun v hv hparent hopen =>
    absurd (List.mem_singleton.mp (ht'.minds v hv hparent hopen)) (hover v hv)
  have hu' := hu.stance hnobody ht'.owing ht'.enrolled
  refine Secure.ask hu' haside trivial fun contacts v hcontacts hv => ?_
  change contacts = u.network.contacts at hcontacts
  have hv' := hv.stance hu'.minds hu'.owing hu'.enrolled
  refine During.bind ((secure_closeAll hv' haside hdial contacts).mono ?_)
  rintro _ w ⟨hw, hclosed⟩
  refine During.pure ⟨hv'.others hw, fun hsole => ?_⟩
  have hsole' := hsole.earlier hw.meanwhile.called
  have hbefore := hsole'.earlier hv.meanwhile.called
  -- Nothing but what goes on beside sessions is left, so that what is closed stays closed.
  have hzero : task = 0 := hfirst ((hbefore.earlier hu.meanwhile.called).earlier
    ht.meanwhile.called)
  have hcalm : u.Calm task := by
    subst hzero
    exact hu.fit.sane.calm hbefore hu'.minds
  obtain ⟨hstill, hnetwork, -⟩ := hv.meanwhile.calm hsole' hcalm
  obtain ⟨-, hnetwork', -⟩ := hw.meanwhile.calm hsole hstill
  refine ⟨hw.meanwhile.stopping (hv.meanwhile.stopping (hu.meanwhile.stopping hstop)), ?_⟩
  rw [hnetwork', hnetwork]
  exact fun c hc => hclosed hsole hstill c (hcontacts ▸ hc)

theorem secure_supervise (hs : s.Ready settings task [retry]) (hfirst : s.Sole → task = 0)
    (phase : Phase) :
    Secure settings task (.activity (.supervise phase retry))
      (fun next t => t.Stands settings task retry next) (supervise settings retry phase) s := by
  have hreceive (contact : Contact) {p : Session.Action Bool}
      (hp : Session.Routine settings (fun _ => True) False (fun _ => True) p)
      (hmute : (Work.activity (.supervise phase retry)).isReceiving = false → Session.Mute p)
      {t : Site} (ht : t.Ready settings task [retry]) :
      Secure settings task (.activity (.supervise phase retry))
        (fun next u => u.Stands settings task retry next)
        (do
          if ← session contact.session p then return some (.receiving contact)
          return some (← afterSession contact)) t := by
    refine During.bind ((secure_session hp hmute rfl ht contact.session).mono fun more u hu => ?_)
    have hu' := ht.others hu
    refine During.ite (fun _ => During.pure hu') fun _ => ?_
    exact During.bind ((secure_afterSession hu' rfl rfl contact).mono fun _ _ h => During.pure h)
  cases phase with
  | idle =>
    refine Secure.ask hs rfl trivial fun stopping t _ ht => ?_
    have ht' := hs.others ht
    exact During.ite (fun _ => During.pure ht') fun _ => During.pure ht'
  | choosing choice =>
    refine During.bind ((secure_choose hs rfl rfl choice).mono ?_)
    rintro (choice | contact?) t ⟨ht, hseen⟩
    · exact During.pure ht
    · cases contact? with
      | none => exact During.pure ht
      | some contact =>
        have hcontact := hseen contact rfl
        refine Secure.ask ht rfl hcontact fun _ u _ hu => ?_
        have hu' := hu.stance ht.minds ht.owing ht.enrolled
        have hcontact' : contact ∈ u.seen task := by
          rw [hu.meanwhile.seen]
          exact hcontact
        refine Secure.ask hu' rfl hcontact' fun _ v _ hv => ?_
        exact hreceive contact (Session.routine_greet _ _ _) (fun _ => Session.mute_greet settings)
          (hv.stance hu'.minds hu'.owing hu'.enrolled)
  | receiving contact =>
    exact hreceive contact (Session.routine_receiveOnce _ _ _ fun _ _ => trivial) nofun hs
  | stopping => exact secure_stopping hs rfl rfl hfirst

theorem secure_runOnce (a : Activity) (hbegins : s.Begins settings task (.activity a)) :
    Secure settings task (.activity a)
      (fun next t => t.Ends settings task (.activity a) (next.map .activity))
      (runOnce settings a) s := by
  obtain ⟨hs, hsuits⟩ := hbegins
  cases a with
  | session id a =>
    have hrun := Session.routine_runOnce settings (fun _ => True) False a
    refine During.bind ((secure_session hrun (fun _ => Session.mute_runOnce settings a) rfl hs
      id).mono fun next t ht => During.pure ?_)
    cases next with
    | none => exact ⟨hs.others ht, .inl rfl⟩
    | some next => exact ⟨rfl, hs.others ht, trivial⟩
  | connect contact =>
    refine During.bind ((secure_connect hs contact).mono fun _ t ht => During.pure ?_)
    exact ⟨ht, .inr fun hzero => absurd hzero hsuits⟩
  | retry =>
    refine During.bind ((secure_pause hs rfl retryInterval).mono fun more t ht => ?_)
    have ht' := hs.others ht
    refine During.ite (fun _ => ?_) fun _ => ?_
    · exact During.pure ⟨ht', .inr fun hzero => absurd hzero hsuits⟩
    · refine During.bind ((secure_leaveDeparted ht' rfl).mono fun _ u hu => ?_)
      refine During.bind ((secure_connectAll hu rfl rfl).mono fun _ v hv => ?_)
      exact During.pure ⟨rfl, hv, hsuits⟩
  | supervise phase retry =>
    refine During.bind ((secure_supervise hs hsuits phase).called.mono ?_)
    rintro next t ⟨ht, hcalled⟩
    have hfirst (h : t.Sole) : task = 0 := hsuits (h.earlier hcalled)
    cases next with
    | none => exact During.pure ⟨ht.1, .inr fun _ => ht.2⟩
    | some next => exact During.pure ⟨rfl, ht, hfirst⟩
  | run =>
    refine During.bind ((secure_ensureContacts hs rfl).called.mono ?_)
    rintro _ t ⟨ht, hcalled⟩
    refine Secure.ask ht rfl trivial fun retry u hretry hu => During.pure ?_
    change retry = t.nextTask at hretry
    subst hretry
    refine ⟨rfl, hu.stance (ht.minds.start _ _) ht.owing ht.enrolled, fun hsole => ?_⟩
    exact hsuits ((hsole.earlier hu.meanwhile.called).earlier hcalled)

theorem Site.Begins.others (h : s.Begins settings task work) (ho : s.Others settings task t) :
    t.Begins settings task work := by
  refine ⟨h.ready.others ho, ?_⟩
  have hsole (hsole : t.Sole) : s.Sole := hsole.earlier ho.meanwhile.called
  have hsuits := h.suits
  cases work with
  | activity a =>
    cases a with
    | session => trivial
    | connect | retry => exact hsuits
    | supervise | run => exact fun hs => hsuits (hsole hs)
  | _ => exact fun hs => hsuits (hsole hs)

/-- A round of any work is secure. -/
theorem secure_program (h : s.Begins settings task work) :
    Secure settings task work (fun next t => t.Ends settings task work next)
      (work.program settings) s := by
  obtain ⟨hs, hsuits⟩ := h
  have hover {t : Site} (ht : t.Ready settings task []) (hnot : ¬ s.Sole)
      (hcalled : s.called <+: t.called) : t.Ends settings task work none :=
    ⟨ht, .inr fun _ hsole => absurd (hsole.earlier hcalled) hnot⟩
  cases work with
  | activity a =>
    exact During.bind ((secure_runOnce a ⟨hs, hsuits⟩).mono fun _ _ ht => During.pure ht)
  | ensure =>
    refine During.bind ((secure_ensureContacts hs rfl).called.mono fun _ t ht => ?_)
    exact During.pure (hover ht.1 hsuits ht.2)
  | init =>
    refine During.bind ((secure_ensureContacts hs rfl).called.mono fun _ t ht => During.pure ?_)
    exact ⟨rfl, ht.1, fun hsole => hsuits (hsole.earlier ht.2)⟩
  | dial =>
    refine During.bind ((secure_dialOnce hs rfl rfl).called.mono fun result t ht => ?_)
    cases result with
    | none => exact During.pure ⟨rfl, ht.1, fun hsole => hsuits (hsole.earlier ht.2)⟩
    | some _ => exact During.pure (hover ht.1 hsuits ht.2)
  | select choice =>
    refine During.bind ((secure_choose hs rfl rfl choice).called.mono ?_)
    rintro (choice | contact?) t ⟨⟨ht, hseen⟩, hcalled⟩
    · exact During.pure ⟨rfl, ht, fun hsole => hsuits (hsole.earlier hcalled)⟩
    · cases contact? with
      | none => exact During.pure (hover ht hsuits hcalled)
      | some contact =>
        refine Secure.ask ht rfl (hseen contact rfl) fun _ u _ hu => During.pure ?_
        exact hover (hu.stance ht.minds ht.owing ht.enrolled) hsuits
          (hcalled.trans hu.meanwhile.called)

end

end BlockSync.Network

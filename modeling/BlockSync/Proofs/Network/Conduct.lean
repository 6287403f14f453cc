import BlockSync.Proofs.Network.Listing
import BlockSync.Proofs.Session.Dialing
import BlockSync.Proofs.Session.Leaving

/-! What tasks ask for. Between any two of its operations a task finds what the others leave to it,
and that is enough for it to leave to them what they rely on, to its end. -/

namespace BlockSync.Network

open BlockSync.Network.Action

namespace Site

/-- What others make of a site after an operation of a task. -/
structure Others (settings : Settings) (task : TaskId) (s t : Site) : Prop where
  fit : t.Fit settings
  meanwhile : Meanwhile task s t

/-- How a task stands that owes certain operations and may have to wait for certain tasks. -/
structure Stance (settings : Settings) (task : TaskId) (ids : List TaskId) (ops : List Op)
    (s : Site) : Prop where
  fit : s.Fit settings
  minds : s.Minds task ids
  owing : s.owing task = ops
  enrolled : s.enroller = some task → s.added = enrolled settings.peers 0

abbrev Ready (settings : Settings) (task : TaskId) (ids : List TaskId) (s : Site) : Prop :=
  s.Stance settings task ids []

end Site

/-- A task asks only for what it may ask for, and ends as described, whatever the others do. -/
def Secure (settings : Settings) (task : TaskId) (work : Work) {α : Type} (post : α → Site → Prop)
    (p : Action α) (s : Site) : Prop :=
  During settings task (Asks settings task work) (Site.Others settings task) post p s

section

variable {settings : Settings} {task : TaskId} {work : Work} {ids : List TaskId} {ops : List Op}
  {op : Op} {s t u : Site}

theorem Site.Others.refl (h : s.Fit settings) : s.Others settings task s := ⟨h, .refl s⟩

theorem Site.Others.trans (h : s.Others settings task t) (h' : t.Others settings task u) :
    s.Others settings task u := ⟨h'.fit, h.meanwhile.trans h'.meanwhile⟩

theorem Site.Others.of_meanwhile (h : Site.Meanwhile task s t) (h' : t.Others settings task u) :
    s.Others settings task u := ⟨h'.fit, h.trans h'.meanwhile⟩

theorem Site.Others.stance (ho : s.Others settings task t) (hminds : s.Minds task ids)
    (howing : s.owing task = ops)
    (henrolled : s.enroller = some task → s.added = BlockSync.Network.enrolled settings.peers 0) :
    t.Stance settings task ids ops := by
  refine ⟨ho.fit, ho.meanwhile.minds ids hminds, ho.meanwhile.owing.trans howing, fun he => ?_⟩
  have hbefore := ho.meanwhile.enroller.mp he
  rw [(ho.meanwhile.enrolling hbefore).1]
  exact henrolled hbefore

theorem Site.Stance.others (h : s.Stance settings task ids ops) (ho : s.Others settings task t) :
    t.Stance settings task ids ops := ho.stance h.minds h.owing h.enrolled

theorem Site.Stance.asks (h : s.Ready settings task ids)
    (haside : work.isAside = true → ∃ id op', op = .session id op')
    (hproper : s.Proper settings task work op) : Asks settings task work s op := by
  refine ⟨fun duty rest hduty => ?_, fun he => .inl (h.enrolled he), haside, hproper⟩
  rw [h.owing] at hduty
  cases hduty

theorem Site.Stance.may (h : s.Ready settings task ids) (haside : work.isAside = false)
    (hproper : s.Proper settings task work op) : Asks settings task work s op :=
  h.asks (fun hthere => by rw [haside] at hthere; cases hthere) hproper

section

variable {id : SessionId}

theorem Site.Stance.afterOn {op : Session.Op} (h : s.Stance settings task ids ops)
    (ho : (s.afterOn settings task id op).Others settings task t) :
    t.Stance settings task ids ops := by
  refine ho.stance (Site.minds_of_comes (fun _ hu => Site.comes_afterOn hu) h.minds) ?_ ?_
  · rw [Site.afterOn_owing]
    exact h.owing
  · rw [Site.afterOn_enroller, Site.afterOn_added]
    exact h.enrolled

theorem proper_of_routine {op : Session.Op} (hs : s.Whole)
    (hop : Session.Routine.Asks settings (fun _ => True) False op)
    (hmute : op.IsAnnouncement → work.isReceiving = true) :
    s.Proper settings task work (.session id op) := by
  cases op with
  | update f =>
    rcases hop with hf | hf
    · refine ⟨fun i hi => ?_, fun _ => hf.closed _, hf.loose.closes _⟩
      rcases hf.heartbeat (s.sessions id) with hsame | hnone
      · exact hs id i (hsame ▸ hi)
      · rw [hnone] at hi
        cases hi
    · exact hf.1.elim
  | abort => exact hop.elim
  | announce m => exact hmute trivial
  | _ => trivial

theorem secure_session {α : Type} {post : α → Prop} {p : Session.Action α}
    (h : Session.Routine settings (fun _ => True) False post p)
    (hmute : work.isReceiving = false → Session.Mute p) (hdial : work.isDial = false)
    (hs : s.Ready settings task ids) (id : SessionId) :
    Secure settings task work (fun _ t => s.Others settings task t) (session id p) s := by
  induction p generalizing s with
  | done a => exact .refl hs.fit
  | ask op next ih =>
    have hproper : s.Proper settings task work (.session id op) := by
      refine proper_of_routine hs.fit.whole h.1 fun hop => ?_
      by_contra hnot
      exact (hmute (Bool.not_eq_true _ ▸ hnot)).1 hop
    refine ⟨hs.asks (fun _ => ⟨id, op, rfl⟩) hproper, ?_⟩
    rintro r t ⟨hr, ho⟩
    have hgives := Session.gives_of_allows hr.session
    have hmeanwhile : Site.Meanwhile task s (s.afterOn settings task id op) :=
      Site.meanwhile_afterOn hproper fun _ => hdial
    refine During.mono (ih r (h.2 r () hgives) (fun hnot => (hmute hnot).2 r trivial)
      (hs.afterOn ho)) fun _ u hu => ?_
    exact .of_meanwhile hmeanwhile (ho.trans hu)

end

def SecureOn (settings : Settings) (task : TaskId) (work : Work) (id : SessionId) {α : Type}
    (post : α → Site → Prop) (p : Session.Action α) (s : Site) : Prop :=
  p.Ensures (fun s op => Asks settings task work s (.session id op))
    (fun s op r t => s.Allows (.session id op) r ∧
      (s.afterOn settings task id op).Others settings task t) post s

section

variable {id : SessionId} {α β : Type} {post : α → Site → Prop} {post' : β → Site → Prop}

theorem SecureOn.secure {p : Session.Action α} (h : SecureOn settings task work id post p s) :
    Secure settings task work post (session id p) s := by
  refine .embed (Program.Ensures.matched (R := Eq) h rfl ?_ ?_ ?_)
  · rintro s _ op rfl hop
    exact hop
  · rintro s _ op _ t rfl _ ⟨r, rfl, hr⟩
    exact ⟨t, hr, rfl⟩
  · rintro a s _ rfl ha
    exact ha

theorem SecureOn.pure {a : α} (h : post a s) :
    SecureOn settings task work id post (Pure.pure a) s := h

theorem SecureOn.bind {p : Session.Action α} {f : α → Session.Action β}
    (h : SecureOn settings task work id
      (fun a t => SecureOn settings task work id post' (f a) t) p s) :
    SecureOn settings task work id post' (p >>= f) s := Program.Ensures.bind h

theorem SecureOn.mono {post' : α → Site → Prop} {p : Session.Action α}
    (h : SecureOn settings task work id post p s) (hpost : ∀ a t, post a t → post' a t) :
    SecureOn settings task work id post' p s := Program.Ensures.mono h hpost

theorem SecureOn.ite {c : Prop} [Decidable c] {p q : Session.Action α}
    (hp : c → SecureOn settings task work id post p s)
    (hq : ¬ c → SecureOn settings task work id post q s) :
    SecureOn settings task work id post (if c then p else q) s := Program.Ensures.ite hp hq

theorem SecureOn.ask {op : Session.Op} {f : Session.interface.Answer op → Session.Action β}
    (hs : s.Ready settings task ids) (haside : work.isAside = false)
    (hop : s.Proper settings task work (.session id op))
    (hf : ∀ r t, s.Allows (.session id op) r →
      (s.afterOn settings task id op).Others settings task t → t.Ready settings task ids →
      SecureOn settings task work id post' (f r) t) :
    SecureOn settings task work id post'
      (Program.request (I := Session.interface) op >>= f) s :=
  ⟨hs.may haside hop, fun r t ht => hf r t ht.1 ht.2 (hs.afterOn ht.2)⟩

theorem permits_look (hs : s.Ready settings task ids) : s.Permits work id fun x => x := by
  refine ⟨hs.fit.whole id, fun _ h => h, fun hopen hclosed => ?_⟩
  rw [hopen] at hclosed
  cases hclosed

theorem secureOn_easy {p : Session.Action α} (h : Session.Easy p)
    (hs : s.Ready settings task ids) (haside : work.isAside = false) (hdial : work.isDial = true) :
    SecureOn settings task work id (fun _ t => t.Ready settings task ids) p s := by
  induction p generalizing s with
  | done a => exact hs
  | ask op next ih =>
    have hproper : s.Proper settings task work (.session id op) := by
      obtain ⟨hop, -⟩ := h
      cases op with
      | update f =>
        refine ⟨fun i hi => ?_, fun hnot => ?_, hop.closes _⟩
        · rcases hop.heartbeat (s.sessions id) with hsame | hnone
          · exact hs.fit.whole id i (hsame ▸ hi)
          · rw [hnone] at hi
            cases hi
        · rw [hdial] at hnot
          cases hnot
      | abort | announce => exact hop.elim
      | _ => trivial
    exact ⟨hs.may haside hproper, fun r t ht => ih r (h.2 r trivial) (hs.afterOn ht.2)⟩

theorem secureOn_startHeartbeat (hs : s.Ready settings task ids) (haside : work.isAside = false) :
    SecureOn settings task work id (fun _ t => t.Ready settings task ids)
      Session.startHeartbeat s := by
  refine .ask hs haside (permits_look hs) fun before t _ _ ht => ?_
  refine .ask ht haside trivial fun started u hstarted hu hready => ?_
  change started = t.nextTask at hstarted
  have hstart : Site.Aside (t.afterOn settings task id (.spawn (.heartbeat before.transport)))
      started := by
    refine ⟨hstarted ▸ Nat.lt_succ_self t.nextTask, fun v hv hid => ?_⟩
    rcases List.mem_append.mp hv with hold | hnew
    · exact absurd (hid.trans hstarted) (Nat.ne_of_lt (ht.fit.sane.fresh v hold))
    · rw [List.mem_singleton.mp hnew]
      rfl
  refine .ask hready haside ⟨fun i hi => ?_, fun _ h => h, fun hopen hclosed => ?_⟩
    fun before v hbefore hv hready' => ?_
  · cases hi
    exact hu.meanwhile.aside started hstart
  · change (u.sessions id).closed = true at hclosed
    rw [hopen] at hclosed
    cases hclosed
  · have hsame : before = u.sessions id := hbefore
    cases hold : before.heartbeat with
    | none => exact hready'
    | some old =>
      -- The heartbeat before may be over, but no other work has its number.
      have hwhole : u.Aside old := hready.fit.whole id old (hsame ▸ hold)
      exact ⟨hready'.may haside ⟨haside, hv.meanwhile.aside old hwhole⟩,
        fun _ _ hw => hready'.afterOn hw.2⟩

theorem secureOn_connectOnce (hs : s.Ready settings task ids) (haside : work.isAside = false)
    (hdial : work.isDial = true) (target : Address) :
    SecureOn settings task work id (fun _ t => t.Ready settings task ids)
      (Session.connectOnce settings target) s := by
  have heasy {γ : Type} {q : Session.Action γ} (h : Session.Easy q) {t : Site}
      (ht : t.Ready settings task ids) :
      SecureOn settings task work id (fun _ u => u.Ready settings task ids) q t :=
    secureOn_easy h ht haside hdial
  refine .ask hs haside (permits_look hs) fun before t _ _ ht => .ite (fun _ => .pure ht) fun _ => ?_
  refine .bind ((heasy Session.easy_shut ht).mono fun _ u hu => ?_)
  refine .bind ((heasy Session.easy_reset hu).mono fun _ v hv => ?_)
  refine .bind ((heasy (Session.easy_openLink settings target) hv).mono fun link? w hw => ?_)
  cases link? with
  | none => exact .pure hw
  | some link =>
    refine .bind ((heasy (Session.easy_install link) hw).mono fun _ x hx => ?_)
    refine .bind ((heasy Session.easy_estimateLatency hx).mono fun ok y hy => .ite (fun _ => ?_) ?_)
    · exact .bind ((heasy Session.easy_shut hy).mono fun _ _ hz => .pure hz)
    · intro _
      have hup : Session.Easy (Session.Action.modify (Session.setConnected true)) :=
        .ask (Session.loose_setConnected true) fun _ => trivial
      refine .bind ((heasy hup hy).mono fun _ z hz => ?_)
      exact .bind ((secureOn_startHeartbeat hz haside).mono fun _ _ h => .pure h)

theorem secure_connect (hs : s.Ready settings task ids) (contact : Contact) :
    Secure settings task (.activity (.connect contact)) (fun _ t => t.Ready settings task ids)
      (session contact.session (Session.connect settings contact.address)) s := by
  refine SecureOn.secure (.ask hs rfl trivial fun _ t _ _ ht => .bind ?_)
  refine (secureOn_connectOnce ht rfl rfl contact.address).mono fun connected u hu => ?_
  exact .ask hu rfl trivial fun _ _ _ _ hv => .pure hv

end

end

end BlockSync.Network

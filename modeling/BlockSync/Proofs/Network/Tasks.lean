import BlockSync.Proofs.Network.Site

/-! Who started whom, and what a task may ask for. Apart from what goes on beside sessions, every
task was called or has the task that started it above it. What a task asks for with regard to the
others leaves them what they rely on between their own operations. -/

namespace BlockSync.Network

open BlockSync.Network.Action

/-- The contacts of a list of peers, when so many sessions exist already. -/
def enrolled : List String → SessionId → List Contact
  | [], _ => []
  | peer :: rest, session =>
    match Address.ofText peer with
    | .ok address => { session, peer, address } :: enrolled rest (session + 1)
    | .error _ => enrolled rest session

theorem enrolled_of_ok {peer : String} {address : Address}
    (h : Address.ofText peer = .ok address) (rest : List String) (session : SessionId) :
    enrolled (peer :: rest) session =
      { session, peer, address } :: enrolled rest (session + 1) := by
  rw [enrolled, h]

theorem enrolled_of_error {peer : String} {fault : AddressFault}
    (h : Address.ofText peer = .error fault) (rest : List String) (session : SessionId) :
    enrolled (peer :: rest) session = enrolled rest session := by
  rw [enrolled, h]

/-- Operations by which the configured peers are added. -/
def Op.Enrolls : Op → Prop
  | .create _ | .enlist _ => True
  | _ => False

namespace Site

def Aside (s : Site) (task : TaskId) : Prop :=
  task < s.nextTask ∧ ∀ t ∈ s.tasks, t.id = task → t.work.isAside = true

/-- What a task has started is over or among certain tasks, or goes on beside a session. -/
def Minds (s : Site) (task : TaskId) (ids : List TaskId) : Prop :=
  ∀ t ∈ s.tasks, t.parent = some task → t.work.isAside = false → t.id ∈ ids

def Calm (s : Site) (task : TaskId) : Prop :=
  ∀ t ∈ s.tasks, t.id ≠ task → t.work.isAside = true

/-- Nothing was called but the supervisor itself, and that once. -/
def Sole (s : Site) : Prop := s.called <+: [.activity .run]

/-- Every task that does not go on beside a session was called, or the task that started it is still
there. -/
structure Sane (s : Site) : Prop where
  fresh : ∀ t ∈ s.tasks, t.id < s.nextTask
  unique : ∀ t ∈ s.tasks, ∀ u ∈ s.tasks, t.id = u.id → t = u
  parent : ∀ t ∈ s.tasks, ∀ id, t.parent = some id → id < t.id
  rooted : ∀ t ∈ s.tasks, t.work.isAside = false →
    t.parent = none ∨ ∃ g ∈ s.tasks, g.work.isAside = false ∧ t.parent = some g.id
  first : s.called = [] → s.nextTask = 0
  called : s.Sole → ∀ t ∈ s.tasks, t.parent = none → t.id = 0

def Whole (s : Site) : Prop := ∀ id task, (s.sessions id).heartbeat = some task → s.Aside task

/-- A shutdown was requested, and no contact has an open transport. -/
structure Shut (s : Site) : Prop where
  stopping : s.stopping = true
  closed : ∀ c ∈ s.network.contacts, (s.sessions c.session).closed = true

/-- A change of a session that has none but tasks beside a session for heartbeats, opens no
transport unless it is somebody's work to dial, and closes none that counts as connected then. -/
structure Permits (s : Site) (work : Work) (id : SessionId) (f : Session → Session) : Prop where
  heartbeat : ∀ task, (f (s.sessions id)).heartbeat = some task → s.Aside task
  closed : work.isDial = false → (s.sessions id).closed = true → (f (s.sessions id)).closed = true
  shuts : (s.sessions id).closed = false → (f (s.sessions id)).closed = true →
    (f (s.sessions id)).connected = false

/-- What becomes a task at a site. -/
def Proper (settings : Settings) (task : TaskId) (work : Work) (s : Site) : Op → Prop
  | .session id (.update f) => s.Permits work id f
  | .session _ (.abort other) => work.isAside = false ∧ s.Aside other
  | .session _ (.announce _) => work.isReceiving = true
  | .setActive (some contact) | .report contact => contact ∈ s.seen task
  | .forget peer => ∃ rest, s.owing task = .forget peer :: rest
  | .deactivate peer => ∃ rest, s.owing task = .deactivate peer :: rest
  | .create peer =>
    s.enroller = some task ∧ s.peers ++ [peer] <+: (enrolled settings.peers 0).map (·.peer)
  | .enlist contact =>
    s.enroller = some task ∧ s.added ++ [contact] <+: enrolled settings.peers 0 ∧
      (s.added ++ [contact]).map (·.peer) <+: s.peers
  | .departures => s.owing task = []
  | .spawn (.connect _) | .spawn .retry => True
  | .spawn _ => False
  | _ => True

end Site

/-- What a task may ask for: what it owes before all else, and as long as it has peers to add, that.
What goes on beside a session keeps to sessions. -/
structure Asks (settings : Settings) (task : TaskId) (work : Work) (s : Site) (op : Op) : Prop where
  duty : ∀ duty rest, s.owing task = duty :: rest → op = duty
  enrolls : s.enroller = some task → s.added = enrolled settings.peers 0 ∨ op.Enrolls
  aside : work.isAside = true → ∃ id op', op = .session id op'
  proper : s.Proper settings task work op

namespace Site

/-- What others leave to a task. -/
structure Meanwhile (task : TaskId) (s t : Site) : Prop where
  called : s.called <+: t.called
  aside : ∀ other, s.Aside other → t.Aside other
  minds : ∀ ids, s.Minds task ids → t.Minds task ids
  stopping : s.stopping = true → t.stopping = true
  seen : t.seen task = s.seen task
  owing : t.owing task = s.owing task
  enroller : t.enroller = some task ↔ s.enroller = some task
  enrolling : s.enroller = some task → t.added = s.added ∧ t.peers = s.peers
  calm : t.Sole → s.Calm task → t.Calm task ∧ t.network = s.network ∧
    ∀ id, (s.sessions id).closed = true → (t.sessions id).closed = true

section

variable {s t u : Site} {task : TaskId}

theorem Sole.earlier (h : t.Sole) (hcalled : s.called <+: t.called) : s.Sole := hcalled.trans h

theorem Meanwhile.refl (s : Site) : Meanwhile task s s :=
  ⟨List.prefix_refl _, fun _ h => h, fun _ h => h, id, rfl, rfl, .rfl, fun _ => ⟨rfl, rfl⟩,
    fun _ h => ⟨h, rfl, fun _ h => h⟩⟩

theorem Meanwhile.trans (h : Meanwhile task s t) (h' : Meanwhile task t u) :
    Meanwhile task s u := by
  refine ⟨h.called.trans h'.called, fun other ho => h'.aside other (h.aside other ho),
    fun ids hi => h'.minds ids (h.minds ids hi), fun hs => h'.stopping (h.stopping hs),
    h'.seen.trans h.seen, h'.owing.trans h.owing, h'.enroller.trans h.enroller, fun he => ?_,
    fun hsole hc => ?_⟩
  · obtain ⟨hadded, hpeers⟩ := h.enrolling he
    obtain ⟨hadded', hpeers'⟩ := h'.enrolling (h.enroller.mpr he)
    exact ⟨hadded'.trans hadded, hpeers'.trans hpeers⟩
  · obtain ⟨hcalm, hnetwork, hclosed⟩ := h.calm (hsole.earlier h'.called) hc
    obtain ⟨hcalm', hnetwork', hclosed'⟩ := h'.calm hsole hcalm
    exact ⟨hcalm', hnetwork'.trans hnetwork, fun id hid => hclosed' id (hclosed id hid)⟩

def Comes (s : Site) (task : TaskId) (u : Task) : Prop :=
  (∃ v ∈ s.tasks, v.id = u.id ∧ v.parent = u.parent ∧ v.work.isAside = u.work.isAside) ∨
  s.nextTask ≤ u.id ∧ (u.parent = some task → u.work.isAside = true)

theorem comes_of_mem {u : Task} (h : u ∈ s.tasks) : s.Comes task u := .inl ⟨u, h, rfl, rfl, rfl⟩

theorem aside_of_comes (hnext : s.nextTask ≤ t.nextTask) (htasks : ∀ u ∈ t.tasks, s.Comes task u)
    {other : TaskId} (h : s.Aside other) : t.Aside other := by
  refine ⟨Nat.lt_of_lt_of_le h.1 hnext, fun u hu hid => ?_⟩
  rcases htasks u hu with ⟨v, hv, hvid, -, haside⟩ | ⟨hfresh, -⟩
  · rw [← haside]
    exact h.2 v hv (hvid.trans hid)
  · rw [hid] at hfresh
    exact absurd hfresh (Nat.not_le_of_lt h.1)

theorem minds_of_comes (htasks : ∀ u ∈ t.tasks, s.Comes task u) {ids : List TaskId}
    (h : s.Minds task ids) : t.Minds task ids := by
  intro u hu hparent haside
  rcases htasks u hu with ⟨v, hv, hid, hvparent, hvaside⟩ | ⟨-, hnew⟩
  · rw [← hid]
    exact h v hv (hvparent.trans hparent) (hvaside.trans haside)
  · rw [hnew hparent] at haside
    cases haside

theorem Sane.calm (h : s.Sane) (hsole : s.Sole) (hminds : s.Minds 0 []) : s.Calm 0 := by
  -- Whoever is there has somebody before it, down to a task that the first one started.
  have hnone (n : Nat) : ∀ t ∈ s.tasks, t.id = n → t.id ≠ 0 → t.work.isAside = true := by
    induction n using Nat.strongRecOn with
    | _ n ih =>
      intro t ht hid hne
      by_contra haside
      rw [Bool.not_eq_true] at haside
      rcases h.rooted t ht haside with hroot | ⟨g, hg, hgaside, hparent⟩
      · exact hne (h.called hsole t ht hroot)
      · by_cases hgzero : g.id = 0
        · rw [hgzero] at hparent
          exact List.not_mem_nil (hminds t ht hparent haside)
        · have hlt : g.id < n := hid ▸ h.parent t ht g.id hparent
          rw [ih g.id hlt g hg rfl hgzero] at hgaside
          cases hgaside
  exact fun t ht hne => hnone t.id t ht rfl hne

theorem Sane.of_same (h : s.Sane) (htasks : t.tasks = s.tasks) (hnext : t.nextTask = s.nextTask)
    (hcalled : t.called = s.called) : t.Sane := by
  refine ⟨?_, ?_, ?_, ?_, ?_, ?_⟩
  · rw [htasks, hnext]
    exact h.fresh
  · rw [htasks]
    exact h.unique
  · rw [htasks]
    exact h.parent
  · rw [htasks]
    exact h.rooted
  · rw [hcalled, hnext]
    exact h.first
  · rw [Sole, htasks, hcalled]
    exact h.called

theorem Sane.minds_next (h : s.Sane) : s.Minds s.nextTask [] := by
  intro t ht hparent
  have hlt := h.parent t ht _ hparent
  exact absurd (Nat.lt_trans hlt (h.fresh t ht)) (Nat.lt_irrefl _)

theorem Sane.append (h : s.Sane) (parent : Option TaskId) {work : Work}
    {program : Action (Option Work)} (hparent : ∀ id, parent = some id → id < s.nextTask)
    (hrooted : work.isAside = false → parent = none ∨
      ∃ g ∈ s.tasks, g.work.isAside = false ∧ parent = some g.id)
    (htasks : t.tasks = s.tasks ++ [⟨s.nextTask, parent, work, program⟩])
    (hnext : t.nextTask = s.nextTask + 1) (hfirst : t.called ≠ [])
    (hcalled : s.called <+: t.called) (hzero : t.Sole → parent = none → s.nextTask = 0) :
    t.Sane := by
  have hmem {u : Task} (hu : u ∈ t.tasks) :
      u ∈ s.tasks ∨ u = ⟨s.nextTask, parent, work, program⟩ := by
    rw [htasks] at hu
    exact (List.mem_append.mp hu).imp_right List.mem_singleton.mp
  have hold {g : Task} (hg : g ∈ s.tasks) : g ∈ t.tasks := by
    rw [htasks]
    exact List.mem_append_left _ hg
  refine ⟨?_, ?_, ?_, ?_, fun hnone => absurd hnone hfirst, ?_⟩
  · intro u hu
    rw [hnext]
    rcases hmem hu with hu | rfl
    · exact Nat.lt_succ_of_lt (h.fresh u hu)
    · exact Nat.lt_succ_self s.nextTask
  · intro u hu v hv hid
    rcases hmem hu with hu | rfl <;> rcases hmem hv with hv | rfl
    · exact h.unique u hu v hv hid
    · exact absurd hid (Nat.ne_of_lt (h.fresh u hu))
    · exact absurd hid.symm (Nat.ne_of_lt (h.fresh v hv))
    · rfl
  · intro u hu id hid
    rcases hmem hu with hu | rfl
    · exact h.parent u hu id hid
    · exact hparent id hid
  · intro u hu hopen
    rcases hmem hu with hu | rfl
    · refine (h.rooted u hu hopen).imp_right ?_
      rintro ⟨g, hg, hrest⟩
      exact ⟨g, hold hg, hrest⟩
    · refine (hrooted hopen).imp_right ?_
      rintro ⟨g, hg, hrest⟩
      exact ⟨g, hold hg, hrest⟩
  · intro hsole u hu hnone
    rcases hmem hu with hu | rfl
    · exact h.called (hsole.earlier hcalled) u hu hnone
    · exact hzero hsole hnone

theorem Sane.start (h : s.Sane) {settings : Settings} {starter : Task} {work : Work}
    (hstarter : starter ∈ s.tasks)
    (haside : work.isAside = false → starter.work.isAside = false) :
    (s.start settings (some starter.id) work).Sane := by
  refine h.append (some starter.id) ?_ (fun hopen => ?_) rfl rfl ?_ (List.prefix_refl _)
    (fun _ hnone => nomatch hnone)
  · rintro _ ⟨⟩
    exact h.fresh starter hstarter
  · exact .inr ⟨starter, hstarter, haside hopen, rfl⟩
  · intro hnone
    exact Nat.not_lt_zero _ (h.first hnone ▸ h.fresh starter hstarter)

theorem Sane.call (h : s.Sane) (settings : Settings) (work : Work) :
    (s.call settings work).Sane := by
  refine h.append none (fun _ hid => nomatch hid) (fun _ => .inl rfl) rfl rfl ?_
    (List.prefix_append _ _) fun hsole _ => h.first ?_
  · exact List.append_ne_nil_of_right_ne_nil _ (List.cons_ne_nil _ _)
  · have hlength := hsole.length_le
    change (s.called ++ [work]).length ≤ 1 at hlength
    rw [List.length_append, List.length_singleton] at hlength
    exact List.eq_nil_of_length_eq_zero (by omega)

theorem Sane.remove (h : s.Sane) {id : TaskId}
    (hfree : (∀ t ∈ s.tasks, t.id = id → t.work.isAside = true) ∨ s.Minds id []) :
    (s.remove id).Sane := by
  have hmem {t : Task} (ht : t ∈ (s.remove id).tasks) : t ∈ s.tasks := (List.mem_filter.mp ht).1
  refine ⟨fun t ht => h.fresh t (hmem ht), fun t ht u hu => h.unique t (hmem ht) u (hmem hu),
    fun t ht => h.parent t (hmem ht), fun t ht hopen => ?_, h.first,
    fun hsole t ht => h.called hsole t (hmem ht)⟩
  refine (h.rooted t (hmem ht) hopen).imp_right ?_
  rintro ⟨g, hg, hgopen, hparent⟩
  refine ⟨g, List.mem_filter.mpr ⟨hg, ?_⟩, hgopen, hparent⟩
  rw [decide_eq_true_eq]
  rintro rfl
  rcases hfree with haside | hminds
  · rw [haside g hg rfl] at hgopen
    cases hgopen
  · exact List.not_mem_nil (hminds t (hmem ht) hparent hopen)

structure Continues (s : Site) (id : TaskId) (f : Task → Task) : Prop where
  same : ∀ t, (f t).id = t.id
  parent : ∀ t, (f t).parent = t.parent
  aside : ∀ t ∈ s.tasks, t.id = id → (f t).work.isAside = t.work.isAside

theorem Continues.mem {id : TaskId} {f : Task → Task} (hf : s.Continues id f) {t : Task}
    (ht : t ∈ (s.mapTask id f).tasks) :
    ∃ v ∈ s.tasks, v.id = t.id ∧ v.parent = t.parent ∧ v.work.isAside = t.work.isAside ∧
      t = if v.id = id then f v else v := by
  obtain ⟨v, hv, rfl⟩ := List.mem_map.mp ht
  refine ⟨v, hv, ?_⟩
  split
  · next hid => exact ⟨(hf.same v).symm, (hf.parent v).symm, (hf.aside v hv hid).symm, rfl⟩
  · exact ⟨rfl, rfl, rfl, rfl⟩

theorem Sane.mapTask (h : s.Sane) {id : TaskId} {f : Task → Task} (hf : s.Continues id f) :
    (s.mapTask id f).Sane := by
  refine ⟨?_, ?_, ?_, ?_, h.first, ?_⟩
  · intro t ht
    obtain ⟨v, hv, hid, -⟩ := hf.mem ht
    rw [← hid]
    exact h.fresh v hv
  · intro t ht u hu hid
    obtain ⟨v, hv, hvid, -, -, rfl⟩ := hf.mem ht
    obtain ⟨w, hw, hwid, -, -, rfl⟩ := hf.mem hu
    rw [h.unique v hv w hw (hvid.trans (hid.trans hwid.symm))]
  · intro t ht id' hid'
    obtain ⟨v, hv, hid, hparent, -⟩ := hf.mem ht
    rw [← hid]
    exact h.parent v hv id' (hparent.trans hid')
  · intro t ht hopen
    obtain ⟨v, hv, hid, hparent, haside, -⟩ := hf.mem ht
    rw [← hparent]
    refine (h.rooted v hv (haside.trans hopen)).imp_right ?_
    rintro ⟨g, hg, hgopen, hgparent⟩
    refine ⟨if g.id = id then f g else g, List.mem_map.mpr ⟨g, hg, rfl⟩, ?_⟩
    split
    · next hgid => exact ⟨(hf.aside g hg hgid).trans hgopen, hgparent.trans (by rw [hf.same])⟩
    · exact ⟨hgopen, hgparent⟩
  · intro hsole t ht hnone
    obtain ⟨v, hv, hid, hparent, -⟩ := hf.mem ht
    rw [← hid]
    exact h.called hsole v hv (hparent.trans hnone)

theorem Continues.comes {id : TaskId} {f : Task → Task} (hf : s.Continues id f) {t : Task}
    (ht : t ∈ (s.mapTask id f).tasks) : s.Comes task t := by
  obtain ⟨v, hv, hid, hparent, haside, -⟩ := hf.mem ht
  exact .inl ⟨v, hv, hid, hparent, haside⟩

theorem Whole.of_aside (h : s.Whole) (hsessions : t.sessions = s.sessions)
    (haside : ∀ other, s.Aside other → t.Aside other) : t.Whole := by
  intro id task htask
  rw [hsessions] at htask
  exact haside task (h id task htask)

end

section

variable {settings : Settings} {task other : TaskId} {work : Work} {s t : Site}

theorem sessions_mapSession (id : SessionId) (f : Session → Session) (s : Site) (id' : SessionId) :
    ((s.mapSession id f).sessions id' = s.sessions id' ∧ id' ≠ id) ∨
      (s.mapSession id f).sessions id' = f (s.sessions id') ∧ id' = id := by
  by_cases hid : id' = id
  · subst hid
    exact .inr ⟨Function.update_self _ _ _, rfl⟩
  · exact .inl ⟨Function.update_of_ne hid _ _, hid⟩

theorem Whole.mapSession (h : s.Whole) {id : SessionId} {f : Session → Session}
    (hf : ∀ task, (f (s.sessions id)).heartbeat = some task → s.Aside task) :
    (s.mapSession id f).Whole := by
  intro id' task htask
  change s.Aside task
  rcases sessions_mapSession id f s id' with ⟨hsame, -⟩ | ⟨hchanged, rfl⟩
  · rw [hsame] at htask
    exact h id' task htask
  · rw [hchanged] at htask
    exact hf task htask

theorem comes_afterOn {id : SessionId} {op : Session.Op} {u : Task}
    (hu : u ∈ (s.afterOn settings task id op).tasks) : s.Comes other u := by
  cases op with
  | spawn a =>
    rcases List.mem_append.mp hu with hold | hnew
    · exact comes_of_mem hold
    · rw [List.mem_singleton] at hnew
      subst hnew
      exact .inr ⟨Nat.le_refl _, fun _ => rfl⟩
  | abort id => exact comes_of_mem (List.mem_filter.mp hu).1
  | _ => exact comes_of_mem hu

theorem calm_afterOn {id : SessionId} {op : Session.Op} (h : s.Calm other) :
    (s.afterOn settings task id op).Calm other := by
  cases op with
  | spawn a =>
    intro u hu hne
    rcases List.mem_append.mp hu with hold | hnew
    · exact h u hold hne
    · rw [List.mem_singleton] at hnew
      subst hnew
      rfl
  | abort id => exact fun u hu => h u (List.mem_filter.mp hu).1
  | _ => exact h

theorem nextTask_afterOn_le (id : SessionId) (op : Session.Op) :
    s.nextTask ≤ (s.afterOn settings task id op).nextTask := by
  cases op with
  | spawn a => exact Nat.le_succ _
  | _ => exact Nat.le_refl _

theorem closed_afterOn {id : SessionId} {op : Session.Op}
    (hop : s.Proper settings task work (.session id op)) (hdial : work.isDial = false)
    {id' : SessionId} (h : (s.sessions id').closed = true) :
    ((s.afterOn settings task id op).sessions id').closed = true := by
  rw [afterOn_sessions]
  by_cases hid : id' = id
  · subst hid
    rw [Function.update_self]
    cases op with
    | update f => exact hop.closed hdial h
    | _ => exact h
  · rw [Function.update_of_ne hid]
    exact h

/-- An operation on a session leaves everybody what they rely on, unless somebody relies on its
being closed and it is dialed. -/
theorem meanwhile_afterOn {id : SessionId} {op : Session.Op}
    (hop : s.Proper settings task work (.session id op))
    (hdial : s.Calm other → work.isDial = false) :
    Meanwhile other s (s.afterOn settings task id op) := by
  have hcomes (u : Task) (hu : u ∈ (s.afterOn settings task id op).tasks) : s.Comes other u :=
    comes_afterOn hu
  refine ⟨?_, fun _ h => aside_of_comes (nextTask_afterOn_le id op) hcomes h,
    fun _ h => minds_of_comes hcomes h, ?_, by rw [afterOn_seen], by rw [afterOn_owing],
    by rw [afterOn_enroller], fun _ => ⟨by rw [afterOn_added], by rw [afterOn_peers]⟩,
    fun _ hcalm => ⟨calm_afterOn hcalm, afterOn_network _ _ _ _ _,
      fun _ h => closed_afterOn hop (hdial hcalm) h⟩⟩
  · cases op <;> exact List.prefix_refl _
  · intro h
    cases op with
    | stop => rfl
    | _ => exact h

theorem whole_afterOn (h : s.Whole) {id : SessionId} {op : Session.Op}
    (hop : s.Proper settings task work (.session id op)) :
    (s.afterOn settings task id op).Whole := by
  have hcomes (u : Task) (hu : u ∈ (s.afterOn settings task id op).tasks) : s.Comes task u :=
    comes_afterOn hu
  have haside (i : TaskId) (hi : s.Aside i) : (s.afterOn settings task id op).Aside i :=
    aside_of_comes (nextTask_afterOn_le id op) hcomes hi
  cases op with
  | update f => exact h.mapSession hop.heartbeat
  | updatePeer | measure | startReading => exact h.mapSession (h id)
  | spawn | abort => exact h.of_aside rfl haside
  | _ =>
    refine h.of_aside ?_ fun _ h => h
    rw [afterOn_sessions]
    exact Function.update_eq_self _ _

theorem meanwhile_of_comes (hsessions : t.sessions = s.sessions)
    (hhistory : t.toHistory = { s.toHistory with called := t.called })
    (hcalled : s.called <+: t.called) (hpeers : t.peers = s.peers)
    (hnext : s.nextTask ≤ t.nextTask) (hcomes : ∀ u ∈ t.tasks, s.Comes other u)
    (hstopping : s.stopping = true → t.stopping = true) (hnetwork : t.network = s.network)
    (hcalm : t.Sole → s.Calm other → t.Calm other) : Meanwhile other s t := by
  refine ⟨hcalled, fun _ h => aside_of_comes hnext hcomes h, fun _ h => minds_of_comes hcomes h,
    hstopping, by rw [hhistory], by rw [hhistory], by rw [hhistory],
    fun _ => ⟨by rw [hhistory], hpeers⟩, fun hsole h => ⟨hcalm hsole h, hnetwork, fun id hid => ?_⟩⟩
  rw [hsessions]
  exact hid

theorem meanwhile_remove (id : TaskId) : Meanwhile other s (s.remove id) :=
  meanwhile_of_comes rfl rfl (List.prefix_refl _) rfl (Nat.le_refl _)
    (fun _ hu => comes_of_mem (List.mem_filter.mp hu).1) (fun h => h) rfl
    fun _ h u hu => h u (List.mem_filter.mp hu).1

theorem meanwhile_mapTask {id : TaskId} {f : Task → Task} (hf : s.Continues id f) :
    Meanwhile other s (s.mapTask id f) := by
  refine meanwhile_of_comes rfl rfl (List.prefix_refl _) rfl (Nat.le_refl _)
    (fun _ hu => hf.comes hu) (fun h => h) rfl fun _ h u hu hne => ?_
  obtain ⟨v, hv, hid, -, haside, -⟩ := hf.mem hu
  rw [← haside]
  exact h v hv (by rw [hid]; exact hne)

theorem meanwhile_interrupt : Meanwhile other s { s with stopping := true } :=
  meanwhile_of_comes rfl rfl (List.prefix_refl _) rfl (Nat.le_refl _)
    (fun _ hu => comes_of_mem hu) (fun _ => rfl) rfl fun _ h => h

theorem comes_append {parent : Option TaskId} {work : Work} {program : Action (Option Work)}
    (hparent : parent = some other → work.isAside = true) {u : Task}
    (hu : u ∈ s.tasks ++ [⟨s.nextTask, parent, work, program⟩]) : s.Comes other u := by
  rcases List.mem_append.mp hu with hold | hnew
  · exact comes_of_mem hold
  · rw [List.mem_singleton] at hnew
    subst hnew
    exact .inr ⟨Nat.le_refl _, hparent⟩

theorem meanwhile_call (h : s.Sane) (hother : other < s.nextTask) (settings : Settings)
    (work : Work) : Meanwhile other s (s.call settings work) := by
  refine meanwhile_of_comes rfl rfl (List.prefix_append _ _) rfl (Nat.le_succ _)
    (fun _ hu => comes_append (fun hnone => by cases hnone) hu) (fun h => h) rfl fun hsole _ => ?_
  have hlength := hsole.length_le
  change (s.called ++ [work]).length ≤ 1 at hlength
  rw [List.length_append, List.length_singleton] at hlength
  have hnone : s.called = [] := List.eq_nil_of_length_eq_zero (by omega)
  rw [h.first hnone] at hother
  exact absurd hother (Nat.not_lt_zero _)

theorem meanwhile_of_same (hsessions : t.sessions = s.sessions) (htasks : t.tasks = s.tasks)
    (hnext : t.nextTask = s.nextTask) (hcalled : t.called = s.called)
    (hstopping : s.stopping = true → t.stopping = true) (hseen : t.seen other = s.seen other)
    (howing : t.owing other = s.owing other)
    (henroller : t.enroller = some other ↔ s.enroller = some other)
    (henrolling : s.enroller = some other → t.added = s.added ∧ t.peers = s.peers)
    (hnetwork : s.Calm other → t.network = s.network) : Meanwhile other s t := by
  have hcomes (u : Task) (hu : u ∈ t.tasks) : s.Comes other u := comes_of_mem (htasks ▸ hu)
  refine ⟨hcalled ▸ List.prefix_refl _,
    fun _ h => aside_of_comes (Nat.le_of_eq hnext.symm) hcomes h,
    fun _ h => minds_of_comes hcomes h, hstopping, hseen, howing, henroller, henrolling,
    fun _ hcalm => ⟨?_, hnetwork hcalm, fun id hid => ?_⟩⟩
  · rw [Calm, htasks]
    exact hcalm
  · rw [hsessions]
    exact hid

theorem not_isDial_of_isAside {work : Work} (h : work.isAside = true) : work.isDial = false := by
  cases work with
  | activity a =>
    cases a with
    | session => rfl
    | _ => cases h
  | _ => rfl

/-- What one task does, all others may rely on. -/
theorem meanwhile_after {starter : Task} (hstarter : starter ∈ s.tasks) {op : Op}
    (hop : Asks settings starter.id starter.work s op) (hne : other ≠ starter.id)
    (hbefore : s.network.initialized = false → s.enroller = none) :
    Meanwhile other s (s.after settings starter.id op) := by
  have haside (hc : s.Calm other) : starter.work.isAside = true := hc starter hstarter hne.symm
  have hupdate {α : Type} (f : TaskId → α) (a : α) :
      Function.update f starter.id a other = f other := Function.update_of_ne hne _ _
  -- Where another task is the only one that does not go on beside a session, this one does.
  have hinside {t : Site} (hnever : ∀ id op', op ≠ .session id op') (hc : s.Calm other) :
      t.network = s.network := by
    obtain ⟨id, op', hsession⟩ := hop.aside (haside hc)
    exact absurd hsession (hnever id op')
  have hself {t : Site} (henroller : s.enroller = some starter.id)
      (h : s.enroller = some other) : t.added = s.added ∧ t.peers = s.peers := by
    rw [henroller] at h
    exact absurd (Option.some.inj h).symm hne
  have hproper := hop.proper
  cases op with
  | session id op =>
    exact meanwhile_afterOn hproper fun hc => not_isDial_of_isAside (haside hc)
  | spawn a =>
    have hcalm (hc : s.Calm other) : False := by
      obtain ⟨id, op', hsession⟩ := hop.aside (haside hc)
      cases hsession
    exact meanwhile_of_comes rfl rfl (List.prefix_refl _) rfl (Nat.le_succ _)
      (fun _ hu => comes_append (fun hparent => absurd (Option.some.inj hparent).symm hne) hu)
      (fun h => h) rfl fun _ hc => (hcalm hc).elim
  | stop =>
    exact meanwhile_interrupt
  | contacts =>
    exact meanwhile_of_same rfl rfl rfl rfl id (hupdate _ _) rfl .rfl (fun _ => ⟨rfl, rfl⟩)
      fun _ => rfl
  | enlist contact =>
    exact meanwhile_of_same rfl rfl rfl rfl id rfl rfl .rfl (hself hproper.1) (hinside nofun)
  | forget peer | deactivate peer =>
    exact meanwhile_of_same rfl rfl rfl rfl id rfl (hupdate _ _) .rfl (fun _ => ⟨rfl, rfl⟩)
      (hinside nofun)
  | setActive contact? =>
    exact meanwhile_of_same rfl rfl rfl rfl id (hupdate _ _) rfl .rfl (fun _ => ⟨rfl, rfl⟩)
      (hinside nofun)
  | markInitialized =>
    refine meanwhile_of_same rfl rfl rfl rfl id rfl rfl ?_ (fun _ => ⟨rfl, rfl⟩) (hinside nofun)
    change (if s.network.initialized then s.enroller else some starter.id) = some other ↔ _
    split
    · exact .rfl
    · next hinit =>
      rw [hbefore (Bool.eq_false_iff.mpr hinit)]
      exact ⟨fun h => absurd (Option.some.inj h).symm hne, nofun⟩
  | create peer =>
    exact meanwhile_of_same rfl rfl rfl rfl id rfl rfl .rfl (hself hproper.1) fun _ => rfl
  | departures =>
    exact meanwhile_of_same rfl rfl rfl rfl id rfl (hupdate _ _) .rfl (fun _ => ⟨rfl, rfl⟩)
      fun _ => rfl
  | instant | isStopping | active | report | join | pause =>
    exact meanwhile_of_same rfl rfl rfl rfl id rfl rfl .rfl (fun _ => ⟨rfl, rfl⟩) fun _ => rfl

theorem Sane.after {starter : Task} (h : s.Sane) (hstarter : starter ∈ s.tasks) {op : Op}
    (hop : Asks settings starter.id starter.work s op) :
    (s.after settings starter.id op).Sane := by
  have hproper := hop.proper
  cases op with
  | session id op =>
    cases op with
    | spawn a => exact h.start hstarter fun hopen => by cases hopen
    | abort id => exact h.remove (.inl hproper.2.2)
    | _ => exact h.of_same rfl rfl rfl
  | spawn a =>
    refine h.start hstarter fun _ => ?_
    by_contra haside
    obtain ⟨id, op', hsession⟩ := hop.aside (by rwa [Bool.not_eq_false] at haside)
    cases hsession
  | _ => exact h.of_same rfl rfl rfl

theorem Whole.after (h : s.Whole) {op : Op} (hop : s.Proper settings task work op) :
    (s.after settings task op).Whole := by
  cases op with
  | session id op => exact whole_afterOn h hop
  | spawn a =>
    have hcomes (u : Task) (hu : u ∈ (s.after settings task (.spawn a)).tasks) :
        s.Comes (task + 1) u :=
      comes_append (fun hparent => absurd (Option.some.inj hparent).symm (Nat.succ_ne_self _)) hu
    exact h.of_aside rfl fun _ hi => aside_of_comes (Nat.le_succ _) hcomes hi
  | _ => exact h

theorem mem_after {u : Task} {op : Op} (hop : s.Proper settings task work op) (hu : u ∈ s.tasks)
    (hkeep : u.work.isAside = false ∨ work.isAside = true) :
    u ∈ (s.after settings task op).tasks := by
  cases op with
  | session id op =>
    cases op with
    | spawn a => exact List.mem_append_left _ hu
    | abort id =>
      refine List.mem_filter.mpr ⟨hu, ?_⟩
      rw [decide_eq_true_eq]
      rintro rfl
      rcases hkeep with hopen | haside
      · rw [hop.2.2 u hu rfl] at hopen
        cases hopen
      · rw [hop.1] at haside
        cases haside
    | _ => exact hu
  | spawn a => exact List.mem_append_left _ hu
  | _ => exact hu

end

end Site

end BlockSync.Network

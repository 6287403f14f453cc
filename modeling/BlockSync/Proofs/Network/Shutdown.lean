import BlockSync.Proofs.Network.Departures

/-! The end of a supervisor. Whoever started a task that may open a session waits for its end, so
that after the last wait nothing is opened any more and the supervisor closes what it still knows
of. A session that announces a departure is closed by whoever announced it. What was forgotten
without that may stay open: with two sessions to one peer, the one that does not hear the peer's
farewell. -/

namespace BlockSync.Network

open BlockSync.Network.Action

def Op.Shuts (id : SessionId) (op : Op) : Prop := op = .session id (.update Session.close)

/-- Whether a program closes a session after each departure that it announces there. -/
def Faithful {α : Type} : Action α → Prop
  | .done _ => True
  | .ask op next => ∀ r, (∀ id message, op = .session id (.announce message) →
      (next r).Reaches (Op.Shuts id)) ∧ Faithful (next r)

section

variable {settings : Settings} {id : SessionId} {α β : Type}

theorem Faithful.bind {p : Action α} {f : α → Action β} (hp : Faithful p)
    (hf : ∀ a, Faithful (f a)) : Faithful (p >>= f) := by
  induction p with
  | done a => exact hf a
  | ask op next ih =>
    exact fun r => ⟨fun id message hop => ((hp r).1 id message hop).bind f, ih r (hp r).2⟩

theorem Faithful.ask {op : Op} {f : interface.Answer op → Action β}
    (hop : ∀ id message, op ≠ .session id (.announce message)) (hf : ∀ r, Faithful (f r)) :
    Faithful (Program.request (I := interface) op >>= f) :=
  fun r => ⟨fun id message h => absurd h (hop id message), hf r⟩

theorem Faithful.ite {c : Prop} [Decidable c] {p q : Action α} (hp : Faithful p)
    (hq : Faithful q) : Faithful (if c then p else q) := by
  split
  · exact hp
  · exact hq

theorem reaches_session {p : Session.Action α} (h : p.Reaches Session.Op.IsClose) :
    (session id p).Reaches (Op.Shuts id) := by
  induction p with
  | done a => exact h
  | ask op next ih =>
    rcases h with hop | hnext
    · cases op with
      | update f =>
        cases hop
        exact .inl rfl
      | _ => exact hop.elim
    · exact .inr fun r => ih r (hnext r)

theorem faithful_session {p : Session.Action α} (h : Session.Faithful p) :
    Faithful (session id p) := by
  induction p with
  | done a => trivial
  | ask op next ih =>
    refine fun r => ⟨fun id' message hop => ?_, ih r (h r).2⟩
    cases hop
    exact reaches_session ((h r).1 trivial)

theorem faithful_program {work : Work} (h : work.isReceiving = true) :
    Faithful (work.program settings) := by
  cases work with
  | activity a =>
    cases a with
    | supervise phase retry =>
      cases phase with
      | receiving contact =>
        have hlater : Faithful (afterSession contact) := by
          refine .ask nofun fun _ => .bind (faithful_session (Session.Mute.request id).faithful) ?_
          refine fun s => .bind (.ask nofun fun now => ?_) fun more => .ite trivial trivial
          exact fun r => ⟨nofun, trivial⟩
        refine .bind (.bind (.bind ?_ fun more => .ite trivial ?_) fun _ => trivial) fun _ => trivial
        · exact faithful_session (Session.faithful_receiveOnce settings)
        · exact .bind hlater fun _ => trivial
      | _ => cases h
    | _ => cases h
  | _ => cases h

end

/-- Somebody is there who closes a session before the end of the round. -/
def Site.Closing (s : Site) (id : SessionId) : Prop :=
  ∃ task ∈ s.tasks, task.work.isAside = false ∧ task.program.Reaches (Op.Shuts id)

def Site.Kept (s : Site) : Prop :=
  ∀ task ∈ s.tasks, task.work.isReceiving = true → Faithful task.program

section

variable {settings : Settings} {id : SessionId} {s t u v : Site}

theorem Step.origin (h : Step settings s t) (hs : s.Orderly settings) {task : Task}
    (htask : task ∈ t.tasks) : task ∈ s.tasks ∨ task.program = task.work.program settings ∨
      ∃ before ∈ s.tasks, before.work = task.work ∧
        ∃ op next r, before.program = .ask op next ∧ task.program = next r := by
  cases h with
  | @act starter op next r hstarter hprogram hr =>
    have hhere := hs.here hstarter
    rw [hprogram] at hhere
    have hop := hhere.1
    obtain ⟨w, hw, rfl⟩ := List.mem_map.mp htask
    split
    · next hid =>
      have hsame : w = starter := (hs.fit.sane.after hstarter hop).unique w hw starter
        (Site.mem_after_self hstarter hop) hid
      subst hsame
      exact .inr (.inr ⟨w, hstarter, rfl, op, next, r, hprogram, rfl⟩)
    · rcases Site.mem_or_begins hs.fit hstarter hop hw with hold | hnew
      · exact .inl hold
      · exact .inr (.inl hnew.1)
  | renew =>
    obtain ⟨w, hw, rfl⟩ := List.mem_map.mp htask
    split
    · exact .inr (.inl rfl)
    · exact .inl hw
  | finish => exact .inl (List.mem_filter.mp htask).1
  | interrupt => exact .inl htask

theorem Step.kept (h : Step settings s t) (hs : s.Orderly settings) (hkept : s.Kept) : t.Kept := by
  intro task htask hreceiving
  rcases h.origin hs htask with hold | hbegins | ⟨before, hbefore, hwork, op, next, r, hop, hnext⟩
  · exact hkept task hold hreceiving
  · rw [hbegins]
    exact faithful_program hreceiving
  · have hfaithful := hkept before hbefore (hwork ▸ hreceiving)
    rw [hop] at hfaithful
    rw [hnext]
    exact (hfaithful r).2

theorem Step.closing_of_heard (h : Step settings s t) (hs : s.Orderly settings) (hkept : s.Kept)
    (hheard : t.heard = s.heard ++ [id]) : t.Closing id := by
  have hnone (hsame : t.heard = s.heard) : t.Closing id := by
    rw [hsame] at hheard
    exact absurd (List.self_eq_append_right.mp hheard) (List.cons_ne_nil _ _)
  cases h with
  | @act task op next r htask hprogram hr =>
    cases op with
    | session id' op =>
      cases op with
      | announce message =>
        have hhere := hs.here htask
        have hfaithful := hkept task htask
        rw [hprogram] at hhere hfaithful
        have hreceiving : task.work.isReceiving = true := hhere.1.proper
        obtain rfl : id' = id := by
          change s.heard ++ [id'] = s.heard ++ [id] at hheard
          exact List.cons.inj (List.append_cancel_left hheard) |>.1
        refine ⟨{ task with program := next r }, ?_, ?_, (hfaithful hreceiving r).1 _ _ rfl⟩
        · exact List.mem_map.mpr ⟨task, htask, if_pos rfl⟩
        · change task.work.isAside = false
          cases hwork : task.work with
          | activity a =>
            rw [hwork] at hreceiving
            cases a <;> first | rfl | cases hreceiving
          | _ => rfl
      | _ => exact hnone rfl
    | _ => exact hnone rfl
  | renew | finish | interrupt => exact hnone rfl

theorem Step.closing (h : Step settings s t) (hs : s.Orderly settings) (hclosing : s.Closing id) :
    t.Closing id ∨ (t.sessions id).closed = true := by
  obtain ⟨task, htask, hopen, hreaches⟩ := hclosing
  cases h with
  | @act starter op next r hstarter hprogram hr =>
    have hhere := hs.here hstarter
    rw [hprogram] at hhere
    have hop := hhere.1
    by_cases hid : task.id = starter.id
    · obtain rfl := hs.fit.sane.unique task htask starter hstarter hid
      rw [hprogram] at hreaches
      rcases hreaches with rfl | hnext
      · refine .inr ?_
        change (Function.update s.sessions id (Session.close (s.sessions id)) id).closed = true
        rw [Function.update_self]
        exact Session.closed_close _
      · refine .inl ⟨{ task with program := next r }, ?_, hopen, hnext r⟩
        exact List.mem_map.mpr ⟨task, Site.mem_after_self hstarter hop, if_pos rfl⟩
    · refine .inl ⟨task, ?_, hopen, hreaches⟩
      exact List.mem_map.mpr ⟨task, Site.mem_after hop.proper htask (.inl hopen), if_neg hid⟩
  | @renew starter work hstarter hprogram =>
    refine .inl ⟨task, List.mem_map.mpr ⟨task, htask, if_neg fun hid => ?_⟩, hopen, hreaches⟩
    obtain rfl := hs.fit.sane.unique task htask starter hstarter hid
    rw [hprogram] at hreaches
    exact hreaches
  | @finish starter hstarter hprogram =>
    refine .inl ⟨task, List.mem_filter.mpr ⟨htask, decide_eq_true fun hid => ?_⟩, hopen, hreaches⟩
    obtain rfl := hs.fit.sane.unique task htask starter hstarter hid
    rw [hprogram] at hreaches
    exact hreaches
  | interrupt => exact .inl ⟨task, htask, hopen, hreaches⟩

theorem Step.disconnects (h : Step settings s t) (hs : s.Orderly settings)
    (hopen : (s.sessions id).closed = false) (hclosed : (t.sessions id).closed = true) :
    (t.sessions id).connected = false := by
  have hsame (hsessions : t.sessions = s.sessions) : (t.sessions id).connected = false := by
    rw [hsessions, hopen] at hclosed
    cases hclosed
  cases h with
  | @act task op next r htask hprogram hr =>
    cases op with
    | session id' op =>
      have hhere := hs.here htask
      rw [hprogram] at hhere
      have hop := hhere.1.proper
      change ((s.afterOn settings task.id id' op).sessions id).closed = true at hclosed
      change ((s.afterOn settings task.id id' op).sessions id).connected = false
      rw [Site.afterOn_sessions] at hclosed ⊢
      by_cases hid : id = id'
      · subst hid
        rw [Function.update_self] at hclosed ⊢
        cases op with
        | update f => exact hop.shuts hopen hclosed
        | _ => exact absurd (hopen.symm.trans hclosed) Bool.false_ne_true
      · rw [Function.update_of_ne hid] at hclosed
        exact absurd (hopen.symm.trans hclosed) Bool.false_ne_true
    | _ => exact hsame rfl
  | renew | finish | interrupt => exact hsame rfl

/-- The step at which something comes about. -/
def Sometime (settings : Settings) (s t : Site) (P : Site → Site → Prop) : Prop :=
  ∃ u v, Relation.ReflTransGen (Step settings) s u ∧ Step settings u v ∧
    Relation.ReflTransGen (Step settings) v t ∧ P u v

theorem Sometime.tail {P : Site → Site → Prop} (h : Sometime settings s t P)
    (hstep : Step settings t u) : Sometime settings s u P := by
  obtain ⟨x, y, hx, hxy, hy, hP⟩ := h
  exact ⟨x, y, hx, hxy, hy.tail hstep, hP⟩

theorem Sometime.of_run {P : Site → Site → Prop}
    (hs : Relation.ReflTransGen (Step settings) s t) (h : Sometime settings t u P) :
    Sometime settings s u P := by
  obtain ⟨x, y, hx, hrest⟩ := h
  exact ⟨x, y, hs.trans hx, hrest⟩

def Site.Opens (id : SessionId) (s t : Site) : Prop :=
  (s.sessions id).closed = true ∧ (t.sessions id).closed = false

/-- A session counts as connected only after it was closed. -/
def Site.LatelyConnects (id : SessionId) (s t : Site) : Prop :=
  ((s.sessions id).closed = true ∧ (s.sessions id).connected = false) ∧
    (t.sessions id).closed = true ∧ (t.sessions id).connected = true

theorem closed_or_opened (h : Relation.ReflTransGen (Step settings) s t)
    (hclosed : (s.sessions id).closed = true) :
    (t.sessions id).closed = true ∨ Sometime settings s t (Site.Opens id) := by
  induction h with
  | refl => exact .inl hclosed
  | @tail u v hu hstep ih =>
    rcases ih with hstill | hopened
    · cases hlater : (v.sessions id).closed with
      | true => exact .inl rfl
      | false => exact .inr ⟨u, v, hu, hstep, .refl, hstill, hlater⟩
    · exact .inr (hopened.tail hstep)

theorem orderly_of_steps (h : Relation.ReflTransGen (Step settings) s t)
    (hs : s.Orderly settings) : t.Orderly settings := by
  induction h with
  | refl => exact hs
  | tail _ hstep ih => exact hstep.orderly ih

theorem kept_of_steps (h : Relation.ReflTransGen (Step settings) s t)
    (hs : s.Orderly settings) (hkept : s.Kept) : t.Kept := by
  induction h with
  | refl => exact hkept
  | tail hrun hstep ih => exact hstep.kept (orderly_of_steps hrun hs) ih

/-- Whoever is to close a session does so before the end. -/
theorem closing_or_closed (h : Relation.ReflTransGen (Step settings) s t)
    (hs : s.Orderly settings) (hclosing : s.Closing id) :
    t.Closing id ∨ (t.sessions id).closed = true ∨ Sometime settings s t (Site.Opens id) := by
  induction h with
  | refl => exact .inl hclosing
  | @tail u v hu hstep ih =>
    rcases ih with hstill | hclosed | hopened
    · exact (hstep.closing (orderly_of_steps hu hs) hstill).imp_right .inl
    · refine .inr ((closed_or_opened (.single hstep) hclosed).imp_right fun hopened => ?_)
      exact hopened.of_run hu
    · exact .inr (.inr (hopened.tail hstep))

theorem lately_connected (h : Relation.ReflTransGen (Step settings) s t)
    (hs : s.Orderly settings) (hdown : (s.sessions id).connected = false)
    (hclosed : (t.sessions id).closed = true) (hconnected : (t.sessions id).connected = true) :
    Sometime settings s t (Site.LatelyConnects id) := by
  induction h with
  | refl =>
    rw [hdown] at hconnected
    cases hconnected
  | @tail u v hu hstep ih =>
    cases hopen : (u.sessions id).closed with
    | false =>
      rw [hstep.disconnects (orderly_of_steps hu hs) hopen hclosed] at hconnected
      cases hconnected
    | true =>
      cases hbefore : (u.sessions id).connected with
      | false => exact ⟨u, v, hu, hstep, .refl, ⟨hopen, hbefore⟩, hclosed, hconnected⟩
      | true => exact (ih hopen hbefore).tail hstep

theorem Site.Orderly.aside_of_over (h : s.Orderly settings) (hsole : s.Sole)
    (hover : ∀ t ∈ s.tasks, t.id ≠ 0) : ∀ t ∈ s.tasks, t.work.isAside = true := by
  have hminds : s.Minds 0 [] := by
    intro t ht hparent hopen
    rcases h.fit.sane.rooted t ht hopen with hroot | ⟨g, hg, -, hguardian⟩
    · rw [hparent] at hroot
      cases hroot
    · rw [hparent] at hguardian
      exact absurd (Option.some.inj hguardian).symm (hover g hg)
  exact fun t ht => h.fit.sane.calm hsole hminds t ht (hover t ht)

theorem Site.Orderly.exists_contact (h : s.Orderly settings)
    (hidle : ∀ id, ¬ s.Engaged settings id) {peer : String} (hpeer : s.peers[id]? = some peer)
    (hleft : peer ∉ s.left.map (·.1)) :
    ∃ c ∈ s.network.contacts, c.session = id ∧ c.peer = peer := by
  have hinit : s.network.initialized = true := by
    by_contra hnot
    rw [(h.fit.enrolling.before (Bool.eq_false_iff.mpr hnot)).2.2] at hpeer
    cases hpeer
  obtain ⟨task, henroller⟩ := h.fit.enrolling.begun hinit
  have hadded : s.added = enrolled settings.peers 0 := by
    by_contra hnot
    exact hidle task (.inr ⟨henroller, hnot⟩)
  have hplace : ((enrolled settings.peers 0).map (·.peer))[id]? = some peer := by
    obtain ⟨rest, hrest⟩ := h.fit.enrolling.peers
    rw [← hrest]
    exact List.getElem?_append_left (List.getElem?_eq_some_iff.mp hpeer).1 ▸ hpeer
  rw [List.getElem?_map, Option.map_eq_some_iff] at hplace
  obtain ⟨c, hc, hcpeer⟩ := hplace
  refine ⟨c, ?_, by rw [session_of_enrolled hc, Nat.zero_add], hcpeer⟩
  rw [h.fit.listed.contacts, hadded, List.mem_filter, decide_eq_true_eq]
  refine ⟨List.mem_of_getElem? hc, fun d hd hdpeer => absurd ?_ hleft⟩
  exact List.mem_map.mpr ⟨d, hd, hdpeer.trans hcpeer⟩

theorem sole_of_steps
    (h : Relation.ReflTransGen (Step settings) (({} : Site).call settings (.activity .run)) s) :
    s.called = [.activity .run] := by
  induction h with
  | refl => rfl
  | tail _ hstep ih =>
    cases hstep with
    | act => exact (Site.called_after _ _ _ _).trans ih
    | renew | finish | interrupt => exact ih

/-- In whatever order the operations of a supervisor's tasks come and whatever its peers do: when it
is over, a shutdown was requested, and its contacts are closed, so that of the sessions that it
created those are closed whose peers were not left. So are those of peers that were left, if they
announced it themselves and were not opened again. A closed session counts as connected only if it
came to do so after its closing. -/
theorem closed_when_over
    (h : Relation.ReflTransGen (Step settings) (({} : Site).call settings (.activity .run)) s)
    (hover : ∀ t ∈ s.tasks, t.id ≠ 0) :
    s.stopping = true ∧ (∀ c ∈ s.network.contacts, (s.sessions c.session).closed = true) ∧
    (∀ id peer, s.peers[id]? = some peer → peer ∉ s.left.map (·.1) →
      (s.sessions id).closed = true) ∧
    (∀ id u v,
      Relation.ReflTransGen (Step settings) (({} : Site).call settings (.activity .run)) u →
      Step settings u v → v.heard = u.heard ++ [id] → Relation.ReflTransGen (Step settings) v s →
      (s.sessions id).closed = true ∨ Sometime settings v s (Site.Opens id)) ∧
    ∀ id, (s.sessions id).closed = true → (s.sessions id).connected = true →
      Sometime settings (({} : Site).call settings (.activity .run)) s (Site.LatelyConnects id) := by
  have hstart := (orderly_nil settings).call .run
  have horderly := orderly_of_steps h hstart
  have hcalled := sole_of_steps h
  have hsole : s.Sole := by
    unfold Site.Sole
    exact hcalled ▸ List.prefix_refl _
  have haside := horderly.aside_of_over hsole hover
  have hshut := horderly.shut hsole (hcalled ▸ List.cons_ne_nil _ _) haside
  have hidle (id : TaskId) : ¬ s.Engaged settings id := by
    intro hengaged
    obtain ⟨t, ht, -, hopen⟩ := horderly.engaged id hengaged
    rw [haside t ht] at hopen
    cases hopen
  refine ⟨hshut.stopping, hshut.closed, fun id peer hpeer hleft => ?_,
    fun id u v hu hstep hheard hv => ?_, fun id hclosed hconnected => ?_⟩
  · obtain ⟨c, hc, rfl, -⟩ := horderly.exists_contact hidle hpeer hleft
    exact hshut.closed c hc
  · have hbefore := orderly_of_steps hu hstart
    have hkept : u.Kept := kept_of_steps hu hstart fun task htask hreceiving => by
      rw [List.mem_singleton.mp htask] at hreceiving
      cases hreceiving
    have hclosing := hstep.closing_of_heard hbefore hkept hheard
    refine (closing_or_closed hv (hstep.orderly hbefore) hclosing).resolve_left ?_
    rintro ⟨task, htask, hopen, -⟩
    rw [haside task htask] at hopen
    cases hopen
  · exact lately_connected h hstart rfl hclosed hconnected

end

/-- The session with the peer that was not left is closed. -/
theorem closed_when_over_of_farewell :
    ∃ s, Relation.ReflTransGen (Step Farewell.settings) Farewell.start s ∧
      (∀ t ∈ s.tasks, t.id ≠ 0) ∧ s.stopping = true ∧
      (s.sessions Farewell.other.session).closed = true := by
  obtain ⟨s, t, u, hs, ht, hu, -, -, hlast⟩ := Farewell.performed
  have hrun := (hs.trans ht).trans hu
  have hover := Farewell.over_of_glance (congrArg Farewell.Glance.tasks hlast)
  have hcontacts : u.network.contacts = [Farewell.other] :=
    congrArg Farewell.Glance.contacts hlast
  obtain ⟨hstopping, hclosed, -⟩ := closed_when_over hrun hover
  refine ⟨u, hrun, hover, hstopping, hclosed Farewell.other ?_⟩
  rw [hcontacts]
  exact List.mem_singleton.mpr rfl

/-- Of two sessions with one peer, the one that does not hear its farewell is forgotten with the
other: when the supervisor is over, it is connected still. -/
theorem open_when_over :
    ∃ s, Relation.ReflTransGen (Step Farewell.settings) Farewell.start s ∧
      (∀ t ∈ s.tasks, t.id ≠ 0) ∧ s.peers[1]? = some "10.0.0.1:9876" ∧
      (s.sessions 1).closed = false ∧ (s.sessions 1).connected = true := by
  obtain ⟨s, t, u, hs, ht, hu, -, -, hlast⟩ := Farewell.performed
  have hpeers : u.peers = Farewell.settings.peers := congrArg Farewell.Glance.peers hlast
  refine ⟨u, (hs.trans ht).trans hu, Farewell.over_of_glance (congrArg Farewell.Glance.tasks hlast),
    ?_, congrArg Farewell.Glance.closed hlast, congrArg Farewell.Glance.connected hlast⟩
  rw [hpeers]
  rfl

end BlockSync.Network

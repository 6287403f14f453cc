import BlockSync.Proofs.Network.Tasks

/-! What a site's past says of its contacts. One contact after the other is added, for the configured
peers in their order. The contacts are those that were added and whose peers were not left since; a
contact that is active or was seen is one of them, or its peer was left. -/

namespace BlockSync.Network

theorem session_of_enrolled {peers : List String} {first : SessionId} {i : Nat} {c : Contact}
    (h : (enrolled peers first)[i]? = some c) : c.session = first + i := by
  induction peers generalizing first i with
  | nil => cases h
  | cons peer rest ih =>
    unfold enrolled at h
    split at h
    · cases i with
      | zero =>
        cases h
        rfl
      | succ i =>
        rw [ih h, Nat.add_assoc, Nat.add_comm 1 i]
    · exact ih h

namespace Site

/-- A contact was added after its peer was left, if it was left. -/
def Keeps (s : Site) (c : Contact) : Prop := ∀ d ∈ s.left, d.1 = c.peer → d.2 ≤ c.session

instance (s : Site) : DecidablePred s.Keeps := fun c => by
  unfold Keeps
  infer_instance

structure Enrolling (settings : Settings) (s : Site) : Prop where
  before : s.network.initialized = false → s.enroller = none ∧ s.added = [] ∧ s.peers = []
  begun : s.network.initialized = true → ∃ task, s.enroller = some task
  fresh : ∀ task, s.enroller = some task → task < s.nextTask
  added : s.added <+: enrolled settings.peers 0
  peers : s.peers <+: (enrolled settings.peers 0).map (·.peer)
  named : s.added.map (·.peer) <+: s.peers

/-- How the contacts stand to what happened. -/
structure Listed (s : Site) : Prop where
  contacts : s.network.contacts = s.added.filter s.Keeps
  left : ∀ d ∈ s.left, d.2 ≤ s.added.length ∧ d.1 ∈ s.taken.map (·.peer)
  taken : ∀ d ∈ s.taken, d.peer ∈ s.left.map (·.1) ∨ ∃ task, .forget d.peer ∈ s.owing task
  owing : ∀ task peer, .forget peer ∈ s.owing task → peer ∈ s.taken.map (·.peer)
  seen : ∀ task, ∀ c ∈ s.seen task, c ∈ s.network.contacts ∨ c.peer ∈ s.left.map (·.1)
  active : ∀ c, s.network.active = some c → c ∈ s.network.contacts ∨ c.peer ∈ s.left.map (·.1)
  fresh : ∀ task, s.nextTask ≤ task → s.owing task = [] ∧ s.seen task = []

structure Fit (settings : Settings) (s : Site) : Prop where
  sane : s.Sane
  whole : s.Whole
  enrolling : s.Enrolling settings
  listed : s.Listed

section

variable {settings : Settings} {task : TaskId} {work : Work} {s t : Site} {op : Op}

theorem Enrolling.of_same (h : s.Enrolling settings) (hnetwork : t.network.initialized =
      s.network.initialized) (henroller : t.enroller = s.enroller) (hadded : t.added = s.added)
    (hpeers : t.peers = s.peers) (hnext : s.nextTask ≤ t.nextTask) : t.Enrolling settings := by
  refine ⟨?_, ?_, ?_, ?_, ?_, ?_⟩
  · rw [hnetwork, henroller, hadded, hpeers]
    exact h.before
  · rw [hnetwork, henroller]
    exact h.begun
  · rw [henroller]
    exact fun task htask => Nat.lt_of_lt_of_le (h.fresh task htask) hnext
  · rw [hadded]
    exact h.added
  · rw [hpeers]
    exact h.peers
  · rw [hadded, hpeers]
    exact h.named

theorem Enrolling.initialized_of_enroller (h : s.Enrolling settings) {id : TaskId}
    (henroller : s.enroller = some id) : s.network.initialized = true := by
  by_contra hinit
  rw [(h.before (Bool.eq_false_iff.mpr hinit)).1] at henroller
  cases henroller

theorem Enrolling.after (h : s.Enrolling settings) (htask : task < s.nextTask)
    (hop : s.Proper settings task work op) : (s.after settings task op).Enrolling settings := by
  cases op with
  | session id op =>
    exact h.of_same (by rw [after, afterOn_network]) (afterOn_enroller _ _ _ _ _)
      (afterOn_added _ _ _ _ _) (afterOn_peers _ _ _ _ _) (nextTask_afterOn_le id op)
  | enlist contact =>
    have hinit := h.initialized_of_enroller hop.1
    refine ⟨fun hnot => ?_, h.begun, h.fresh, hop.2.1, h.peers, hop.2.2⟩
    change s.network.initialized = false at hnot
    rw [hinit] at hnot
    cases hnot
  | create peer =>
    have hinit := h.initialized_of_enroller hop.1
    refine ⟨fun hnot => ?_, h.begun, h.fresh, h.added, hop.2,
      h.named.trans (List.prefix_append _ _)⟩
    change s.network.initialized = false at hnot
    rw [hinit] at hnot
    cases hnot
  | markInitialized =>
    refine ⟨fun hnot => ?_, fun _ => ?_, fun other => ?_, h.added, h.peers, h.named⟩
    · cases hnot
    · change ∃ other, (if s.network.initialized then s.enroller else some task) = some other
      split
      · next hinit => exact h.begun hinit
      · exact ⟨task, rfl⟩
    · change (if s.network.initialized then s.enroller else some task) = some other → _
      split
      · exact h.fresh other
      · rintro ⟨⟩
        exact htask
  | spawn a => exact h.of_same rfl rfl rfl rfl (Nat.le_succ _)
  | _ => exact h.of_same rfl rfl rfl rfl (Nat.le_refl _)

theorem keeps_of_left (h : t.left = s.left) : t.Keeps = s.Keeps := by
  funext c
  rw [Keeps, Keeps, h]

theorem Listed.of_same (h : s.Listed) (hnetwork : t.network.contacts = s.network.contacts)
    (hactive : t.network.active = s.network.active) (hadded : t.added = s.added)
    (htaken : t.taken = s.taken) (hleft : t.left = s.left) (hseen : t.seen = s.seen)
    (howing : t.owing = s.owing) (hnext : s.nextTask ≤ t.nextTask) : t.Listed := by
  refine ⟨?_, ?_, ?_, ?_, ?_, ?_, fun task htask => ?_⟩
  · rw [hnetwork, hadded, h.contacts]
    exact List.filter_congr fun c _ => by rw [decide_eq_decide, keeps_of_left hleft]
  · rw [hleft, hadded, htaken]
    exact h.left
  · rw [htaken, hleft, howing]
    exact h.taken
  · rw [howing, htaken]
    exact h.owing
  · rw [hseen, hnetwork, hleft]
    exact h.seen
  · rw [hactive, hnetwork, hleft]
    exact h.active
  · rw [howing, hseen]
    exact h.fresh task (Nat.le_trans hnext htask)

theorem Enrolling.place (h : s.Enrolling settings) {i : Nat} {c : Contact}
    (hc : s.added[i]? = some c) : c.session = i := by
  have hplace : (enrolled settings.peers 0)[i]? = some c := by
    obtain ⟨rest, hrest⟩ := h.added
    rw [← hrest]
    exact List.getElem?_append_left (List.getElem?_eq_some_iff.mp hc).1 ▸ hc
  rw [session_of_enrolled hplace, Nat.zero_add]

theorem keeps_forget {peer : String} {c : Contact}
    (hleft : t.left = s.left ++ [(peer, s.added.length)])
    (hc : c.session < s.added.length) : t.Keeps c ↔ s.Keeps c ∧ c.peer ≠ peer := by
  rw [Keeps, hleft]
  simp only [List.forall_mem_append, List.forall_mem_singleton]
  refine and_congr_right fun _ => ⟨?_, ?_⟩
  · rintro h rfl
    exact absurd (h rfl) (Nat.not_le_of_lt hc)
  · rintro h rfl
    exact absurd rfl h

theorem mem_owing_settle {other : TaskId} (h : op ∈ (s.settle task).owing other) :
    op ∈ s.owing other := by
  change op ∈ Function.update s.owing task (s.owing task).tail other at h
  by_cases hother : other = task
  · subst hother
    rw [Function.update_self] at h
    exact List.mem_of_mem_tail h
  · rwa [Function.update_of_ne hother] at h

theorem mem_owing_settle_or (task : TaskId) {other : TaskId} (h : op ∈ s.owing other) :
    (s.owing task).head? = some op ∨ op ∈ (s.settle task).owing other := by
  change _ ∨ op ∈ Function.update s.owing task (s.owing task).tail other
  by_cases hother : other = task
  · subst hother
    rw [Function.update_self]
    cases hfirst : s.owing other with
    | nil =>
      rw [hfirst] at h
      cases h
    | cons first rest =>
      rw [hfirst] at h
      rcases List.mem_cons.mp h with rfl | hrest
      · exact .inl rfl
      · exact .inr hrest
  · rw [Function.update_of_ne hother]
    exact .inr h

theorem owing_settle_of_nil {other : TaskId} (h : s.owing other = []) :
    (s.settle task).owing other = [] := by
  refine List.eq_nil_iff_forall_not_mem.mpr fun op hop => ?_
  have hmem := mem_owing_settle hop
  rw [h] at hmem
  cases hmem

theorem Listed.enlist (h : s.Listed) {contact : Contact}
    (hadded : s.added ++ [contact] <+: enrolled settings.peers 0) :
    (s.after settings task (.enlist contact)).Listed := by
  have hplace : contact.session = s.added.length := by
    obtain ⟨rest, hrest⟩ := hadded
    have hget : (enrolled settings.peers 0)[s.added.length]? = some contact := by
      rw [← hrest, List.append_assoc, List.singleton_append,
        List.getElem?_append_right (Nat.le_refl _), Nat.sub_self, List.getElem?_cons_zero]
    rw [session_of_enrolled hget, Nat.zero_add]
  have hkept : s.Keeps contact := fun d hd _ => hplace ▸ (h.left d hd).1
  refine ⟨?_, fun d hd => ?_, h.taken, h.owing, fun other c hc => ?_, fun c hc => ?_, h.fresh⟩
  · change s.network.contacts ++ [contact] = (s.added ++ [contact]).filter s.Keeps
    have hone : [contact].filter (fun c => decide (s.Keeps c)) = [contact] :=
      List.filter_cons_of_pos (decide_eq_true hkept)
    rw [List.filter_append, hone, h.contacts]
  · refine ⟨Nat.le_trans (h.left d hd).1 ?_, (h.left d hd).2⟩
    change s.added.length ≤ (s.added ++ [contact]).length
    rw [List.length_append]
    exact Nat.le_add_right _ _
  · exact (h.seen other c hc).imp_left (List.mem_append_left _)
  · exact (h.active c hc).imp_left (List.mem_append_left _)

theorem Listed.forget (h : s.Listed) (he : s.Enrolling settings) {peer : String}
    {rest : List Op} (howing : s.owing task = .forget peer :: rest) :
    (s.after settings task (.forget peer)).Listed := by
  have hmem {c : Contact} (hc : c ∈ s.network.contacts ∨ c.peer ∈ s.left.map (·.1)) :
      c ∈ s.network.contacts.filter (·.peer ≠ peer) ∨
        c.peer ∈ (s.left ++ [(peer, s.added.length)]).map (·.1) := by
    rw [List.map_append, List.mem_append]
    rcases hc with hc | hc
    · by_cases hpeer : c.peer = peer
      · exact .inr (.inr (List.mem_singleton.mpr hpeer))
      · exact .inl (List.mem_filter.mpr ⟨hc, decide_eq_true hpeer⟩)
    · exact .inr (.inl hc)
  refine ⟨?_, ?_, fun d hd => ?_, fun other peer' hop => h.owing other peer' (mem_owing_settle hop),
    fun other c hc => hmem (h.seen other c hc), fun c hc => hmem (h.active c hc),
    fun other hother => ?_⟩
  · change s.network.contacts.filter (·.peer ≠ peer) = s.added.filter _
    rw [h.contacts, List.filter_filter]
    refine List.filter_congr fun c hc => ?_
    obtain ⟨i, hi⟩ := List.mem_iff_getElem?.mp hc
    have hlt : c.session < s.added.length := by
      rw [he.place hi]
      exact (List.getElem?_eq_some_iff.mp hi).1
    rw [← Bool.decide_and, decide_eq_decide, and_comm]
    exact (keeps_forget rfl hlt).symm
  · refine List.forall_mem_append.mpr ⟨h.left, List.forall_mem_singleton.mpr ⟨Nat.le_refl _, ?_⟩⟩
    exact h.owing task peer (howing ▸ List.mem_cons_self)
  · change d.peer ∈ (s.left ++ [(peer, s.added.length)]).map (·.1) ∨ _
    rw [List.map_append, List.mem_append]
    rcases h.taken d hd with hleft | ⟨other, hother⟩
    · exact .inl (.inl hleft)
    · rcases mem_owing_settle_or task hother with hfirst | hrest
      · rw [howing] at hfirst
        cases hfirst
        exact .inl (.inr (List.mem_singleton.mpr rfl))
      · exact .inr ⟨other, hrest⟩
  · exact ⟨owing_settle_of_nil (h.fresh other hother).1, (h.fresh other hother).2⟩

theorem Listed.deactivate (h : s.Listed) {peer : String} {rest : List Op}
    (howing : s.owing task = .deactivate peer :: rest) :
    (s.after settings task (.deactivate peer)).Listed := by
  refine ⟨h.contacts, h.left, fun d hd => (h.taken d hd).imp_right ?_,
    fun other peer' hop => h.owing other peer' (mem_owing_settle hop), h.seen,
    fun c hc => h.active c (Option.filter_eq_some_iff.mp hc).1, fun other hother =>
      ⟨owing_settle_of_nil (h.fresh other hother).1, (h.fresh other hother).2⟩⟩
  rintro ⟨other, hother⟩
  refine ⟨other, (mem_owing_settle_or task hother).resolve_left fun hfirst => ?_⟩
  rw [howing] at hfirst
  cases hfirst

theorem Listed.setActive (h : s.Listed) {contact? : Option Contact}
    (hseen : ∀ c, contact? = some c → c ∈ s.seen task) :
    (s.after settings task (.setActive contact?)).Listed := by
  have hupdate (other : TaskId) : (s.after settings task (.setActive contact?)).seen other = [] ∨
      (s.after settings task (.setActive contact?)).seen other = s.seen other := by
    change Function.update s.seen task [] other = [] ∨ Function.update s.seen task [] other = _
    by_cases hother : other = task
    · subst hother
      exact .inl (Function.update_self _ _ _)
    · exact .inr (Function.update_of_ne hother _ _)
  refine ⟨h.contacts, h.left, h.taken, h.owing, fun other c hc => ?_,
    fun c hc => h.seen task c (hseen c hc), fun other hother => ⟨(h.fresh other hother).1, ?_⟩⟩
  · rcases hupdate other with hnone | hsame
    · rw [hnone] at hc
      cases hc
    · exact h.seen other c (hsame ▸ hc)
  · exact (hupdate other).elim id fun hsame => hsame.trans (h.fresh other hother).2

theorem Listed.look (h : s.Listed) (htask : task < s.nextTask) :
    (s.after settings task .contacts).Listed := by
  refine ⟨h.contacts, h.left, h.taken, h.owing, fun other c hc => ?_, h.active,
    fun other hother => ⟨(h.fresh other hother).1, ?_⟩⟩
  · change c ∈ Function.update s.seen task s.network.contacts other at hc
    by_cases hother : other = task
    · subst hother
      rw [Function.update_self] at hc
      exact .inl hc
    · rw [Function.update_of_ne hother] at hc
      exact h.seen other c hc
  · have hne : other ≠ task := fun heq => absurd (heq ▸ htask) (Nat.not_lt_of_le hother)
    exact (Function.update_of_ne hne _ _).trans (h.fresh other hother).2

theorem Listed.takeDepartures (h : s.Listed) (htask : task < s.nextTask)
    (howing : s.owing task = []) : (s.after settings task .departures).Listed := by
  have hne {other : TaskId} (hother : s.nextTask ≤ other) : other ≠ task :=
    fun heq => absurd (heq ▸ htask) (Nat.not_lt_of_le hother)
  have hself : (s.after settings task .departures).owing task = duties s.announced :=
    Function.update_self _ _ _
  have hrest {other : TaskId} (hother : other ≠ task) :
      (s.after settings task .departures).owing other = s.owing other :=
    Function.update_of_ne hother _ _
  refine ⟨h.contacts, fun d hd => ⟨(h.left d hd).1, ?_⟩, fun d hd => ?_,
    fun other peer hpeer => ?_, h.seen, h.active, fun other hother => ⟨?_, (h.fresh other hother).2⟩⟩
  · change d.1 ∈ (s.taken ++ s.announced).map (·.peer)
    rw [List.map_append]
    exact List.mem_append_left _ (h.left d hd).2
  · rcases List.mem_append.mp hd with hold | hnew
    · refine (h.taken d hold).imp_right ?_
      rintro ⟨other, hother⟩
      refine ⟨other, ?_⟩
      rw [hrest]
      · exact hother
      · rintro rfl
        rw [howing] at hother
        cases hother
    · refine .inr ⟨task, ?_⟩
      rw [hself]
      exact List.mem_flatMap.mpr ⟨d, hnew, List.mem_cons_self⟩
  · change peer ∈ (s.taken ++ s.announced).map (·.peer)
    rw [List.map_append]
    by_cases hother : other = task
    · subst hother
      rw [hself, duties, List.mem_flatMap] at hpeer
      obtain ⟨d, hd, hduty⟩ := hpeer
      simp only [List.mem_cons, Op.forget.injEq, reduceCtorEq, List.not_mem_nil, or_false] at hduty
      rw [hduty]
      exact List.mem_append_right _ (List.mem_map_of_mem hd)
    · rw [hrest hother] at hpeer
      exact List.mem_append_left _ (h.owing other peer hpeer)
  · rw [hrest (hne hother)]
    exact (h.fresh other hother).1

theorem Listed.after (h : s.Listed) (he : s.Enrolling settings) (htask : task < s.nextTask)
    (hop : s.Proper settings task work op) : (s.after settings task op).Listed := by
  cases op with
  | session id op =>
    exact h.of_same (by rw [after, afterOn_network]) (by rw [after, afterOn_network])
      (afterOn_added _ _ _ _ _) (afterOn_taken _ _ _ _ _) (afterOn_left _ _ _ _ _)
      (afterOn_seen _ _ _ _ _) (afterOn_owing _ _ _ _ _) (nextTask_afterOn_le id op)
  | contacts => exact h.look htask
  | enlist contact => exact h.enlist hop.2.1
  | forget peer =>
    obtain ⟨rest, hrest⟩ := hop
    exact h.forget he hrest
  | setActive contact? =>
    refine h.setActive ?_
    rintro c rfl
    exact hop
  | deactivate peer =>
    obtain ⟨rest, hrest⟩ := hop
    exact h.deactivate hrest
  | departures => exact h.takeDepartures htask hop
  | spawn a => exact h.of_same rfl rfl rfl rfl rfl rfl rfl (Nat.le_succ _)
  | _ => exact h.of_same rfl rfl rfl rfl rfl rfl rfl (Nat.le_refl _)

theorem Fit.after {starter : Task} (h : s.Fit settings) (hstarter : starter ∈ s.tasks)
    (hop : Asks settings starter.id starter.work s op) :
    (s.after settings starter.id op).Fit settings :=
  have hlt := h.sane.fresh starter hstarter
  ⟨h.sane.after hstarter hop, h.whole.after hop.proper, h.enrolling.after hlt hop.proper,
    h.listed.after h.enrolling hlt hop.proper⟩

theorem Fit.of_tasks (h : s.Fit settings) (hsane : t.Sane) (hwhole : t.Whole)
    (hhistory : t.toHistory = { s.toHistory with called := t.called })
    (hnetwork : t.network = s.network) (hpeers : t.peers = s.peers)
    (hnext : s.nextTask ≤ t.nextTask) : t.Fit settings :=
  ⟨hsane, hwhole, h.enrolling.of_same (by rw [hnetwork]) (by rw [hhistory]) (by rw [hhistory]) hpeers
    hnext,
    h.listed.of_same (by rw [hnetwork]) (by rw [hnetwork]) (by rw [hhistory]) (by rw [hhistory])
      (by rw [hhistory]) (by rw [hhistory]) (by rw [hhistory]) hnext⟩

end

end Site

end BlockSync.Network

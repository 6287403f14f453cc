import BlockSync.Proofs.Network.Supervision

/-! Every run of a site is orderly: at each point of it every task goes on securely, whoever is
engaged in something is there to do it, and once only what goes on beside sessions is left of a
supervisor that nothing else was called on, its contacts are closed. -/

namespace BlockSync.Network

namespace Site

/-- A task owes something, or has still to add peers. -/
def Engaged (settings : Settings) (s : Site) (id : TaskId) : Prop :=
  s.owing id ≠ [] ∨ s.enroller = some id ∧ s.added ≠ enrolled settings.peers 0

/-- How a site stands between any two operations. -/
structure Orderly (settings : Settings) (s : Site) : Prop where
  fit : s.Fit settings
  secure : ∀ t ∈ s.tasks, ∀ u : Site, s.Others settings t.id u →
    Secure settings t.id t.work (fun next v => v.Ends settings t.id t.work next) t.program u
  engaged : ∀ id, s.Engaged settings id → ∃ t ∈ s.tasks, t.id = id ∧ t.work.isAside = false
  shut : s.Sole → s.called ≠ [] → (∀ t ∈ s.tasks, t.work.isAside = true) → s.Shut

section

variable {settings : Settings} {other : TaskId} {op : Op} {r : interface.Answer op}
  {starter : Task} {work : Work} {s t : Site}

theorem Shut.meanwhile (h : s.Shut) (hall : ∀ t ∈ s.tasks, t.work.isAside = true)
    (hst : Meanwhile other s t) (hsole : t.Sole) : t.Shut := by
  obtain ⟨-, hnetwork, hclosed⟩ := hst.calm hsole fun u hu _ => hall u hu
  refine ⟨hst.stopping h.stopping, fun c hc => ?_⟩
  rw [hnetwork] at hc
  exact hclosed _ (h.closed c hc)

theorem ready_of_new (hs : s.Fit settings) (ht : t.Fit settings) {parent : Option TaskId}
    {program : Action (Option Work)}
    (htasks : t.tasks = s.tasks ++ [⟨s.nextTask, parent, work, program⟩])
    (hparent : parent ≠ some s.nextTask) (howing : t.owing = s.owing)
    (henroller : t.enroller = s.enroller) : t.Ready settings s.nextTask [] := by
  refine ⟨ht, fun u hu hchild hopen => ?_, ?_, fun he => ?_⟩
  · rw [htasks] at hu
    rcases List.mem_append.mp hu with hold | hnew
    · exact hs.sane.minds_next u hold hchild hopen
    · rw [List.mem_singleton.mp hnew] at hchild
      exact absurd hchild hparent
  · rw [howing]
    exact (hs.listed.fresh s.nextTask (Nat.le_refl _)).1
  · rw [henroller] at he
    exact absurd (hs.enrolling.fresh s.nextTask he) (Nat.lt_irrefl _)

theorem Fit.mapTask (h : s.Fit settings) {id : TaskId} {f : Task → Task}
    (hf : s.Continues id f) : (s.mapTask id f).Fit settings := by
  have hmeanwhile : Meanwhile 0 s (s.mapTask id f) := meanwhile_mapTask hf
  exact h.of_tasks (h.sane.mapTask hf) (h.whole.of_aside rfl hmeanwhile.aside) rfl rfl rfl
    (Nat.le_refl _)

theorem mem_or_begins (hs : s.Fit settings) (hstarter : starter ∈ s.tasks)
    (hop : Asks settings starter.id starter.work s op) {u : Task}
    (hu : u ∈ (s.after settings starter.id op).tasks) :
    u ∈ s.tasks ∨ u.program = u.work.program settings ∧
      (s.after settings starter.id op).Begins settings u.id u.work := by
  have hfit := hs.after hstarter hop
  have hlt := hs.sane.fresh starter hstarter
  have hparent : some starter.id ≠ some s.nextTask := fun h =>
    Nat.lt_irrefl _ ((Option.some.inj h) ▸ hlt)
  have hproper := hop.proper
  cases op with
  | session id op =>
    cases op with
    | spawn a =>
      rcases List.mem_append.mp hu with hold | hnew
      · exact .inl hold
      · rw [List.mem_singleton] at hnew
        subst hnew
        exact .inr ⟨rfl, ready_of_new hs hfit rfl hparent rfl rfl, trivial⟩
    | abort id => exact .inl (List.mem_filter.mp hu).1
    | _ => exact .inl hu
  | spawn a =>
    rcases List.mem_append.mp hu with hold | hnew
    · exact .inl hold
    · rw [List.mem_singleton] at hnew
      subst hnew
      have hne : s.nextTask ≠ 0 := Nat.ne_of_gt (Nat.lt_of_le_of_lt (Nat.zero_le _) hlt)
      have hready := ready_of_new hs hfit rfl hparent rfl rfl
      cases a with
      | connect | retry => exact .inr ⟨rfl, hready, hne⟩
      | _ => exact hproper.elim
  | _ => exact .inl hu

theorem mem_after_self (hstarter : starter ∈ s.tasks)
    (hop : Asks settings starter.id starter.work s op) :
    starter ∈ (s.after settings starter.id op).tasks := by
  refine mem_after hop.proper hstarter ?_
  cases starter.work.isAside with
  | true => exact .inr rfl
  | false => exact .inl rfl

theorem added_after (hs : s.added = enrolled settings.peers 0) {task : TaskId}
    (hop : s.Proper settings task work op) :
    (s.after settings task op).added = enrolled settings.peers 0 := by
  cases op with
  | session id op => exact (afterOn_added _ _ _ _ _).trans hs
  | enlist contact =>
    have hlength := hop.2.1.length_le
    rw [hs, List.length_append, List.length_singleton] at hlength
    exact absurd hlength (Nat.not_succ_le_self _)
  | _ => exact hs

theorem owing_after_of_ne {task id : TaskId} (hid : id ≠ task) :
    (s.after settings task op).owing id = s.owing id := by
  cases op with
  | session id' op => rw [after, afterOn_owing]
  | forget | deactivate | departures => exact Function.update_of_ne hid _ _
  | _ => rfl

theorem enroller_after_of_ne {task id : TaskId} (hid : id ≠ task)
    (h : (s.after settings task op).enroller = some id) : s.enroller = some id := by
  cases op with
  | session id' op => rwa [after, afterOn_enroller] at h
  | markInitialized =>
    change (if s.network.initialized then s.enroller else some task) = some id at h
    split at h
    · exact h
    · exact absurd (Option.some.inj h).symm hid
  | _ => exact h

theorem Engaged.of_after {task id : TaskId} (hop : s.Proper settings task work op)
    (h : (s.after settings task op).Engaged settings id) :
    s.Engaged settings id ∨ id = task ∧ ∀ id' op', op ≠ .session id' op' := by
  have hadded (hnot : (s.after settings task op).added ≠ enrolled settings.peers 0) :
      s.added ≠ enrolled settings.peers 0 := mt (fun hs => added_after hs hop) hnot
  by_cases hsession : ∃ id' op', op = .session id' op'
  · obtain ⟨id', op', rfl⟩ := hsession
    rw [Engaged, after, afterOn_owing, afterOn_enroller, afterOn_added] at h
    exact .inl h
  · by_cases hid : id = task
    · exact .inr ⟨hid, fun id' op' h => hsession ⟨id', op', h⟩⟩
    · rw [Engaged, owing_after_of_ne hid] at h
      exact .inl (h.imp_right fun he => ⟨enroller_after_of_ne hid he.1, hadded he.2⟩)

theorem Stance.not_engaged {ids : List TaskId} {task : TaskId} (h : s.Ready settings task ids) :
    ¬ s.Engaged settings task := by
  rintro (howing | ⟨henroller, hadded⟩)
  · exact howing h.owing
  · exact hadded (h.enrolled henroller)

theorem Orderly.here (h : s.Orderly settings) {t : Task} (ht : t ∈ s.tasks) :
    Secure settings t.id t.work (fun next v => v.Ends settings t.id t.work next) t.program s :=
  h.secure t ht s (.refl h.fit)

theorem Orderly.act (h : s.Orderly settings) (hstarter : starter ∈ s.tasks)
    {next : interface.Answer op → Action (Option Work)} (hprogram : starter.program = .ask op next)
    (hr : s.Allows op r) :
    ((s.after settings starter.id op).mapTask starter.id
      ({ · with program := next r })).Orderly settings := by
  have hhere := h.here hstarter
  rw [hprogram] at hhere
  obtain ⟨hop, hnext⟩ := hhere
  have hfit := h.fit.after hstarter hop
  have hthere := mem_after_self hstarter hop
  have hf : (s.after settings starter.id op).Continues starter.id ({ · with program := next r }) :=
    ⟨fun _ => rfl, fun _ => rfl, fun _ _ _ => rfl⟩
  have hmap (other : TaskId) : Meanwhile other (s.after settings starter.id op)
      ((s.after settings starter.id op).mapTask starter.id ({ · with program := next r })) :=
    meanwhile_mapTask hf
  have hothers (other : TaskId) (hne : other ≠ starter.id) :
      Meanwhile other s (s.after settings starter.id op) :=
    meanwhile_after hstarter hop hne fun hinit => (h.fit.enrolling.before hinit).1
  refine ⟨hfit.mapTask hf, fun v hv u hu => ?_, fun id hid => ?_, fun hsole hcalled hall => ?_⟩
  · obtain ⟨w, hw, hid, -, -, rfl⟩ := hf.mem hv
    by_cases hstarts : w.id = starter.id
    · have hsame : w = starter := hfit.sane.unique w hw starter hthere hstarts
      subst hsame
      rw [if_pos rfl] at hu ⊢
      exact hnext r u ⟨hr, .of_meanwhile (hmap w.id) hu⟩
    · rw [if_neg hstarts] at hu ⊢
      rcases mem_or_begins h.fit hstarter hop hw with hold | ⟨hnew, hbegins⟩
      · exact h.secure w hold u (.of_meanwhile ((hothers w.id hstarts).trans (hmap w.id)) hu)
      · rw [hnew]
        exact secure_program (hbegins.others (.of_meanwhile (hmap w.id) hu))
  · have hmem {v : Task} (hv : v ∈ (s.after settings starter.id op).tasks) (hvid : v.id = id)
        (hopen : v.work.isAside = false) :
        ∃ v ∈ ((s.after settings starter.id op).mapTask starter.id
          ({ · with program := next r })).tasks, v.id = id ∧ v.work.isAside = false := by
      refine ⟨_, List.mem_map.mpr ⟨v, hv, rfl⟩, ?_⟩
      split <;> exact ⟨hvid, hopen⟩
    change (s.after settings starter.id op).Engaged settings id at hid
    rcases hid.of_after hop.proper with hbefore | ⟨rfl, hoper⟩
    · obtain ⟨v, hv, hvid, hopen⟩ := h.engaged id hbefore
      exact hmem (mem_after hop.proper hv (.inl hopen)) hvid hopen
    · refine hmem hthere rfl ?_
      by_contra haside
      obtain ⟨id', op', hsession⟩ := hop.aside (by rwa [Bool.not_eq_false] at haside)
      exact hoper id' op' hsession
  · have hstay {v : Task} (hv : v ∈ (s.after settings starter.id op).tasks) :
        v.work.isAside = true := by
      have hmem := hall _ (List.mem_map.mpr ⟨v, hv, rfl⟩)
      split at hmem <;> exact hmem
    have hbefore (v : Task) (hv : v ∈ s.tasks) : v.work.isAside = true :=
      hstay (mem_after hop.proper hv (.inr (hstay hthere)))
    have hlater : Meanwhile (starter.id + 1) s _ :=
      (hothers _ (Nat.succ_ne_self _)).trans (hmap _)
    refine (h.shut (hsole.earlier hlater.called) ?_ hbefore).meanwhile hbefore hlater hsole
    rw [← called_after settings starter.id op s]
    exact hcalled

theorem Orderly.renew (h : s.Orderly settings) (hstarter : starter ∈ s.tasks)
    (hprogram : starter.program = .done (some work)) :
    (s.mapTask starter.id ({ · with work, program := work.program settings })).Orderly settings := by
  have hends := h.here hstarter
  rw [hprogram] at hends
  obtain ⟨haside, hbegins⟩ := hends
  have hf : s.Continues starter.id ({ · with work, program := work.program settings }) := by
    refine ⟨fun _ => rfl, fun _ => rfl, fun u hu hid => ?_⟩
    rw [h.fit.sane.unique u hu starter hstarter hid]
    exact haside
  have hmap (other : TaskId) : Meanwhile other s
      (s.mapTask starter.id ({ · with work, program := work.program settings })) :=
    meanwhile_mapTask hf
  have hsame {v : Task} (hv : v ∈ s.tasks) :
      ∃ w ∈ (s.mapTask starter.id ({ · with work, program := work.program settings })).tasks,
        w.id = v.id ∧ w.work.isAside = v.work.isAside := by
    refine ⟨_, List.mem_map.mpr ⟨v, hv, rfl⟩, ?_⟩
    split
    · next hid => exact ⟨rfl, hf.aside v hv hid⟩
    · exact ⟨rfl, rfl⟩
  refine ⟨h.fit.mapTask hf, fun v hv u hu => ?_, fun id hid => ?_, fun hsole hcalled hall => ?_⟩
  · obtain ⟨w, hw, hid, -, -, rfl⟩ := hf.mem hv
    split at hu
    · next hstarts =>
      rw [if_pos hstarts]
      change s.Begins settings starter.id work at hbegins
      rw [← hstarts] at hbegins
      exact secure_program (hbegins.others (.of_meanwhile (hmap w.id) hu))
    · next hstarts =>
      rw [if_neg hstarts]
      exact h.secure w hw u (.of_meanwhile (hmap w.id) hu)
  · obtain ⟨v, hv, hvid, hopen⟩ := h.engaged id hid
    obtain ⟨w, hw, hwid, hwaside⟩ := hsame hv
    exact ⟨w, hw, hwid.trans hvid, hwaside.trans hopen⟩
  · have hbefore (v : Task) (hv : v ∈ s.tasks) : v.work.isAside = true := by
      obtain ⟨w, hw, -, hwaside⟩ := hsame hv
      exact hwaside ▸ hall w hw
    exact (h.shut hsole hcalled hbefore).meanwhile hbefore (hmap 0) hsole

theorem Orderly.finish (h : s.Orderly settings) (hstarter : starter ∈ s.tasks)
    (hprogram : starter.program = .done none) : (s.remove starter.id).Orderly settings := by
  have hends := h.here hstarter
  rw [hprogram] at hends
  obtain ⟨hready, hlast⟩ := hends
  have hremove (other : TaskId) : Meanwhile other s (s.remove starter.id) := meanwhile_remove _
  have hstay {v : Task} (hv : v ∈ s.tasks) (hne : v.id ≠ starter.id) :
      v ∈ (s.remove starter.id).tasks := List.mem_filter.mpr ⟨hv, decide_eq_true hne⟩
  refine ⟨?_, fun v hv u hu => ?_, fun id hid => ?_, fun hsole hcalled hall => ?_⟩
  · exact h.fit.of_tasks (h.fit.sane.remove (.inr hready.minds))
      (h.fit.whole.of_aside rfl (hremove 0).aside) rfl rfl rfl (Nat.le_refl _)
  · exact h.secure v (List.mem_filter.mp hv).1 u (.of_meanwhile (hremove v.id) hu)
  · obtain ⟨v, hv, rfl, hopen⟩ := h.engaged id hid
    refine ⟨v, hstay hv fun hself => ?_, rfl, hopen⟩
    rw [hself] at hid
    exact hready.not_engaged hid
  · have hbefore (haside : starter.work.isAside = true) : s.Shut := by
      refine h.shut hsole hcalled fun v hv => ?_
      by_cases hid : v.id = starter.id
      · rw [h.fit.sane.unique v hv starter hstarter hid]
        exact haside
      · exact hall v (hstay hv hid)
    have hshut : s.Shut := by
      cases haside : starter.work.isAside with
      | true => exact hbefore haside
      | false =>
        -- Only the first task may be the last that does not go on beside a session.
        rcases h.fit.sane.rooted starter hstarter haside with hroot | ⟨g, hg, hopen, hparent⟩
        · rcases hlast with hlast | hlast
          · exact hbefore hlast
          · exact hlast (h.fit.sane.called hsole starter hstarter hroot) hsole
        · have hlt := h.fit.sane.parent starter hstarter g.id hparent
          rw [hall g (hstay hg (Nat.ne_of_lt hlt))] at hopen
          cases hopen
    exact ⟨hshut.stopping, hshut.closed⟩

theorem Orderly.of_same (h : s.Orderly settings) (hfit : t.Fit settings)
    (hmeanwhile : ∀ other, Meanwhile other s t) (htasks : t.tasks = s.tasks)
    (hcalled : t.called = s.called) (hengaged : ∀ id, t.Engaged settings id → s.Engaged settings id) :
    t.Orderly settings := by
  refine ⟨hfit, fun v hv u hu => ?_, fun id hid => ?_, fun hsole hnone hall => ?_⟩
  · exact h.secure v (htasks ▸ hv) u (.of_meanwhile (hmeanwhile v.id) hu)
  · rw [htasks]
    exact h.engaged id (hengaged id hid)
  · rw [htasks] at hall
    rw [hcalled] at hnone
    exact (h.shut (hsole.earlier (hmeanwhile 0).called) hnone hall).meanwhile hall
      (hmeanwhile 0) hsole

theorem Orderly.interrupt (h : s.Orderly settings) :
    { s with stopping := true }.Orderly settings :=
  h.of_same (h.fit.of_tasks (h.fit.sane.of_same rfl rfl rfl) h.fit.whole rfl rfl rfl (Nat.le_refl _))
    (fun _ => meanwhile_interrupt) rfl rfl fun _ h => h

theorem Orderly.announce (h : s.Orderly settings) (id : SessionId) (message : GoAway) :
    (s.announce id message).Orderly settings := by
  have hfit : (s.announce id message).Fit settings :=
    ⟨h.fit.sane.of_same rfl rfl rfl, h.fit.whole,
      h.fit.enrolling.of_same rfl rfl rfl rfl (Nat.le_refl _),
      h.fit.listed.of_same rfl rfl rfl rfl rfl rfl rfl (Nat.le_refl _)⟩
  refine h.of_same hfit (fun _ => ?_) rfl rfl fun _ h => h
  exact meanwhile_of_same rfl rfl rfl rfl (fun h => h) rfl rfl .rfl (fun _ => ⟨rfl, rfl⟩)
    fun _ => rfl

theorem suits_call (h : s.Sane) (hcall : work.IsCall) :
    (s.call settings work).Suits s.nextTask work := by
  have hnone (hsole : (s.call settings work).Sole) : s.called = [] ∧ work = .activity .run := by
    have hlength := hsole.length_le
    change (s.called ++ [work]).length ≤ 1 at hlength
    rw [List.length_append, List.length_singleton] at hlength
    have hnil : s.called = [] := List.eq_nil_of_length_eq_zero (by omega)
    change s.called ++ [work] <+: [.activity .run] at hsole
    rw [hnil, List.nil_append, List.cons_prefix_cons] at hsole
    exact ⟨hnil, hsole.1⟩
  cases hcall with
  | run => exact fun hsole => h.first (hnone hsole).1
  | ensure | init | select => exact fun hsole => nomatch (hnone hsole).2

theorem Orderly.call (h : s.Orderly settings) (hcall : work.IsCall) :
    (s.call settings work).Orderly settings := by
  have haside : work.isAside = false := by cases hcall <;> rfl
  have hpending : work.pending = [] := by cases hcall <;> rfl
  have hothers (other : TaskId) (hlt : other < s.nextTask) :
      Meanwhile other s (s.call settings work) := meanwhile_call h.fit.sane hlt settings work
  have hcomes (u : Task) (hu : u ∈ (s.call settings work).tasks) : s.Comes 0 u :=
    comes_append (fun hnone => by cases hnone) hu
  have hfit : (s.call settings work).Fit settings :=
    h.fit.of_tasks (h.fit.sane.call settings work)
      (h.fit.whole.of_aside rfl fun _ hi => aside_of_comes (Nat.le_succ _) hcomes hi) rfl rfl rfl
      (Nat.le_succ _)
  refine ⟨hfit, fun v hv u hu => ?_, fun id hid => ?_, fun _ _ hall => ?_⟩
  · rcases List.mem_append.mp hv with hold | hnew
    · exact h.secure v hold u (.of_meanwhile (hothers v.id (h.fit.sane.fresh v hold)) hu)
    · rw [List.mem_singleton] at hnew
      subst hnew
      have hbegins : (s.call settings work).Begins settings s.nextTask work := by
        refine ⟨?_, suits_call h.fit.sane hcall⟩
        rw [hpending]
        exact ready_of_new h.fit hfit rfl (by simp) rfl rfl
      exact secure_program (hbegins.others hu)
  · obtain ⟨v, hv, hrest⟩ := h.engaged id hid
    exact ⟨v, List.mem_append_left _ hv, hrest⟩
  · have hthere := hall _ (List.mem_append_right _ (List.mem_singleton.mpr rfl))
    change work.isAside = true at hthere
    rw [haside] at hthere
    cases hthere

end

end Site

section

variable {settings : Settings} {s t : Site}

theorem Step.orderly (h : Step settings s t) (hs : s.Orderly settings) : t.Orderly settings := by
  cases h with
  | act htask hprogram hr => exact hs.act htask hprogram hr
  | renew htask hprogram => exact hs.renew htask hprogram
  | finish htask hprogram => exact hs.finish htask hprogram
  | interrupt => exact hs.interrupt

theorem Event.orderly (h : Event settings s t) (hs : s.Orderly settings) : t.Orderly settings := by
  cases h with
  | step hstep => exact hstep.orderly hs
  | call _ hcall => exact hs.call hcall
  | announce id message => exact hs.announce id message

theorem orderly_nil (settings : Settings) : ({} : Site).Orderly settings := by
  have hsane : ({} : Site).Sane :=
    ⟨nofun, nofun, nofun, nofun, fun _ => rfl, nofun⟩
  have hnobody (id : TaskId) : ¬ ({} : Site).Engaged settings id := by
    rintro (hnone | ⟨hnone, -⟩)
    · exact hnone rfl
    · cases hnone
  refine ⟨⟨hsane, nofun, ?_, ?_⟩, nofun, fun id hid => absurd hid (hnobody id),
    fun _ hnone => absurd rfl hnone⟩
  · exact ⟨fun _ => ⟨rfl, rfl, rfl⟩, nofun, nofun, List.nil_prefix, List.nil_prefix, List.nil_prefix⟩
  · exact ⟨rfl, nofun, nofun, nofun, nofun, nofun, fun _ _ => ⟨rfl, rfl⟩⟩

theorem orderly_of_events (h : Relation.ReflTransGen (Event settings) {} s) :
    s.Orderly settings := by
  induction h with
  | refl => exact orderly_nil settings
  | tail _ hstep ih => exact hstep.orderly ih

end

end BlockSync.Network

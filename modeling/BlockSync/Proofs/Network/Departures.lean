import BlockSync.Proofs.Network.Orderly

/-! Peers that were left. Whatever is called on a supervisor, and in whatever order the operations of
its tasks come, a contact that was left is among the contacts no more. Nor is it seen again; but who
saw it before may still choose it, and make it active. -/

namespace BlockSync.Network

open BlockSync.Network.Action

namespace Site

structure Moves (s t : Site) : Prop where
  left : s.left <+: t.left
  seen : ∀ task, ∀ c ∈ t.seen task, c ∈ s.seen task ∨ c ∈ s.network.contacts
  active : ∀ c, t.network.active = some c →
    s.network.active = some c ∨ ∃ task, c ∈ s.seen task
  chosen : ∃ new, t.chosen = s.chosen ++ new ∧ ∀ x ∈ new, x.2 ∈ s.seen x.1

/-- Of a contact no more is left later than there was: it is no contact, nobody sees it who did not
see it before, and it becomes active or is chosen only through those who did. -/
structure Shuns (c : Contact) (s t : Site) : Prop where
  contacts : c ∉ t.network.contacts
  seen : ∀ task, c ∈ t.seen task → c ∈ s.seen task
  active : t.network.active = some c → s.network.active = some c ∨ ∃ task, c ∈ s.seen task
  chosen : ∃ new, t.chosen = s.chosen ++ new ∧ ∀ task, (task, c) ∈ new → c ∈ s.seen task

section

variable {settings : Settings} {task : TaskId} {work : Work} {op : Op} {c : Contact}
  {s t u : Site}

theorem Moves.of_same (hleft : t.left = s.left) (hseen : t.seen = s.seen)
    (hactive : t.network.active = s.network.active) (hchosen : t.chosen = s.chosen) :
    s.Moves t := by
  refine ⟨hleft ▸ List.prefix_refl _, fun _ _ hc => .inl (hseen ▸ hc),
    fun _ hc => .inl (hactive ▸ hc), [], ?_, List.forall_mem_nil _⟩
  rw [hchosen, List.append_nil]

theorem moves_after (hop : s.Proper settings task work op) :
    s.Moves (s.after settings task op) := by
  have hnone : ∃ new, s.chosen = s.chosen ++ new ∧ ∀ x ∈ new, x.2 ∈ s.seen x.1 :=
    ⟨[], (List.append_nil _).symm, List.forall_mem_nil _⟩
  have hupdate {seen : List Contact} {other : TaskId} {c : Contact}
      (hc : c ∈ Function.update s.seen task seen other) : c ∈ s.seen other ∨ c ∈ seen := by
    by_cases hother : other = task
    · subst hother
      rw [Function.update_self] at hc
      exact .inr hc
    · rw [Function.update_of_ne hother] at hc
      exact .inl hc
  cases op with
  | session id op =>
    exact .of_same (afterOn_left _ _ _ _ _) (afterOn_seen _ _ _ _ _)
      (by rw [after, afterOn_network]) (afterOn_chosen _ _ _ _ _)
  | contacts =>
    exact ⟨List.prefix_refl _, fun _ _ => hupdate, fun _ h => .inl h, hnone⟩
  | forget peer =>
    exact ⟨List.prefix_append _ _, fun _ _ h => .inl h, fun _ h => .inl h, hnone⟩
  | setActive contact? =>
    refine ⟨List.prefix_refl _, fun _ _ hc => (hupdate hc).imp_right ?_, ?_, hnone⟩
    · exact fun hmem => absurd hmem List.not_mem_nil
    rintro c rfl
    exact .inr ⟨task, hop⟩
  | deactivate peer =>
    exact ⟨List.prefix_refl _, fun _ _ h => .inl h,
      fun _ h => .inl (Option.filter_eq_some_iff.mp h).1, hnone⟩
  | report contact =>
    refine ⟨List.prefix_refl _, fun _ _ h => .inl h, fun _ h => .inl h, [(task, contact)], rfl, ?_⟩
    exact List.forall_mem_singleton.mpr hop
  | _ => exact .of_same rfl rfl rfl rfl

end

end Site

section

variable {settings : Settings} {c : Contact} {s t u : Site}

theorem Event.moves (h : Event settings s t) (hs : s.Orderly settings) : s.Moves t := by
  cases h with
  | step hstep =>
    cases hstep with
    | @act task op next r htask hprogram hr =>
      have hhere := hs.here htask
      rw [hprogram] at hhere
      obtain ⟨hleft, hseen, hactive, hchosen⟩ := Site.moves_after hhere.1.proper
      exact ⟨hleft, hseen, hactive, hchosen⟩
    | renew | finish | interrupt => exact .of_same rfl rfl rfl rfl
  | call | announce => exact .of_same rfl rfl rfl rfl

theorem Site.Moves.not_keeps (h : s.Moves t) (hc : ¬ s.Keeps c) : ¬ t.Keeps c :=
  fun hkeeps => hc fun d hd => hkeeps d (h.left.subset hd)

theorem Site.Orderly.not_mem (h : s.Orderly settings) (hc : ¬ s.Keeps c) :
    c ∉ s.network.contacts := by
  rw [h.fit.listed.contacts, List.mem_filter, decide_eq_true_eq]
  exact fun hmem => hc hmem.2

theorem shuns_of_events (hs : s.Orderly settings)
    (ht : Relation.ReflTransGen (Event settings) s t) (hc : ¬ s.Keeps c) :
    t.Orderly settings ∧ ¬ t.Keeps c ∧ s.Shuns c t := by
  induction ht with
  | refl =>
    exact ⟨hs, hc, hs.not_mem hc, fun _ h => h, .inl, [], (List.append_nil _).symm, nofun⟩
  | @tail u v _ hstep ih =>
    obtain ⟨hu, hleft, hshuns⟩ := ih
    have hmoves := hstep.moves hu
    have hv := hstep.orderly hu
    have hleft' := hmoves.not_keeps hleft
    refine ⟨hv, hleft', hv.not_mem hleft', fun task hseen => ?_, fun hactive => ?_, ?_⟩
    · exact hshuns.seen task ((hmoves.seen task c hseen).resolve_right hshuns.contacts)
    · rcases hmoves.active c hactive with hbefore | ⟨task, hseen⟩
      · exact hshuns.active hbefore
      · exact .inr ⟨task, hshuns.seen task hseen⟩
    · obtain ⟨new, hnew, hchosen⟩ := hshuns.chosen
      obtain ⟨more, hmore, hseen⟩ := hmoves.chosen
      refine ⟨new ++ more, by rw [hmore, hnew, List.append_assoc], fun task hmem => ?_⟩
      rcases List.mem_append.mp hmem with hold | hlate
      · exact hchosen task hold
      · exact hshuns.seen task (hseen _ hlate)

/-- Who owes something is there, and does it next. -/
theorem Site.Orderly.asks_duty (h : s.Orderly settings) {id : TaskId} {op : Op} {rest : List Op}
    (howing : s.owing id = op :: rest) :
    ∃ task ∈ s.tasks, task.id = id ∧ ∃ next, task.program = .ask op next := by
  have hengaged : s.Engaged settings id := .inl (howing ▸ List.cons_ne_nil _ _)
  obtain ⟨task, htask, rfl, -⟩ := h.engaged id hengaged
  have hhere := h.here htask
  refine ⟨task, htask, rfl, ?_⟩
  cases hprogram : task.program with
  | done next =>
    rw [hprogram] at hhere
    cases next with
    | none => exact absurd hengaged hhere.1.not_engaged
    | some work => exact absurd hengaged hhere.2.ready.not_engaged
  | ask op' next =>
    rw [hprogram] at hhere
    obtain rfl := hhere.1.duty op rest howing
    exact ⟨next, rfl⟩

/-- Whatever is called on a supervisor and in whatever order the operations of its tasks come, the
contacts are those of the configured peers, in their order, that were added and whose peers were not
left since. A peer is left when a departure of it was taken; whoever took it has it left before
anything else. A contact that was left is among the contacts no more, and it is seen, chosen or made
active only by those who had seen it before. -/
theorem left_for_good (hs : Relation.ReflTransGen (Event settings) {} s)
    (ht : Relation.ReflTransGen (Event settings) s t) :
    (t.added <+: enrolled settings.peers 0 ∧ t.network.contacts = t.added.filter t.Keeps) ∧
    (∀ d ∈ t.left, d.1 ∈ t.taken.map (·.peer)) ∧
    (∀ d ∈ t.taken, d.peer ∈ t.left.map (·.1) ∨ ∃ id, .forget d.peer ∈ t.owing id) ∧
    (∀ id op rest, t.owing id = op :: rest →
      ∃ task ∈ t.tasks, task.id = id ∧ ∃ next, task.program = .ask op next) ∧
    (∀ c, t.network.active = some c → c ∈ t.network.contacts ∨ c.peer ∈ t.left.map (·.1)) ∧
    ∀ c, ¬ s.Keeps c → s.Shuns c t := by
  have horderly := orderly_of_events (hs.trans ht)
  have hlisted := horderly.fit.listed
  refine ⟨⟨horderly.fit.enrolling.added, hlisted.contacts⟩, fun d hd => (hlisted.left d hd).2,
    hlisted.taken, fun _ _ _ => horderly.asks_duty, hlisted.active, fun c hc => ?_⟩
  exact (shuns_of_events (orderly_of_events hs) ht hc).2.2

end

namespace Farewell

/-- Two sessions with one peer, and one with another. -/
def settings : Settings := { peers := ["10.0.0.1:9876", "10.0.0.1:9876", "10.0.0.2:9876"] }

def first : Contact := ⟨0, "10.0.0.1:9876", ⟨"10.0.0.1", 9876⟩⟩

def twin : Contact := ⟨1, "10.0.0.1:9876", ⟨"10.0.0.1", 9876⟩⟩

def other : Contact := ⟨2, "10.0.0.2:9876", ⟨"10.0.0.2", 9876⟩⟩

def round (task : TaskId) (count : Nat) : List Cue := [.go task count, .endRound task]

/-- A task reads a frame. -/
def read (task : TaskId) (kind : MessageKind) (payload : Bytes) : List Cue :=
  [.read task (Wire.write (UInt32.ofNat (payload.length + 1))), .read task [kind.tag],
    .read task payload]

/-- A peer answers the probe. -/
def dialed (task : TaskId) : List Cue :=
  .go task 17 :: read task .time (Message.time { origin := 1, receive := 4, transmit := 5 }).payload ++
    round task 8

/-- All peers are dialed, and the first is received from until it asks to be left. The task that
dials at intervals takes the departure. Before it leaves the peer, the supervisor looks for another
contact, and finds the other session with that peer. -/
def opening : List Cue :=
  round 0 8 ++ round 0 1 ++ round 0 6 ++ [.go 0 9] ++ dialed 2 ++ dialed 3 ++ dialed 4 ++
  round 0 5 ++ round 0 23 ++ [.go 0 5] ++
  read 0 .goAway (Message.goAway ⟨.noReason, Octets.zero 32⟩).payload ++ round 0 10 ++ round 0 1 ++
  [.go 1 3, .go 0 7] ++ round 1 4

def choice : List Cue := [.go 0 2]

def ending : List Cue :=
  round 0 13 ++ [.interrupt] ++ round 0 5 ++ [.go 0 1] ++ round 1 2 ++ round 0 5

def start : Site := ({} : Site).call settings (.activity .run)

structure Glance where
  tasks : List TaskId
  peers : List String
  left : List (String × Nat)
  contacts : List Contact
  active : Option Contact
  chosen : List (TaskId × Contact)
  closed : Bool
  connected : Bool
  deriving DecidableEq

def glance (s : Site) : Glance where
  tasks := s.tasks.map (·.id)
  peers := s.peers
  left := s.left
  contacts := s.network.contacts
  active := s.network.active
  chosen := s.chosen
  closed := (s.sessions twin.session).closed
  connected := (s.sessions twin.session).connected

def afterOpening : Glance where
  tasks := [0, 1, 5, 6, 7]
  peers := settings.peers
  left := [(twin.peer, 3)]
  contacts := [other]
  active := none
  chosen := [(0, first)]
  closed := false
  connected := true

theorem performed :
    ∃ s t u, Relation.ReflTransGen (Step settings) start s ∧
      Relation.ReflTransGen (Step settings) s t ∧ Relation.ReflTransGen (Step settings) t u ∧
      glance s = afterOpening ∧
      glance t = { afterOpening with active := some twin, chosen := [(0, first), (0, twin)] } ∧
      glance u = { afterOpening with tasks := [5, 6, 7], chosen := [(0, first), (0, twin)] } := by
  have hscript : ((perform settings opening start).bind fun s =>
      (perform settings choice s).bind fun t => (perform settings ending t).map fun u =>
        (glance s, glance t, glance u)) =
      some (afterOpening,
        { afterOpening with active := some twin, chosen := [(0, first), (0, twin)] },
        { afterOpening with tasks := [5, 6, 7], chosen := [(0, first), (0, twin)] }) := by
    decide +kernel
  obtain ⟨s, hs, hscript⟩ := Option.bind_eq_some_iff.mp hscript
  obtain ⟨t, ht, hscript⟩ := Option.bind_eq_some_iff.mp hscript
  obtain ⟨u, hu, hfacts⟩ := Option.map_eq_some_iff.mp hscript
  simp only [Prod.mk.injEq] at hfacts
  exact ⟨s, t, u, steps_perform hs, steps_perform ht, steps_perform hu, hfacts⟩

theorem events_of_steps {s t : Site} (h : Relation.ReflTransGen (Step settings) s t) :
    Relation.ReflTransGen (Event settings) s t :=
  Relation.ReflTransGen.mono (fun _ _ hstep => .step hstep) _ _ h

theorem events_of_start {s : Site} (h : Relation.ReflTransGen (Step settings) start s) :
    Relation.ReflTransGen (Event settings) {} s := .head (.call {} .run) (events_of_steps h)

theorem over_of_glance {s : Site} (h : s.tasks.map (·.id) = [5, 6, 7]) :
    ∀ t ∈ s.tasks, t.id ≠ 0 := by
  rintro t ht hzero
  have hid : t.id ∈ s.tasks.map (·.id) := List.mem_map.mpr ⟨t, ht, rfl⟩
  rw [h, hzero] at hid
  exact absurd hid (by decide)

theorem not_keeps_of_glance {s : Site} (h : s.left = [(twin.peer, 3)]) : ¬ s.Keeps twin := by
  intro hkeeps
  have hplace : 3 ≤ twin.session := hkeeps (twin.peer, 3) (h ▸ List.mem_singleton.mpr rfl) rfl
  exact absurd hplace (by decide)

end Farewell

/-- The supervisor has the contact in hand when its peer is left, and makes it active. -/
theorem left_for_good_of_farewell :
    ∃ s t, Relation.ReflTransGen (Event Farewell.settings) {} s ∧
      Relation.ReflTransGen (Event Farewell.settings) s t ∧ ¬ s.Keeps Farewell.twin ∧
      Farewell.twin ∉ t.network.contacts ∧ t.network.contacts = [Farewell.other] ∧
      t.network.active = some Farewell.twin ∧ ∃ task, Farewell.twin ∈ s.seen task := by
  obtain ⟨s, t, -, hs, ht, -, hfirst, hsecond, -⟩ := Farewell.performed
  have hleft := Farewell.not_keeps_of_glance (congrArg Farewell.Glance.left hfirst)
  have hactive : t.network.active = some Farewell.twin := congrArg Farewell.Glance.active hsecond
  have hnone : s.network.active = none := congrArg Farewell.Glance.active hfirst
  obtain ⟨-, -, -, -, -, hshuns⟩ :=
    left_for_good (Farewell.events_of_start hs) (Farewell.events_of_steps ht)
  obtain ⟨hcontacts, -, hseen, -⟩ := hshuns Farewell.twin hleft
  refine ⟨s, t, Farewell.events_of_start hs, Farewell.events_of_steps ht, hleft, hcontacts,
    congrArg Farewell.Glance.contacts hsecond, hactive, (hseen hactive).resolve_left ?_⟩
  rw [hnone]
  exact nofun

/-- After its peer was left and nobody was active, a contact is chosen and becomes active that is
among the contacts no more. -/
theorem active_after_left :
    ∃ s t, Relation.ReflTransGen (Event Farewell.settings) {} s ∧
      Relation.ReflTransGen (Event Farewell.settings) s t ∧
      Farewell.twin.peer ∈ s.left.map (·.1) ∧ s.network.active = none ∧
      t.network.active = some Farewell.twin ∧ Farewell.twin ∉ t.network.contacts ∧
      t.chosen = s.chosen ++ [(0, Farewell.twin)] := by
  obtain ⟨s, t, -, hs, ht, -, hfirst, hsecond, -⟩ := Farewell.performed
  have hleft : s.left = [(Farewell.twin.peer, 3)] := congrArg Farewell.Glance.left hfirst
  have hcontacts : t.network.contacts = [Farewell.other] :=
    congrArg Farewell.Glance.contacts hsecond
  have hbefore : s.chosen = [(0, Farewell.first)] := congrArg Farewell.Glance.chosen hfirst
  have hafter : t.chosen = [(0, Farewell.first), (0, Farewell.twin)] :=
    congrArg Farewell.Glance.chosen hsecond
  refine ⟨s, t, Farewell.events_of_start hs, Farewell.events_of_steps ht, ?_,
    congrArg Farewell.Glance.active hfirst, congrArg Farewell.Glance.active hsecond, ?_, ?_⟩
  · rw [hleft]
    exact List.mem_singleton.mpr rfl
  · rw [hcontacts]
    decide
  · rw [hafter, hbefore]
    rfl

end BlockSync.Network

import BlockSync.Proofs.Session.Ingestion
import BlockSync.Proofs.Session.Rounds

/-! The ranges that the receive loop asks for. Each starts at the number after the head as it is at
that moment, or at the head if there is no number after it. It is as long as the span at most,
unless it was a notice of irreversible blocks that led to it: then it ends where the peer says. -/

namespace BlockSync

def Message.range? : Message → Option BlockRange
  | .syncRequest range => some range
  | _ => none

theorem Message.range?_eq_none {m : Message} (h : m.kind ≠ .syncRequest) : m.range? = none := by
  cases m with
  | syncRequest => exact absurd rfl h
  | _ => rfl

end BlockSync

namespace BlockSync.Session

open BlockSync.Chain (Engine Memory)

def Event.range? (e : Event) : Option BlockRange := e.message?.bind Message.range?

theorem Event.range?_said (m : Message) : (Event.said m).range? = m.range? := by
  by_cases hk : m.kind = .syncRequest
  · cases m with
    | syncRequest range =>
      exact congrArg (Option.bind · Message.range?)
        (Message.message?_ofWritten (m := .syncRequest range) trivial)
    | _ => cases hk
  · rw [Message.range?_eq_none hk]
    have hf : Frame.ofWritten m.frame = ⟨m.kind.tag, m.payload⟩ := by
      rw [Message.frame, Wire.write_uint8]
      rfl
    refine Option.bind_eq_none_iff.mpr fun m' hm' => Message.range?_eq_none ?_
    have hp := Frame.ofPayload_of_message? hm'
    rw [hf] at hp
    have htag := Message.ofTag_of_ofPayload hp
    rw [ofTag_tag] at htag
    rwa [← Except.ok.inj htag]

section

variable {σ : Type} {E : Engine σ} {settings : Settings} {n n' : Node σ} {es es' : List Event}
  {f : Frame}

def ranges (es : List Event) : List BlockRange := es.filterMap Event.range?

def Unasking (es : List Event) : Prop := ∀ range ∈ ranges es, range.isReset = true

theorem ranges_append : ranges (es ++ es') = ranges es ++ ranges es' := List.filterMap_append

theorem ranges_said (m : Message) : ranges (.said m :: es) = m.range?.toList ++ ranges es := by
  rw [ranges, List.filterMap_cons, Event.range?_said]
  cases m.range? <;> rfl

theorem ranges_turns (change : Session → Session) : ranges (n.turns change) = [] := by
  unfold Node.turns
  split <;> rfl

theorem Unasking.of_nil (h : ranges es = []) : Unasking es := by
  intro range hr
  rw [h] at hr
  cases hr

theorem unasking_restart (anchor : Checksum) :
    Unasking [.said (.syncRequest .reset), .said (.request (.catchUp anchor))] := by
  intro range hr
  rw [ranges_said, ranges_said] at hr
  cases List.mem_singleton.mp hr
  rfl

theorem ranges_of_greeted {num : UInt32} (h : Greeted E settings num n n' es) :
    ranges es = [] := by
  cases h with
  | yes => exact ranges_said _
  | no => rfl

theorem ranges_of_timed {m : TimeStamps} (h : Timed n m n' es) : ranges es = [] := by
  cases h with
  | invalid | answered => rfl
  | probed => exact ranges_said _

theorem ranges_of_rejected {raw : Bytes} (h : Rejected E n raw n' es) : ranges es = [] := by
  cases h <;> rfl

theorem ranges_of_parting (h : Parting f es) :
    ranges (es ++ (n.turns close ++ [.parted])) = [] := by
  rw [ranges_append, ranges_append, ranges_turns]
  cases h with
  | undecodable | goAway => rfl
  | @senseless m =>
    change ranges [.said (.goAway farewell)] = []
    exact ranges_said _

/-- The head when a node looks as it does. -/
def View.headNum (E : Engine σ) (v : View σ) : UInt32 := E.answer v.chain .headNum

/-- A range that is of use, and of which no more is asked for than the span. -/
structure Bounded (E : Engine σ) (settings : Settings) (v : View σ) (range : BlockRange) :
    Prop where
  useful : v.headNum E < range.first
  within : range.last.toNat + 1 ≤ range.first.toNat + max 1 settings.syncFetchSpan.toNat

def Invites (f : Frame) (last : UInt32) : Prop :=
  ∃ m, f.message? = some (.notice m) ∧ m.blocks.mode = .lastIrreversible ∧ m.blocks.pending = last

structure Warranted (E : Engine σ) (settings : Settings) (f : Frame) (v : View σ)
    (range : BlockRange) : Prop where
  first : range.first = satAdd (v.headNum E) 1
  last : range.last.toNat + 1 ≤ range.first.toNat + max 1 settings.syncFetchSpan.toNat ∨
    Invites f range.last

def Reasoned (E : Engine σ) (settings : Settings) (f : Frame) (v : View σ) (e : Event) : Prop :=
  ∀ range, e.range? = some range → range.isReset = false → Warranted E settings f v range

theorem Unasking.reasoned (h : Unasking es) (v : View σ) :
    Along E (Reasoned E settings f) v es := by
  induction es generalizing v with
  | nil => trivial
  | cons e es ih =>
    refine ⟨fun range hr hne => ?_, ih (fun range hr => h range ?_) _⟩
    · have hmem : range ∈ ranges (e :: es) := by simp [ranges, hr]
      rw [h range hmem] at hne
      cases hne
    · exact (List.sublist_cons_self e es).filterMap Event.range? |>.subset hr

theorem reasoned_range {range : BlockRange} {v : View σ} (h : Warranted E settings f v range) :
    Reasoned E settings f v (.said (.syncRequest range)) := by
  intro range' hr _
  rw [Event.range?_said] at hr
  cases hr
  exact h

theorem reasoned_of_sought (hs : Sought E settings n n' es) :
    Along E (Reasoned E settings f) n.view es := by
  cases hs with
  | unknown => trivial
  | range remoteHead range _ hfirst hlast =>
    refine ⟨reasoned_range ⟨hfirst, .inl ?_⟩, trivial⟩
    rw [hlast, toNat_rangeEnd]
    omega
  | nothing => exact Unasking.reasoned (.of_nil (ranges_said _)) _

theorem reasoned_of_followed {num : UInt32} (h : Followed E settings num n n' es) :
    Along E (Reasoned E settings f) n.view es := by
  cases h with
  | within => trivial
  | next _ _ hs => exact reasoned_of_sought hs
  | settled =>
    refine Unasking.reasoned (.of_nil ?_) _
    rw [ranges_said, ranges_said]
    rfl

theorem applyAll_of_said (h : ∀ e ∈ es, ∃ m, e = .said m) (v : View σ) :
    v.applyAll E es = v := by
  induction es with
  | nil => rfl
  | cons e es ih =>
    obtain ⟨⟨m, rfl⟩, hes⟩ := List.forall_mem_cons.mp h
    exact ih hes

theorem reasoned_of_reaction {m : Message} (hf : f.message? = some m)
    (h : Reaction E settings n m n' es) : Along E (Reasoned E settings f) n.view es := by
  cases h with
  | behind _ hs => exact reasoned_of_sought (n := n.heard _) hs
  | content | unmoved | asked | repeated => trivial
  | below | farAbove | above | pointed => exact Unasking.reasoned (.of_nil (ranges_said _)) _
  | @invited notice range hmode hfirst hlast =>
    have hwarranted : Warranted E settings f n.view range :=
      ⟨hfirst, .inr ⟨notice, hf, hmode, hlast.symm⟩⟩
    refine ⟨fun range' hr hne => ?_, reasoned_range hwarranted, trivial⟩
    rw [Event.range?_said] at hr
    cases hr
    cases hne
  | stops => exact Unasking.reasoned (.of_nil (ranges_turns _)) _
  | serves | known => exact Unasking.reasoned (.of_nil rfl) _
  | gap => exact (unasking_restart _).reasoned _
  | unlinked => exact ⟨(fun _ h => nomatch h), (unasking_restart _).reasoned _⟩
  | accepted wantStatistics text hd ho hres hv hp hg hfollow =>
    have hfollowed := reasoned_of_followed (f := f) hfollow
    rw [hg.view_eq, hv] at hfollowed
    refine ⟨(fun _ h => nomatch h), along_append.mpr ⟨?_, ?_⟩⟩
    · exact Unasking.reasoned (.of_nil (ranges_of_greeted hg)) _
    · -- The greeting leaves the view as it was after the push.
      rw [applyAll_of_said (said_of_greeted hg)]
      exact hfollowed

theorem reasoned_of_outcome {b : Bool} (h : Outcome E settings n f b n' es) :
    Along E (Reasoned E settings f) n.view es := by
  cases h with
  | passed => trivial
  | reacted hf hr => exact reasoned_of_reaction hf hr
  | timed _ ht => exact Unasking.reasoned (.of_nil (ranges_of_timed ht)) _
  | rejected _ hr => exact Unasking.reasoned (.of_nil (ranges_of_rejected hr)) _
  | left hp => exact Unasking.reasoned (.of_nil (ranges_of_parting hp)) _

def inHand (es : List Event) : Option Frame :=
  (es.filterMap fun
    | .took f => some f
    | _ => none).getLast?

theorem inHand_took (before : List Event) (h : ∀ g, .took g ∉ es) :
    inHand (before ++ .took f :: es) = some f := by
  have hnone : (es.filterMap fun
      | .took f => some f
      | _ => none) = [] := by
    refine List.filterMap_eq_nil_iff.mpr fun e he => ?_
    cases e with
    | took g => exact absurd he (h g)
    | _ => rfl
  rw [inHand, List.filterMap_append, List.filterMap_cons, hnone]
  exact List.getLast?_concat

/-- Whether every range among events has a reason in the frame that is in hand. -/
def Founded (E : Engine σ) (settings : Settings) (v : View σ) (es : List Event) : Prop :=
  ∀ before e after range, es = before ++ e :: after → e.range? = some range →
    range.isReset = false →
    ∃ f, inHand before = some f ∧ Warranted E settings f (v.applyAll E before) range

variable {start : Node σ} {b : Bool}

theorem founded_greeting (v : View σ) (m : Handshake) :
    Founded E settings v [.said (.syncRequest .reset), .said (.handshake m)] := by
  intro before e after range hes he hr
  have hmem : e ∈ before ++ e :: after := List.mem_append_cons_self
  rw [← hes, List.mem_cons, List.mem_singleton] at hmem
  rcases hmem with rfl | rfl <;> rw [Event.range?_said] at he <;> cases he
  cases hr

theorem Founded.round {v : View σ} (h : Founded E settings v es)
    (hround : Along E (Reasoned E settings f) (v.applyAll E es) es') (htook : ∀ g, .took g ∉ es') :
    Founded E settings v (es ++ .took f :: es') := by
  intro before e after range hes he hr
  rcases List.append_eq_append_iff.mp hes with ⟨later, rfl, hrest⟩ | ⟨rest, rfl, hrest⟩
  · rcases List.cons_eq_append_iff.mp hrest with ⟨-, hcons⟩ | ⟨between, rfl, rfl⟩
    · cases hcons
      cases he
    · refine ⟨f, inHand_took es fun g hg => htook g (List.mem_append_left _ hg), ?_⟩
      rw [applyAll_append]
      exact (along_append.mp hround).2.1 range he hr
  · rcases List.cons_eq_append_iff.mp hrest with ⟨-, hcons⟩ | ⟨between, rfl, rfl⟩
    · cases hcons
      cases he
    · exact h before e between range rfl he hr

end

/-- In every run of the loop, on any engine, a range that is asked for starts at the number after the
head as it is at that moment, or at the head if there is none after it. It is no longer than the
span, unless the frame in hand is a notice that says where it ends. -/
theorem ranges_are_founded {σ : Type} {E : Engine σ} {settings : Settings} {start n : Node σ}
    {b : Bool} {es : List Event} (ho : start.view.Open) (h : Attends E settings start b n es) :
    Founded E settings start.view es := by
  refine h.invariant (I := fun _ es => Founded E settings start.view es) ho
    (founded_greeting _ _) fun m f b m' fs fs' ha _ ih htook hout => ih.round ?_ htook
  rw [← ha.view_eq]
  exact reasoned_of_outcome hout

def farNotice : Frame :=
  Frame.ofWritten
    (Message.notice { blocks := { mode := .lastIrreversible, pending := 5000 } }).frame

theorem attends_farNotice : ∃ n before e,
    Attends Memory.engine {} plainNode true n (before ++ [e]) ∧
      e.range? = some ⟨1, 5000, by decide⟩ := by
  have hr : (rounds Memory.engine {} plainNode [farNotice]).map
      (fun (b, _, es) => (b, es.map Event.range?)) =
      some (true, [some .reset, none, none, some .reset] ++ [some ⟨1, 5000, by decide⟩]) := by
    decide +kernel
  obtain ⟨⟨b, n, es⟩, ha, he⟩ := Option.map_eq_some_iff.mp hr
  simp only [Prod.mk.injEq] at he
  obtain ⟨rfl, he⟩ := he
  obtain ⟨before, last, rfl, -, hlast⟩ := List.map_eq_append_iff.mp he
  obtain ⟨e, rfl, hrange⟩ := List.map_eq_singleton_iff.mp hlast
  exact ⟨n, before, e, attends_iff_rounds.mpr ⟨[farNotice], ha⟩, hrange⟩

/-- A notice can make the loop ask for more than the span. -/
theorem farNotice_exceeds_span : ∃ n before e range,
    plainNode.view.Open ∧ Attends Memory.engine {} plainNode true n (before ++ [e]) ∧
      e.range? = some range ∧ range.isReset = false ∧
      ¬ Bounded Memory.engine {} (plainNode.view.applyAll Memory.engine before) range := by
  obtain ⟨n, before, e, ha, he⟩ := attends_farNotice
  refine ⟨n, before, e, _, open_plainNode, ha, he, rfl, fun hb => ?_⟩
  exact absurd hb.within (by decide)

theorem farNotice_founded : ∃ n before e,
    plainNode.view.Open ∧ Attends Memory.engine {} plainNode true n (before ++ [e]) ∧
      Founded Memory.engine {} plainNode.view (before ++ [e]) := by
  obtain ⟨n, before, e, ha, -⟩ := attends_farNotice
  exact ⟨n, before, e, open_plainNode, ha, ranges_are_founded open_plainNode ha⟩

end BlockSync.Session

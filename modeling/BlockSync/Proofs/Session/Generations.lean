import BlockSync.Proofs.Session.Lifecycle
import BlockSync.Proofs.Session.Numbering

/-! The generations of handshakes. Whatever goes on at a session, in any order, a handshake has the
generation that belongs to its number among those since the latest reset: generations count from one
and start over after 32766, and no word overflows. -/

namespace BlockSync

/-- The generation of the handshake with a number, the first having the number one. -/
def nthGeneration (number : Nat) : Nat := (number - 1) % 32766 + 1

theorem nthGeneration_pos (number : Nat) : 1 ≤ nthGeneration number :=
  Nat.le_add_left 1 _

theorem nthGeneration_le (number : Nat) : nthGeneration number ≤ 32766 :=
  Nat.mod_lt (number - 1) (by decide)

namespace PeerState

variable {p : PeerState} {built : Nat}

theorem counts_of_nth (h : p.generation.toInt = nthGeneration (built + 1)) : p.Counts := by
  have hpos := nthGeneration_pos (built + 1)
  have hle := nthGeneration_le (built + 1)
  have hone : (1 : Int16).toInt = 1 := rfl
  have hlimit : generationLimit.toInt = 32767 := rfl
  rw [Counts, Int16.le_iff_toInt_le, Int16.lt_iff_toInt_lt, hone, hlimit]
  omega

theorem advanceGeneration_nth (h : p.generation.toInt = nthGeneration (built + 1)) :
    p.advanceGeneration.generation.toInt = nthGeneration (built + 2) := by
  have hsum := (counts_of_nth h).toInt_add_one
  have hlimit : generationLimit.toInt = 32767 := rfl
  change (followingGeneration p.generation).toInt = _
  rw [nthGeneration] at h ⊢
  unfold followingGeneration
  split
  · next hlast =>
    have hone : (1 : Int16).toInt = 1 := rfl
    rw [hlast, hlimit] at hsum
    rw [hone]
    omega
  · next hmore =>
    have hne : (p.generation + 1).toInt ≠ 32767 := fun heq => hmore (Int16.toInt_inj.mp heq)
    omega

end PeerState

end BlockSync

namespace BlockSync.Session

/-- Where the handshake comes from that somebody has in hand. -/
inductive Source where
  | none
  | caller
  /-- It was built, with a number among those since the latest reset before it. -/
  | built (number : Nat)

/-- One of the things that go on at a session. Its result is a handshake if one was wanted. -/
structure Strand where
  program : Action (Option Handshake)
  source : Source

/-- A call has a handshake in hand from the beginning if it is to write one of its caller's. -/
def Call.source : Call → Source
  | .send (.handshake _) => .caller
  | _ => .none

def Call.strand (settings : Settings) (c : Call) : Strand :=
  ⟨do c.program settings; return none, c.source⟩

def Strand.build (settings : Settings) : Strand :=
  ⟨do return some (← buildHandshake settings), .none⟩

/-- A session, how many handshakes were built since the latest reset, and all that goes on. A
handshake counts from the moment at which its generation is taken. -/
structure Series where
  session : Session := {}
  built : Nat := 0
  strands : List Strand := []

namespace Series

/-- Something begins, or something that goes on does one operation. -/
inductive Step (settings : Settings) (s : Series) : Series → Prop
  | call (c : Call) : Step settings s { s with strands := c.strand settings :: s.strands }
  | build : Step settings s { s with strands := .build settings :: s.strands }
  | take {before rest next source} :
      s.strands = before ++ ⟨.ask (.updatePeer PeerState.advanceGeneration) next, source⟩ :: rest →
      Step settings s
        { session := s.session.mapPeer PeerState.advanceGeneration
          built := s.built + 1
          strands := before ++ ⟨next s.session.peer, .built (s.built + 1)⟩ :: rest }
  | reset {before rest next source} :
      s.strands = before ++ ⟨.ask (.updatePeer PeerState.reset) next, source⟩ :: rest →
      Step settings s
        { session := s.session.mapPeer PeerState.reset
          built := 0
          strands := before ++ ⟨next s.session.peer, source⟩ :: rest }
  | go {before rest op next r source} : s.strands = before ++ ⟨.ask op next, source⟩ :: rest →
      op ≠ .updatePeer PeerState.advanceGeneration → op ≠ .updatePeer PeerState.reset →
      s.session.Allows op r →
      Step settings s
        { s with session := s.session.after op, strands := before ++ ⟨next r, source⟩ :: rest }

/-- What a session comes to from its beginning on. -/
inductive Reached (settings : Settings) : Series → Prop
  | new : Reached settings {}
  | step {s t} : Reached settings s → Step settings s t → Reached settings t

end Series

/-- A handshake comes out: it is about to be written, or it is the result. -/
inductive Strand.Yields (x : Strand) (m : Handshake) : Prop
  | written {link next} :
      x.program = .ask (.send link (Message.handshake m).frame) next → Yields x m
  | returned : x.program = .done (some m) → Yields x m

/-- Whether a handshake of a generation can come from a source. -/
def Source.Fits : Source → Int16 → Prop
  | .none, _ => False
  | .caller, _ => True
  | .built number, g => 1 ≤ number ∧ g.toInt = nthGeneration number

/-- What is left of a strand writes and returns the handshake in hand, which fits its source, and
those that it will build. -/
structure Strand.Kept (settings : Settings) (x : Strand) : Prop where
  builds : Builds settings x.program
  hands : ∃ hand, NumbersFrom (fun m? hand' => ∀ m ∈ m?, hand' = some m.generation) x.program hand ∧
    ∀ g ∈ hand, x.source.Fits g

structure Series.Counted (settings : Settings) (s : Series) : Prop where
  next : s.session.peer.generation.toInt = nthGeneration (s.built + 1)
  strands : ∀ x ∈ s.strands, x.Kept settings

section

variable {settings : Settings} {s t : Series}

theorem Strand.Kept.of_unit {p : Action Unit} {hand : Option Int16} {source : Source}
    (hbuilds : Builds settings p) (hhands : NumbersFrom (fun _ _ => True) p hand)
    (hsource : ∀ g ∈ hand, source.Fits g) : Strand.Kept settings ⟨do p; return none, source⟩ where
  builds := hbuilds.bind fun _ => trivial
  hands := ⟨hand, Program.Ensures.bind (Program.Ensures.mono hhands fun _ _ _ => nofun), hsource⟩

theorem kept_call (settings : Settings) (c : Call) : (c.strand settings).Kept settings := by
  have hcall {p : Action Unit} (h : Numbered settings p) :
      Strand.Kept settings ⟨do p; return none, .none⟩ := .of_unit h.builds (h.hands none) nofun
  have hdo {α : Type} {p : Action α} (h : Numbered settings p) :
      Strand.Kept settings ⟨do (do let _ ← p); return none, .none⟩ :=
    hcall (.bind h fun _ => .pure ())
  cases c with
  | connect target => exact hdo (numbered_connect settings target)
  | attach link => exact hcall (numbered_install settings link)
  | reset => exact hcall (numbered_reset settings)
  | close => exact hcall (numbering settings).shut
  | send m =>
    cases m with
    | handshake m =>
      -- The caller's handshake is in hand from the beginning.
      have hhands : NumbersFrom (fun _ _ => True) (do let _ ← Session.send (.handshake m))
          (some m.generation) :=
        Program.Ensures.bind
          (Program.Ensures.mono (numbersFrom_sendHandshake m) fun _ _ _ => trivial)
      exact .of_unit ((builds_send settings _).bind fun _ => trivial) hhands fun _ _ => trivial
    | _ => exact hdo (numbered_send settings nofun)
  | read deadline => exact hdo ((waiting_numbering settings).readMessage deadline)
  | probe => exact hdo ((timing_numbering settings).estimateLatency (waiting_numbering settings))
  | greet => exact hdo (numbering settings).greet
  | resync => exact hdo (numbering settings).resync
  | dispatch m =>
    exact hdo ((timing_numbering settings).dispatch (offering_numbering settings)
      (leaving_numbering settings) m)
  | receive =>
    exact hdo ((timing_numbering settings).receiveOnce (waiting_numbering settings)
      (offering_numbering settings) (leaving_numbering settings))
  | run a => exact hdo ((timing_numbering settings).runOnce (waiting_numbering settings) a)

theorem kept_build (settings : Settings) : (Strand.build settings).Kept settings where
  builds := .build fun _ => trivial
  hands := by
    refine ⟨none, Program.Ensures.bind
      (Program.Ensures.mono (numbersFrom_buildHandshake settings none) ?_), nofun⟩
    rintro m _ rfl _ ⟨⟩
    rfl

theorem Numbers.generation_after {hand : Option Int16} {op : Op} (h : Numbers hand op)
    (hadvance : op ≠ .updatePeer PeerState.advanceGeneration)
    (hreset : op ≠ .updatePeer PeerState.reset) (s : Session) :
    (s.after op).peer.generation = s.peer.generation := by
  cases op with
  | update f => exact congrArg PeerState.generation (h s)
  | updatePeer f =>
    rcases h with rfl | rfl | hf
    · exact absurd rfl hadvance
    · exact absurd rfl hreset
    · exact hf s.peer
  | _ => rfl

theorem Strand.Kept.answer {op : Op} {next : interface.Answer op → Action (Option Handshake)}
    {source : Source} (h : Strand.Kept settings ⟨.ask op next, source⟩) (htake : ¬ op.IsTake)
    (r : interface.Answer op) : Strand.Kept settings ⟨next r, source⟩ := by
  obtain ⟨⟨-, hbuilds⟩, hand, ⟨-, hnext⟩, hsource⟩ := h
  exact ⟨hbuilds r, hand, hnext r _ (.keep htake), hsource⟩

theorem Strand.Kept.take
    {next : PeerState → Action (Option Handshake)} {source : Source} {p : PeerState} {number : Nat}
    (h : Strand.Kept settings ⟨.ask (.updatePeer PeerState.advanceGeneration) next, source⟩)
    (hnumber : 1 ≤ number) (hp : p.generation.toInt = nthGeneration number) :
    Strand.Kept settings ⟨next p, .built number⟩ := by
  obtain ⟨⟨-, hbuilds⟩, hand, ⟨-, hnext⟩, -⟩ := h
  refine ⟨hbuilds p, some p.generation, hnext p _ (.take p), ?_⟩
  rintro _ ⟨⟩
  exact ⟨hnumber, hp⟩

namespace Series.Counted

theorem replace {before rest : List Strand} {x x' : Strand} (h : s.Counted settings)
    (hstrands : s.strands = before ++ x :: rest) (hx : x.Kept settings → x'.Kept settings) :
    ∀ x ∈ before ++ x' :: rest, x.Kept settings := by
  have hall := h.strands
  rw [hstrands, List.forall_mem_append, List.forall_mem_cons] at hall
  obtain ⟨hbefore, hkept, hrest⟩ := hall
  rw [List.forall_mem_append, List.forall_mem_cons]
  exact ⟨hbefore, hx hkept, hrest⟩

theorem step (h : s.Counted settings) (hstep : Step settings s t) : t.Counted settings := by
  cases hstep with
  | call c => exact ⟨h.next, List.forall_mem_cons.mpr ⟨kept_call settings c, h.strands⟩⟩
  | build => exact ⟨h.next, List.forall_mem_cons.mpr ⟨kept_build settings, h.strands⟩⟩
  | take hstrands =>
    refine ⟨PeerState.advanceGeneration_nth h.next, h.replace hstrands fun hx => ?_⟩
    exact hx.take (Nat.le_add_left 1 s.built) h.next
  | reset hstrands => exact ⟨rfl, h.replace hstrands fun hx => hx.answer not_isTake_reset _⟩
  | @go before rest op next r source hstrands hadvance hreset _ =>
    refine ⟨?_, h.replace hstrands fun hx => hx.answer hadvance r⟩
    obtain ⟨-, hand, ⟨hop, -⟩, -⟩ : Strand.Kept settings ⟨.ask op next, source⟩ := by
      refine h.strands _ ?_
      rw [hstrands]
      exact List.mem_append_right _ List.mem_cons_self
    exact (congrArg Int16.toInt (hop.generation_after hadvance hreset s.session)).trans h.next

theorem reached (h : s.Reached settings) : s.Counted settings := by
  induction h with
  | new => exact ⟨rfl, nofun⟩
  | step _ hstep ih => exact ih.step hstep

end Series.Counted

theorem Strand.Kept.fits {x : Strand} (h : x.Kept settings) {m : Handshake} (hm : x.Yields m) :
    x.source.Fits m.generation := by
  obtain ⟨-, hand, hprogram, hsource⟩ := h
  cases hm with
  | written hx =>
    rw [hx] at hprogram
    exact hsource _ (hprogram.1 m rfl)
  | returned hx =>
    rw [hx] at hprogram
    exact hsource _ (hprogram m rfl)

theorem buildHandshake_atMost (settings : Settings) :
    (buildHandshake settings).AtMost Op.IsTake 1 := by
  refine .inr ⟨Nat.one_pos, fun before => ?_⟩
  iterate 7 refine .inl ⟨nofun, fun _ => ?_⟩
  trivial

/-- Whatever has gone on at a session, and whatever is still going on: the next handshake will have
the generation of the next number since the latest reset, and no word overflows when that is taken. A
generation is taken to build one handshake, and for nothing else. A handshake that is written or
returned is its caller's own, or it has the generation of its number, between 1 and 32766. -/
theorem generations_follow_the_count (h : s.Reached settings) :
    s.session.peer.generation.toInt = nthGeneration (s.built + 1) ∧
    s.session.peer.advanceChecked = some s.session.peer.advanceGeneration ∧
    (buildHandshake settings).AtMost Op.IsTake 1 ∧
    ∀ x ∈ s.strands,
      (∀ op next, x.program = .ask op next → op.IsTake →
        ∃ f, x.program = buildHandshake settings >>= f) ∧
      ∀ m, x.Yields m → x.source = .caller ∨
        ∃ n, x.source = .built n ∧ 1 ≤ n ∧ m.generation.toInt = nthGeneration n ∧
          1 ≤ m.generation.toInt ∧ m.generation.toInt ≤ 32766 := by
  have hcounted := Series.Counted.reached h
  have hcounts := PeerState.counts_of_nth hcounted.next
  refine ⟨hcounted.next, hcounts.advanceChecked, buildHandshake_atMost settings, ?_⟩
  intro x hx
  have hkept := hcounted.strands x hx
  constructor
  · intro op next hask htake
    have hbuilds := hkept.builds
    rw [hask] at hbuilds ⊢
    exact hbuilds.1 htake
  · intro m hm
    have hfits := hkept.fits hm
    cases hsource : x.source with
    | none =>
      rw [hsource] at hfits
      exact hfits.elim
    | caller => exact .inl rfl
    | built n =>
      rw [hsource] at hfits
      obtain ⟨hpos, hgeneration⟩ := hfits
      have hleast := nthGeneration_pos n
      have hmost := nthGeneration_le n
      exact .inr ⟨n, rfl, hpos, hgeneration, by omega, by omega⟩

end

/-- Two handshakes are being built when the session is reset. The second of them comes out all the
same, with the number that it had before. -/
theorem generations_follow_the_count_of_late_builder :
    ∃ (s : Series) (x : Strand) (m : Handshake), s.Reached {} ∧ x ∈ s.strands ∧ x.Yields m ∧
      x.source = .built 2 ∧ m.generation.toInt = nthGeneration 2 ∧
      s.session.peer.generation.toInt = nthGeneration 1 := by
  have h : Series.Reached {} { strands := [.build {}] } := .step .new .build
  have h := h.step .build
  have h := h.step (@Series.Step.take {} _ [_] [] _ .none rfl)
  have h := h.step (@Series.Step.take {} _ [] [_] _ .none rfl)
  have h := h.step (.call .reset)
  have h := h.step (@Series.Step.go {} _ [] [_, _] (.update _) _ _ .none rfl nofun nofun rfl)
  have h := h.step (@Series.Step.reset {} _ [] [_, _] _ .none rfl)
  have h := h.step
    (@Series.Step.go {} _ [_] [_] (.chain .chainId) _ (Octets.zero 32) _ rfl nofun nofun trivial)
  have h := h.step
    (@Series.Step.go {} _ [_] [_] .nonce _ (Octets.zero 32) _ rfl nofun nofun trivial)
  have h := h.step (@Series.Step.go {} _ [_] [_] .clock _ 0 _ rfl nofun nofun trivial)
  have h := h.step
    (@Series.Step.go {} _ [_] [_] (.chain .libNum) _ (0 : UInt32) _ rfl nofun nofun trivial)
  have h := h.step
    (@Series.Step.go {} _ [_] [_] (.chain .libId) _ (Octets.zero 32) _ rfl nofun nofun trivial)
  have h := h.step
    (@Series.Step.go {} _ [_] [_] (.chain .headNum) _ (0 : UInt32) _ rfl nofun nofun trivial)
  have h := h.step
    (@Series.Step.go {} _ [_] [_] (.chain .headId) _ (Octets.zero 32) _ rfl nofun nofun trivial)
  obtain ⟨hnext, -, -, hstrands⟩ := generations_follow_the_count h
  obtain ⟨-, hyields⟩ := hstrands _ (.tail _ (.head _))
  rcases hyields _ (.returned rfl) with hcaller | ⟨n, hn, -, hgeneration, -⟩
  · cases hcaller
  · obtain rfl := Source.built.inj hn
    exact ⟨_, _, _, h, .tail _ (.head _), .returned rfl, rfl, hgeneration, hnext⟩

end BlockSync.Session

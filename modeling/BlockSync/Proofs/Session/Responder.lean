import BlockSync.Proofs.Session.Party

/-! How a responder sends a range: before each block it looks at the session, at the shutdown and
at the chain, and then it writes. It can be stopped where it looks at the session only. -/

namespace BlockSync.Session

open BlockSync.Chain (Engine)

/-- The blocks that a responder still has to send, and on whose behalf. -/
structure Errand where
  next : UInt32
  last : UInt32
  transport : Nat
  responder : Nat

namespace Errand

def activity (e : Errand) : Activity := .respond e.next e.last e.transport e.responder

def advanced (e : Errand) : Errand := { e with next := e.next + 1 }

/-- Whether the responder may go on. -/
def Current (s : Standing) (e : Errand) : Prop :=
  s.transport = e.transport ∧ s.cut = false ∧ s.responder = some e.responder

end Errand

/-- Where a responder stands in sending one block. -/
inductive Place where
  | begun
  | allowed
  | fetching
  | holding (raw : Bytes)
  | writing (link : LinkId) (raw : Bytes)
  | onward
  | ended

namespace Errand

def afterWriting (e : Errand) (sent : Bool) : Action (Option Activity) :=
  if !sent then return none
  else if e.next = e.last then return none
  else return some e.advanced.activity

def respondWith (e : Errand) : Option Bytes → Action (Option Activity) :=
  Session.respondWith e.next e.last e.transport e.responder

def program (settings : Settings) (e : Errand) : Place → Action (Option Activity)
  | .begun => runOnce settings e.activity
  | .allowed => do
    if ← Action.isStopping then return none
    e.respondWith (← Action.chain (.blockAt e.next))
  | .fetching => do e.respondWith (← Action.chain (.blockAt e.next))
  | .holding raw => e.respondWith (some raw)
  | .writing link raw => do e.afterWriting (← writeTo (.signedBlock raw) (some link))
  | .onward => return some e.advanced.activity
  | .ended => return none

inductive Goes {σ : Type} (E : Engine σ) (n : Node σ) (e : Errand) :
    Place → List Event → Place → Prop
  | dismissed : ¬ e.Current n.session.standing → Goes E n e .begun [] .ended
  | admitted : e.Current n.session.standing → Goes E n e .begun [] .allowed
  | running : Goes E n e .allowed [] .fetching
  | missing : E.answer n.chain (.blockAt e.next) = none → Goes E n e .fetching [] .ended
  | found {raw} : E.answer n.chain (.blockAt e.next) = some raw →
      Goes E n e .fetching [] (.holding raw)
  | ready {link raw} : Goes E n e (.holding raw) [] (.writing link raw)
  | last {link raw} : e.next = e.last →
      Goes E n e (.writing link raw) [.said (.signedBlock raw)] .ended
  | more {link raw} : e.next ≠ e.last →
      Goes E n e (.writing link raw) [.said (.signedBlock raw)] .onward

section

variable {σ : Type} {E : Engine σ} {n : Node σ} {settings : Settings} {e : Errand} {p : Place}

theorem perform_state (n : Node σ) : n.perform E (.update id) = some (n.session, n, []) := by
  simp only [Node.perform, Node.mapSession, Node.turns, id_eq, if_true]

theorem current_iff (s : Session) :
    e.Current s.standing ↔
      (!s.isCurrent e.transport || decide (s.responder ≠ some e.responder)) = false := by
  simp [Current, standing, isCurrent, and_assoc]

theorem goes_of_perform (h : n.view.Open) {op : Op}
    {f : interface.Answer op → Action (Option Activity)} {r : interface.Answer op}
    {n' : Node σ} {es : List Event} (hp : e.program settings p = .ask op f)
    (ho : n.perform E op = some (r, n', es)) :
    n' = n ∧ ∃ q, f r = e.program settings q ∧ Goes E n e p es q := by
  cases p with
  | begun =>
    cases hp
    rw [perform_state] at ho
    cases ho
    refine ⟨rfl, ?_⟩
    by_cases hc : e.Current n.session.standing
    · refine ⟨.allowed, ?_, .admitted hc⟩
      rw [current_iff] at hc
      change (if _ then _ else _) = _
      rw [hc]
      rfl
    · refine ⟨.ended, ?_, .dismissed hc⟩
      rw [current_iff, Bool.not_eq_false] at hc
      change (if _ then _ else _) = _
      rw [hc]
      rfl
  | allowed =>
    cases hp
    cases ho
    refine ⟨rfl, .fetching, ?_, .running⟩
    change (if n.stopping = true then _ else _) = _
    rw [if_neg (by rw [show n.stopping = false from h.stopping]; decide)]
    rfl
  | fetching =>
    cases hp
    cases ho
    refine ⟨rfl, ?_⟩
    rcases hb : E.answer n.chain (.blockAt e.next) with _ | raw
    · exact ⟨.ended, rfl, .missing hb⟩
    · exact ⟨.holding raw, rfl, .found hb⟩
  | holding raw =>
    cases hp
    rw [perform_state] at ho
    cases ho
    obtain ⟨link, hw⟩ := h.writer
    refine ⟨rfl, .writing link raw, ?_, .ready⟩
    change ((if n.session.closed = true then _ else _ : Action Bool) >>= _) = _
    rw [if_neg (by rw [show n.session.closed = false from h.closed]; decide),
      show n.session.writer = some link from hw]
    rfl
  | writing link raw =>
    cases hp
    have hl : n.linked = true := h.linked
    simp only [Node.perform, hl, if_true] at ho
    cases ho
    refine ⟨rfl, ?_⟩
    change ∃ q, (if e.next = e.last then _ else _) = _ ∧ _
    by_cases hne : e.next = e.last
    · rw [if_pos hne]
      exact ⟨.ended, rfl, .last hne⟩
    · rw [if_neg hne]
      exact ⟨.onward, rfl, .more hne⟩
  | onward => cases hp
  | ended => cases hp

theorem program_eq_done {r : Option Activity} (hp : e.program settings p = .done r) :
    p = .ended ∧ r = none ∨ p = .onward ∧ r = some e.advanced.activity := by
  cases p with
  | onward => cases hp; exact .inr ⟨rfl, rfl⟩
  | ended => cases hp; exact .inl ⟨rfl, rfl⟩
  | begun | allowed | fetching | holding | writing => cases hp

theorem exists_perform (settings : Settings) (hn : p ≠ .onward) (ho : p ≠ .ended) :
    ∃ op f r n' es, e.program settings p = .ask op f ∧ n.perform E op = some (r, n', es) := by
  cases p with
  | begun => exact ⟨.update id, _, _, _, _, rfl, perform_state n⟩
  | allowed => exact ⟨.isStopping, _, _, _, _, rfl, rfl⟩
  | fetching => exact ⟨.chain (.blockAt e.next), _, _, _, _, rfl, rfl⟩
  | holding raw => exact ⟨.update id, _, _, _, _, rfl, perform_state n⟩
  | writing link raw => exact ⟨.send link (Message.signedBlock raw).frame, _, _, _, _, rfl, rfl⟩
  | onward => exact absurd rfl hn
  | ended => exact absurd rfl ho

end

end Errand

end BlockSync.Session

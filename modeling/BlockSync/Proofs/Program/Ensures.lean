import BlockSync.Program

/-! What a program does from a state on: the operations it asks for and what holds when it is done,
whatever its operations answer and make of the state. -/

namespace BlockSync

/-- From a state on, a program asks only for what it may ask there, and is done only where it may
be done. -/
def Program.Ensures {I : Interface} {σ α : Type} (asks : σ → I.Op → Prop)
    (gives : σ → (op : I.Op) → I.Answer op → σ → Prop) (post : α → σ → Prop) :
    Program I α → σ → Prop
  | .done a, s => post a s
  | .ask op next, s => asks s op ∧ ∀ r s', gives s op r s' → (next r).Ensures asks gives post s'

section

variable {I J : Interface} {σ τ α β ε : Type} {asks : σ → I.Op → Prop}
  {gives : σ → (op : I.Op) → I.Answer op → σ → Prop} {post : α → σ → Prop} {post' : β → σ → Prop}
  {p : Program I α} {f : α → Program I β} {s : σ}

theorem Program.Ensures.pure {a : α} (h : post a s) :
    (Pure.pure a : Program I α).Ensures asks gives post s := h

theorem Program.Ensures.bind
    (h : p.Ensures asks gives (fun a s => (f a).Ensures asks gives post' s) s) :
    (p >>= f).Ensures asks gives post' s := by
  induction p generalizing s with
  | done a => exact h
  | ask op next ih =>
    constructor
    · exact h.1
    · intro r s' hr
      exact ih r (h.2 r s' hr)

theorem Program.Ensures.ite {c : Prop} [Decidable c] {q : Program I α}
    (hp : c → p.Ensures asks gives post s) (hq : ¬ c → q.Ensures asks gives post s) :
    (if c then p else q).Ensures asks gives post s := by
  by_cases hc : c
  · rw [if_pos hc]
    exact hp hc
  · rw [if_neg hc]
    exact hq hc

/-- What every operation keeps, a program keeps. -/
theorem Program.Ensures.kept {P : σ → Prop} (hasks : ∀ s op, P s → asks s op)
    (hgives : ∀ s op r s', P s → gives s op r s' → P s') (hs : P s) :
    p.Ensures asks gives (fun _ => P) s := by
  induction p generalizing s with
  | done a => exact hs
  | ask op next ih =>
    constructor
    · exact hasks s op hs
    · intro r s' hr
      exact ih r (hgives s op r s' hs hr)

/-- What is ensured for one kind of state is ensured for another whose steps the first can match. -/
theorem Program.Ensures.matched {asks' : τ → I.Op → Prop}
    {gives' : τ → (op : I.Op) → I.Answer op → τ → Prop} {post' : α → τ → Prop} {t : τ}
    {R : σ → τ → Prop} (h : p.Ensures asks gives post s) (hst : R s t)
    (hasks : ∀ s t op, R s t → asks s op → asks' t op)
    (hgives : ∀ s t op r t', R s t → asks s op → gives' t op r t' → ∃ s', gives s op r s' ∧ R s' t')
    (hpost : ∀ a s t, R s t → post a s → post' a t) : p.Ensures asks' gives' post' t := by
  induction p generalizing s t with
  | done a => exact hpost a s t hst h
  | ask op next ih =>
    constructor
    · exact hasks s t op hst h.1
    · intro r t' hr
      obtain ⟨s', hs', hst'⟩ := hgives s t op r t' hst h.1 hr
      exact ih r (h.2 r s' hs') hst'

theorem Program.Ensures.mono {post' : α → σ → Prop} (h : p.Ensures asks gives post s)
    (hpost : ∀ a s, post a s → post' a s) : p.Ensures asks gives post' s := by
  induction p generalizing s with
  | done a => exact hpost a s h
  | ask op next ih =>
    constructor
    · exact h.1
    · intro r s' hr
      exact ih r (h.2 r s' hr)

theorem Program.Ensures.bind_run {q : ExceptT ε (Program I) α} {g : α → ExceptT ε (Program I) β}
    {post' : Except ε β → σ → Prop}
    (h : q.run.Ensures asks gives (fun result s =>
      match result with
      | .ok a => (g a).run.Ensures asks gives post' s
      | .error e => post' (.error e) s) s) :
    (q >>= g).run.Ensures asks gives post' s := by
  refine Program.Ensures.bind (h.mono fun result s hs => ?_)
  cases result with
  | ok a => exact hs
  | error e => exact hs

theorem Program.Ensures.embed {asks' : σ → J.Op → Prop}
    {gives' : σ → (op : J.Op) → J.Answer op → σ → Prop} {e : Program.Embedding I J}
    (h : p.Ensures (fun s op => asks' s (e.op op))
      (fun s op r s' => ∃ r', e.answer op r' = r ∧ gives' s (e.op op) r' s') post s) :
    (p.embed e).Ensures asks' gives' post s := by
  induction p generalizing s with
  | done a => exact h
  | ask op next ih =>
    constructor
    · exact h.1
    · intro r s' hr
      exact ih (e.answer op r) (h.2 _ s' ⟨r, rfl, hr⟩)

end

end BlockSync

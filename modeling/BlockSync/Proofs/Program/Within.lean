import BlockSync.Proofs.Program.Ensures

/-! What programs can ask for, whatever their operations answer, and how often. -/

namespace BlockSync

/-- Whether a program asks for certain operations only, as long as the answers are certain ones. -/
def Program.Within {I : Interface} {α : Type} (asks : I.Op → Prop)
    (gives : ∀ op : I.Op, I.Answer op → Prop) : Program I α → Prop
  | .done _ => True
  | .ask op next => asks op ∧ ∀ r, gives op r → (next r).Within asks gives

/-- Whether a program asks at most `k` times for operations of a kind. -/
def Program.AtMost {I : Interface} {α : Type} (kind : I.Op → Prop) : Nat → Program I α → Prop
  | _, .done _ => True
  | k, .ask op next =>
    (¬ kind op ∧ ∀ r, (next r).AtMost kind k) ∨ (0 < k ∧ ∀ r, (next r).AtMost kind (k - 1))

/-- Whether a program asks for an operation of a kind before it is done, whatever is answered. -/
def Program.Reaches {I : Interface} {α : Type} (kind : I.Op → Prop) : Program I α → Prop
  | .done _ => False
  | .ask op next => kind op ∨ ∀ r, (next r).Reaches kind

section

variable {I J : Interface} {α β : Type} {asks asks' kind : I.Op → Prop}
  {gives gives' : ∀ op : I.Op, I.Answer op → Prop} {p : Program I α} {f : α → Program I β}

theorem Program.Within.bind (hp : p.Within asks gives) (hf : ∀ a, (f a).Within asks gives) :
    (p >>= f).Within asks gives := by
  induction p with
  | done a => exact hf a
  | ask op next ih => exact ⟨hp.1, fun r hr => ih r (hp.2 r hr)⟩

theorem Program.Within.ask {o : I.Op} {f : I.Answer o → Program I β} (h : asks o)
    (hf : ∀ r, (f r).Within asks gives) : (Program.request o >>= f).Within asks gives :=
  ⟨h, fun r _ => hf r⟩

theorem Program.Within.ite {c : Prop} [Decidable c] {q : Program I α} (hp : p.Within asks gives)
    (hq : q.Within asks gives) : (if c then p else q).Within asks gives := by
  split
  · exact hp
  · exact hq

theorem Program.Within.bind_run {ε : Type} {p : ExceptT ε (Program I) α}
    {f : α → ExceptT ε (Program I) β} (hp : p.run.Within asks gives)
    (hf : ∀ a, (f a).run.Within asks gives) : (p >>= f).run.Within asks gives := by
  refine Program.Within.bind hp fun result => ?_
  cases result with
  | ok a => exact hf a
  | error e => trivial

theorem Program.Within.mono (hp : p.Within asks gives) (hasks : ∀ op, asks op → asks' op)
    (hgives : ∀ op r, gives' op r → gives op r) : p.Within asks' gives' := by
  induction p with
  | done a => trivial
  | ask op next ih => exact ⟨hasks op hp.1, fun r hr => ih r (hp.2 r (hgives op r hr))⟩

theorem Program.Within.embed {asks : J.Op → Prop} {gives : ∀ op : J.Op, J.Answer op → Prop}
    (e : Program.Embedding I J) (h : ∀ op, asks (e.op op)) (p : Program I α) :
    (p.embed e).Within asks gives := by
  induction p with
  | done a => trivial
  | ask op next ih => exact ⟨h op, fun r _ => ih (e.answer op r)⟩

theorem Program.Within.of_ensures
    (h : p.Ensures (fun (_ : Unit) op => asks op) (fun _ _ _ _ => True) (fun _ _ => True) ()) :
    p.Within asks fun _ _ => True := by
  induction p with
  | done a => trivial
  | ask op next ih => exact ⟨h.1, fun r _ => ih r (h.2 r () trivial)⟩

theorem Program.Within.atMost (hp : p.Within asks fun _ _ => True)
    (hasks : ∀ op, asks op → ¬ kind op) (k : Nat) : p.AtMost kind k := by
  induction p with
  | done a => trivial
  | ask op next ih => exact .inl ⟨hasks op hp.1, fun r => ih r (hp.2 r trivial)⟩

theorem Program.Reaches.bind (hp : p.Reaches kind) (f : α → Program I β) :
    (p >>= f).Reaches kind := by
  induction p with
  | done a => exact hp.elim
  | ask op next ih => exact hp.imp_right fun h r => ih r (h r)

theorem Program.Reaches.bind_of_rest (hf : ∀ a, (f a).Reaches kind) :
    (p >>= f).Reaches kind := by
  induction p with
  | done a => exact hf a
  | ask op next ih => exact .inr ih

theorem Program.AtMost.pure (a : α) (k : Nat) :
    (Pure.pure a : Program I α).AtMost kind k := trivial

theorem Program.AtMost.mono {j k : Nat} (hp : p.AtMost kind j) (hle : j ≤ k) :
    p.AtMost kind k := by
  induction p generalizing j k with
  | done a => trivial
  | ask op next ih =>
    rcases hp with ⟨hop, hnext⟩ | ⟨hpos, hnext⟩
    · exact .inl ⟨hop, fun r => ih r (hnext r) hle⟩
    · exact .inr ⟨Nat.lt_of_lt_of_le hpos hle, fun r => ih r (hnext r) (Nat.sub_le_sub_right hle 1)⟩

theorem Program.AtMost.bind {j k : Nat} (hp : p.AtMost kind j) (hf : ∀ a, (f a).AtMost kind k) :
    (p >>= f).AtMost kind (j + k) := by
  induction p generalizing j with
  | done a => exact (hf a).mono (Nat.le_add_left k j)
  | ask op next ih =>
    rcases hp with ⟨hop, hnext⟩ | ⟨hpos, hnext⟩
    · exact .inl ⟨hop, fun r => ih r (hnext r)⟩
    · refine .inr ⟨Nat.add_pos_left hpos k, fun r => ?_⟩
      rw [Nat.sub_add_comm hpos]
      exact ih r (hnext r)

theorem Program.AtMost.ite {c : Prop} [Decidable c] {q : Program I α} {k : Nat}
    (hp : p.AtMost kind k) (hq : q.AtMost kind k) : (if c then p else q).AtMost kind k := by
  split
  · exact hp
  · exact hq

theorem Program.AtMost.request {op : I.Op} {f : I.Answer op → Program I β} {k : Nat}
    (hf : ∀ r, (f r).AtMost kind k) : (Program.request op >>= f).AtMost kind (k + 1) :=
  .inr ⟨Nat.succ_pos k, hf⟩

theorem Program.AtMost.quiet {op : I.Op} {f : I.Answer op → Program I β} {k : Nat}
    (hop : ¬ kind op) (hf : ∀ r, (f r).AtMost kind k) :
    (Program.request op >>= f).AtMost kind k :=
  .inl ⟨hop, hf⟩

end

end BlockSync

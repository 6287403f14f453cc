/-!
Programs as trees of requests. A node asks for one operation and goes on with its answer, so that
whatever answers decides everything between two operations: a simulation runs a tree, and a
transition system may take the steps of several trees in any order.
-/

namespace BlockSync

/-- Operations and the types of their answers. -/
structure Interface where
  Op : Type
  Answer : Op → Type

inductive Program (I : Interface) (α : Type) : Type where
  | done (a : α)
  | ask (op : I.Op) (next : I.Answer op → Program I α)

namespace Program

variable {I J : Interface} {α β : Type}

protected def bind : Program I α → (α → Program I β) → Program I β
  | .done a, f => f a
  | .ask op next, f => .ask op fun answer => (next answer).bind f

instance : Monad (Program I) where
  pure := .done
  bind := Program.bind

def request (op : I.Op) : Program I (I.Answer op) := .ask op .done

/-- Operations that stand for those of another interface. -/
structure Embedding (I J : Interface) where
  op : I.Op → J.Op
  answer : ∀ o : I.Op, J.Answer (op o) → I.Answer o

def embed (e : Embedding I J) : Program I α → Program J α
  | .done a => .done a
  | .ask o next => .ask (e.op o) fun answer => (next (e.answer o answer)).embed e

end Program

end BlockSync

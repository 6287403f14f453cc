import BlockSync.Proofs.Pair.Exchange
import BlockSync.Proofs.Session.Promptness

/-! Two parties of which one takes no frame any more. Its responders write what is left to write,
and after that the other one takes what has arrived; nothing that it writes is answered. -/

namespace BlockSync.Session

open BlockSync.Chain (Memory)

namespace Pair

variable {x y x' y' : Party Memory} {es : List Event} {k j k' j' : Nat}

abbrev Rest := Loop × Nat × Nat × Loop × Nat

def rest (x : Party Memory) (k : Nat) (y : Party Memory) (j : Nat) : Rest :=
  (x.loop, k + x.links, y.inbox.length, y.loop, j + y.links)

def Rest.Less : Rest → Rest → Prop :=
  Prod.Lex (fun l' l => l.Next l') <| Prod.Lex (· < ·) <| Prod.Lex (· < ·) <|
    Prod.Lex (fun l' l => l.Next l') (· < ·)

end Pair

end BlockSync.Session

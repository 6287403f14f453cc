import BlockSync.Proofs.Pair.Desertion
import Mathlib.Algebra.GroupWithZero.Nat
import Mathlib.Tactic.Common

/-! Two honest parties fall silent. Three numbers fall, the later ones only where the earlier ones
stay: how far the heads can still rise, what the messages on their way and the work under way can
still cost, and how many operations are under way. What a message costs is more than all that it
leads to before a head rises. A handshake is not answered by a handshake, since the irreversible
block of a peer never lies above its head. -/

namespace BlockSync.Session

open BlockSync.Chain (Memory)

def rangeCost : Nat := 4 * UInt32.size + 2

def cost : Message → Nat
  | .handshake _ => rangeCost + 3
  | .notice _ => rangeCost + 2
  | .syncRequest range => if range.isReset then 1 else rangeCost
  | .signedBlock _ => 3
  | _ => 1

namespace Errand

def cost (e : Errand) : Place → Nat
  | .ended => 0
  | .onward => 4 * (e.last.toNat - e.next.toNat)
  | _ => 4 * (e.last.toNat - e.next.toNat + 1)

end Errand

def Place.rank : Place → Nat
  | .onward => 7
  | .begun => 6
  | .allowed => 5
  | .fetching => 4
  | .holding _ => 3
  | .writing _ _ => 2
  | .ended => 1

def frameCost (f : Frame) : Nat := (f.message?.map Session.cost).getD 0

def inboxCost (fs : List Frame) : Nat := (fs.map frameCost).sum

def errandsCost (l : List (Errand × Place)) : Nat := (l.map fun (e, p) => e.cost p).sum

def ranks (l : List (Errand × Place)) : Nat := (l.map fun (_, p) => p.rank).sum

def Event.cost : Event → Nat
  | .wrote bytes => frameCost (Frame.ofWritten bytes)
  | .spawned (.respond first last _ _) => 4 * (last.toNat - first.toNat + 1) + 1
  | _ => 0

/-- What is ahead costs nothing from where the head rises. -/
def aheadCost : List Event → Nat
  | [] => 0
  | .pushed _ _ (.ok _) :: _ => 0
  | e :: es => e.cost + aheadCost es

def room (x : Party Memory) : Nat := UInt32.size - x.node.chain.headNum.toNat

def Outlook.cost (x : Party Memory) (o : Outlook) : Nat :=
  inboxCost x.inbox + aheadCost o.ahead + errandsCost o.errands

def Outlook.effort (o : Outlook) : Nat := o.work + ranks o.errands

def Low (header : Header) : Prop := header.blockNum < 0xffffffff

section

variable {P : Header → Prop} {n : Node Memory} {e : Errand} {p q : Place} {es : List Event}

variable {x y : Party Memory} {o o' : Outlook}

end

namespace Pair

/-- Both parties are honest and read on, with heads that can still have a block above them. -/
structure Peaceful (s : Pair) (l r : Outlook) : Prop where
  left : Orderly Low s.left l
  right : Orderly Low s.right r
  leftHead : s.left.node.chain.headNum < 0xffffffff
  rightHead : s.right.node.chain.headNum < 0xffffffff
  leftStays : s.right.parted = false
  rightStays : s.left.parted = false

def measure (s : Pair) (l r : Outlook) : Nat × Nat × Nat :=
  (room s.left + room s.right, l.cost s.left + r.cost s.right, l.effort + r.effort)

def Less : Nat × Nat × Nat → Nat × Nat × Nat → Prop :=
  Prod.Lex (· < ·) (Prod.Lex (· < ·) (· < ·))

theorem Peaceful.swap {s : Pair} {l r : Outlook} (h : Peaceful s l r) :
    Peaceful ⟨s.right, s.left⟩ r l :=
  ⟨h.right, h.left, h.rightHead, h.leftHead, h.rightStays, h.leftStays⟩

theorem Execution.head {s t u : Pair} (hs : Step s t) (h : Execution t u) : Execution s u := by
  induction h with
  | nil => exact .step .nil hs
  | step _ hu ih => exact .step ih hu

end Pair

end BlockSync.Session

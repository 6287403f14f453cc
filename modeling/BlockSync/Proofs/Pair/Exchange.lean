import BlockSync.Chain.Fixture
import BlockSync.Proofs.Session.Outlook

/-! Two parties on chains in memory. What one writes arrives at the other, in order and at once;
between two operations of one, the other may take any number of its own. -/

namespace BlockSync.Session

open BlockSync.Chain (Memory)

structure Pair where
  left : Party Memory
  right : Party Memory

namespace Pair

inductive Step (s : Pair) : Pair → Prop
  | left {es x} : Party.Advance Memory.engine s.left es x → Step s ⟨x, s.right.receive es⟩
  | right {es y} : Party.Advance Memory.engine s.right es y → Step s ⟨s.left.receive es, y⟩

inductive Execution (s : Pair) : Pair → Prop
  | nil : Execution s s
  | step {t u} : Execution s t → Step t u → Execution s u

def start (g h : Origin Memory) : Pair := ⟨Party.start g, Party.start h⟩

/-- Neither party has anything left to do. -/
structure Silent (s : Pair) : Prop where
  left : s.left.Silent
  right : s.right.Silent

end Pair

namespace Origin

def node (g : Origin Memory) : Node Memory := (Party.start g).node

end Origin

def Origin.plain (chain : Memory) : Origin Memory where
  settings := {}
  chain := chain
  before := {}
  link := 0
  sources := default

end BlockSync.Session

import BlockSync.Chain.Fault
import BlockSync.Chain.Header

/-!
What a chain engine offers: questions about the chain, and pushing a raw block.
-/

namespace BlockSync.Chain

inductive Query where
  | chainId
  | headNum
  | headId
  | libNum
  | libId
  | idAt (num : UInt32)
  | blockAt (num : UInt32)
  /-- The lowest number of a block that can be fetched. -/
  | earliest
  deriving DecidableEq

abbrev Query.Answer : Query → Type
  | .chainId => Checksum
  | .headNum => UInt32
  | .headId => Checksum
  | .libNum => UInt32
  | .libId => Checksum
  | .idAt _ => Option Checksum
  | .blockAt _ => Option Bytes
  | .earliest => UInt32

abbrev PushResult := Except ChainFault (Option String)

/-- An engine whose chain is a value of `σ`. -/
structure Engine (σ : Type) where
  answer : σ → (q : Query) → q.Answer
  push : σ → Bytes → Bool → σ × PushResult

end BlockSync.Chain

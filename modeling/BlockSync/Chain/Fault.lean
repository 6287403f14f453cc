import BlockSync.Text.Quoted
import BlockSync.Text.Record

/-!
Why a chain engine refuses a block.
-/

namespace BlockSync

inductive ChainFault where
  | unlinkable
  | forkDatabase (text : String)
  | databaseGuard (text : String)
  | other (text : String)
  deriving DecidableEq, Repr

namespace ChainFault

/-- How the text of a fork database fault begins when the block is stored already. -/
def alreadyKnown : String := "we already know about this block"

def isAlreadyKnown : ChainFault → Bool
  | .forkDatabase text => alreadyKnown.toList.isPrefixOf text.toList
  | _ => false

def message : ChainFault → String
  | .unlinkable => "unlinkable block"
  | .forkDatabase text => s!"fork database error: {text}"
  | .databaseGuard text => s!"database guard exception: {text}"
  | .other text => s!"chain error: {text}"

def describe : ChainFault → String
  | .unlinkable => "UnlinkableBlock"
  | .forkDatabase text => Text.applied "ForkDatabase" (Text.quoted text)
  | .databaseGuard text => Text.applied "DatabaseGuard" (Text.quoted text)
  | .other text => Text.applied "Other" (Text.quoted text)

end ChainFault

end BlockSync

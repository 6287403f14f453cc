import BlockSync.Program
import BlockSync.Text.Utf8

/-!
Talking over a stream of octets: writing, and reading exactly so many octets.
-/

namespace BlockSync

namespace Stream

inductive Op where
  | send (bytes : Bytes)
  | receive (count : Nat)

/-- Writing says whether it worked; reading fails when the stream ends early. -/
abbrev interface : Interface where
  Op := Op
  Answer
    | .send _ => Bool
    | .receive _ => Option Bytes

/-- What a program made of a stream: its result, what it wrote, and what it left unread. -/
structure Transcript (α : Type) where
  result : α
  written : Bytes
  rest : Bytes

/-- Runs a program against a side that says the given octets and then no more. An early end
swallows what was there. -/
def run {α : Type} : Program interface α → Bytes → Transcript α
  | .done a, input => ⟨a, [], input⟩
  | .ask (.send bytes) next, input =>
    let t := run (next true) input
    { t with written := bytes ++ t.written }
  | .ask (.receive count) next, input =>
    if input.length < count then run (next none) []
    else run (next (some (input.take count))) (input.drop count)

end Stream

end BlockSync

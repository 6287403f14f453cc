import BlockSync.Wire.Fault

/-!
Readers of encoded data. A reader answers with a value or a fault and always with the octets it
left, so that reading can go on after a fault.
-/

namespace BlockSync.Wire

def Reader (α : Type) := Bytes → Except Fault α × Bytes

namespace Reader

variable {α β : Type}

protected def pure (a : α) : Reader α := fun input => (.ok a, input)

/-- The second reader takes over where the first one stopped; a fault of the first is final. -/
protected def bind (r : Reader α) (f : α → Reader β) : Reader β := fun input =>
  match r input with
  | (.ok a, rest) => f a rest
  | (.error fault, rest) => (.error fault, rest)

instance : Monad Reader where
  pure := Reader.pure
  bind := Reader.bind

def fail (fault : Fault) : Reader α := fun input => (.error fault, input)

/-- The value of a computation that reads nothing. -/
def lift : Except Fault α → Reader α
  | .ok a => pure a
  | .error fault => fail fault

/-- The answer alone: octets after the value do not matter. -/
def value (r : Reader α) (input : Bytes) : Except Fault α := (r input).1

def take (n : Nat) : Reader Bytes := fun input =>
  if input.length < n then (.error (.endOfInput n input.length), input)
  else (.ok (input.take n), input.drop n)

def rest : Reader Bytes := fun input => (.ok input, [])

def remaining : Reader Nat := fun input => (.ok input.length, input)

def times (r : Reader α) : Nat → Reader (List α)
  | 0 => pure []
  | n + 1 => do
    let a ← r
    let as ← times r n
    return a :: as

end Reader

end BlockSync.Wire

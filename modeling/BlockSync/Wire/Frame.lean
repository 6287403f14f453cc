import BlockSync.Wire.Message

/-!
Frames: a length, a tag and a payload. The length counts the tag, and only lengths in a half-open
range are admitted.
-/

namespace BlockSync

structure Frame where
  tag : UInt8
  payload : Bytes
  deriving DecidableEq

namespace Frame

/-- A tag and one octet. -/
def minLength : UInt32 := 2

/-- The least length that is too great. -/
def limit : UInt32 := 5 * 1024 * 1024

def admits (length : UInt32) : Bool := minLength ≤ length && length < limit

/-- Frames up to the first whose length is refused or that is not whole. -/
def split (admitted : UInt32 → Bool) : Nat → Bytes → List Frame
  | 0, _ => []
  | fuel + 1, input =>
    match (Wire.read : Wire.Reader UInt32) input with
    | (.error _, _) => []
    | (.ok length, rest) =>
      if !admitted length then []
      else
        match rest with
        | [] => []
        | tag :: rest =>
          let size := length.toNat - 1
          if rest.length < size then []
          else ⟨tag, rest.take size⟩ :: split admitted fuel (rest.drop size)

def all (input : Bytes) : List Frame := split admits (input.length + 1) input

/-- The frames that a stream holds for a reader that refuses none. -/
def allWritten (input : Bytes) : List Frame := split (0 < ·) (input.length + 1) input

end Frame

end BlockSync

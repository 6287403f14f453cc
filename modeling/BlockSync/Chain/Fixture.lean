import BlockSync.Chain.Header

/-!
Minimal raw blocks that link to each other: each has only a time and its predecessor.
-/

namespace BlockSync.Chain

def emptyBody : Bytes := List.replicate 68 0

/-- `count` blocks on top of a parent, the lowest first. -/
def fixture (parentId : Checksum) (parentNum : UInt32) : Nat → List Bytes
  | 0 => []
  | count + 1 =>
    let header : Header := { slot := parentNum + 1, previous := parentId }
    (Wire.write header ++ emptyBody) :: fixture header.id (parentNum + 1) count

end BlockSync.Chain

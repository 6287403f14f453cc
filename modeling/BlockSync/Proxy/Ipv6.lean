import BlockSync.Proxy.Ipv4

/-!
IPv6 addresses as words of sixteen bits, and the texts that spell one. A text may name the network
that an address belongs to behind a percent sign.
-/

namespace BlockSync.Ipv6

def wordOf (cs : List Char) : Option Nat :=
  if cs.length ≤ 4 then Ipv4.digitsIn 16 cs else none

/-- The words of the last group, which may be a dotted IPv4 address. -/
def lastWords (cs : List Char) : Option (List Nat) :=
  match Ipv4.ofDotted? cs with
  | some ip => some [ip.a.toNat * 256 + ip.b.toNat, ip.c.toNat * 256 + ip.d.toNat]
  | none => (wordOf cs).map fun word => [word]

def wordsOf : List (List Char) → Option (List Nat)
  | [] => some []
  | [last] => lastWords last
  | group :: rest => do return (← wordOf group) :: (← wordsOf rest)

def splitAtGap : List Char → Option (List Char × List Char)
  | [] => none
  | ':' :: ':' :: rest => some ([], rest)
  | c :: rest => (splitAtGap rest).map fun (before, after) => (c :: before, after)

def sideOf (cs : List Char) : Option (List Nat) :=
  if cs.isEmpty then some [] else wordsOf (Ipv4.splitOn ':' cs)

/-- Eight words, or fewer with one gap of zeros; only the end of the text may be dotted. -/
def ofChars? (cs : List Char) : Option (List Nat) :=
  match splitAtGap cs with
  | none => (wordsOf (Ipv4.splitOn ':' cs)).filter (·.length = 8)
  | some (before, after) => do
    if before.contains '.' then none
    let front ← sideOf before
    let back ← sideOf after
    if 8 ≤ front.length + back.length then none
    return front ++ List.replicate (8 - front.length - back.length) 0 ++ back

/-- Whether an address is of use on one network only: unicast on a link, or multicast within a host
or on a link. -/
def isLocal (words : List Nat) : Bool :=
  match words.head? with
  | none => false
  | some first =>
    (0xfe80 ≤ first && first < 0xfec0) || (0xff00 ≤ first && (first % 16 == 1 || first % 16 == 2))

/-- A network is given by its number; local addresses may also name the loopback network, the only
one that is sure to have a name. -/
def isScope (words : List Nat) (scope : List Char) : Bool :=
  (isLocal words && scope == ['l', 'o']) || ((Ipv4.digitsIn 10 scope).any (· < UInt32.size))

def isAddress (text : String) : Bool :=
  let cs := text.toList
  let address := cs.takeWhile (· ≠ '%')
  match ofChars? address, cs.drop address.length with
  | none, _ => false
  | some _, [] => true
  | some words, _ :: scope => isScope words scope

end BlockSync.Ipv6

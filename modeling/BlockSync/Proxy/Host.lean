import BlockSync.Proxy.Ipv6

/-!
The IPv4 address of a host. A host may also spell an IPv6 address, which no IPv4 address belongs to;
names are not looked up.
-/

namespace BlockSync

inductive LookupFault where
  | otherFamily (host : String)
  /-- A host with a NUL inside, where names end. -/
  | nulInside
  | unknownName
  deriving DecidableEq, Repr

def LookupFault.message : LookupFault → String
  | .otherFamily host => s!"invalid peer address: {host} has no IPv4 address"
  | .nulInside => "IO error: file name contained an unexpected NUL byte"
  | .unknownName =>
    "IO error: failed to lookup address information: Name or service not known"

def Ipv4.ofHost (host : String) : Except LookupFault Ipv4 :=
  match Ipv4.ofText? host with
  | some ip => .ok ip
  | none =>
    if host.contains '\x00' then .error .nulInside
    else if Ipv6.isAddress host then .error (.otherFamily host)
    else .error .unknownName

end BlockSync

import BlockSync.Proxy.Ipv4
import BlockSync.Proxy.Stream
import BlockSync.Text.Hex
import BlockSync.Text.Record

/-!
The client's side of SOCKS5, without authentication and for IPv4 targets only. After success the
stream stands at the first octet that the target sends.
-/

namespace BlockSync.Socks5

inductive Fault where
  | ended
  /-- The stream ended where the length of the bound address was to come. -/
  | unsized
  | methodRefused (reply : Bytes)
  | connectRefused (target : Ipv4) (port : UInt16) (code : UInt8)
  deriving DecidableEq, Repr

def Fault.message : Fault → String
  | .ended => "IO error: early eof"
  | .unsized => "IO error: unexpected end of file"
  | .methodRefused reply =>
    s!"SOCKS5 error: proxy refused no-auth method: {Text.listed (reply.map fun b => Text.toHex [b])}"
  | .connectRefused target port code =>
    s!"SOCKS5 error: connect to {target.toText}:{port} failed with reply {code}"

def greeting : Bytes := [5, 1, 0]

def connectRequest (target : Ipv4) (port : UInt16) : Bytes :=
  [5, 1, 0, 1] ++ target.octets ++ [UInt8.ofNat (port.toNat / 256), UInt8.ofNat port.toNat]

def send (bytes : Bytes) : ExceptT Fault (Program Stream.interface) Unit := do
  let sent : Bool ← Program.request (I := Stream.interface) (.send bytes)
  if !sent then throw .ended

def receive (count : Nat) (atEnd : Fault) : ExceptT Fault (Program Stream.interface) Bytes := do
  let answer : Option Bytes ← Program.request (I := Stream.interface) (.receive count)
  match answer with
  | some bytes => return bytes
  | none => throw atEnd

/-- The octets of a bound address: four of them for IPv4, else as many as the next octet says. -/
def boundLength (addressType : UInt8) : ExceptT Fault (Program Stream.interface) Nat := do
  if addressType = 1 then return 4
  let length ← receive 1 .unsized
  return (length.headD 0).toNat

/-- The reply is read to its end, bound address and port included, before its code counts. -/
def exchange (target : Ipv4) (port : UInt16) : ExceptT Fault (Program Stream.interface) Unit := do
  send greeting
  let method ← receive 2 .ended
  if method ≠ [5, 0] then throw (.methodRefused method)
  send (connectRequest target port)
  let head ← receive 4 .ended
  let length ← boundLength (head.getD 3 0)
  let _ ← receive (length + 2) .ended
  let code := head.getD 1 0
  if code ≠ 0 then throw (.connectRefused target port code)

def handshake (target : Ipv4) (port : UInt16) : Program Stream.interface (Except Fault Unit) :=
  (exchange target port).run

end BlockSync.Socks5

import BlockSync.Config.Address
import BlockSync.Wire.Identity

/-!
Settings of the network, and what makes them acceptable.
-/

namespace BlockSync

structure Settings where
  peers : List String := []
  socks5Proxy : Option String := none
  /-- How many blocks are asked for at once. -/
  syncFetchSpan : UInt32 := 300
  p2pAddress : String := "127.0.0.1:9876"
  agent : String := "EOS Agent"
  networkVersion : UInt16 := 1212
  chainId : Option String := none
  deriving DecidableEq

inductive SettingsFault where
  | noSpan
  | peer (cause : AddressFault)
  | proxy (cause : AddressFault)
  | chainId (cause : Wire.Fault)
  deriving DecidableEq

def SettingsFault.message : SettingsFault → String
  | .noSpan => "sync_fetch_span must be at least 1"
  | .peer cause => cause.message
  | .proxy cause => s!"invalid socks5_proxy: {cause.message}"
  | .chainId cause => s!"invalid chain_id: {cause.message}"

namespace Settings

/-- Zeros stand for an identity that is not set. -/
def chainIdentity (s : Settings) : Except SettingsFault Checksum :=
  match s.chainId with
  | none => .ok (Octets.zero 32)
  | some text => (Octets.ofHex text).mapError .chainId

def checkPeers : List String → Except SettingsFault Unit
  | [] => .ok ()
  | peer :: rest =>
    match Address.ofText peer with
    | .ok _ => checkPeers rest
    | .error cause => .error (.peer cause)

def checkProxy : Option String → Except SettingsFault Unit
  | none => .ok ()
  | some proxy =>
    match Address.ofText proxy with
    | .ok _ => .ok ()
    | .error cause => .error (.proxy cause)

/-- The span, the peers, the proxy and the chain's identity, checked in this order. -/
def validate (s : Settings) : Except SettingsFault Unit := do
  if s.syncFetchSpan = 0 then throw .noSpan
  checkPeers s.peers
  checkProxy s.socks5Proxy
  let _ ← s.chainIdentity
  return ()

end Settings

end BlockSync

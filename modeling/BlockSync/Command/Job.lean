import BlockSync.Command.Arguments
import BlockSync.Config.File
import BlockSync.Chain.Memory

/-!
From a command to what is to be done: settings are loaded, options replace what they name, and the
whole is checked again.
-/

namespace BlockSync

inductive CommandFault where
  | unreadable (path : String)
  | file (path : String) (cause : Settings.FileFault)
  | settings (cause : SettingsFault)
  | noPeers
  | headId (cause : Wire.Fault)
  deriving DecidableEq

/-- Of text that is not JSON, only the file is named. -/
def CommandFault.message : CommandFault → String
  | .unreadable path => s!"failed to read config file {path}"
  | .file path (.json _) => s!"invalid config file {path}"
  | .file path (.settings cause) => s!"invalid config file {path}: {cause.message}"
  | .settings cause => cause.message
  | .noPeers => "no peers configured"
  | .headId cause => s!"invalid --head-id: {cause.message}"

inductive Job where
  | sync (settings : Settings) (chain : Chain.Memory)
  | probe (settings : Settings) (chain : Chain.Memory)
  | show (settings : Settings)

namespace Command

def loadFile (files : String → Option String) : Option String → Except CommandFault Settings
  | none => .ok {}
  | some path =>
    match files path with
    | none => .error (.unreadable path)
    | some text => (Settings.ofJson text).mapError (.file path)

/-- Settings with options in place of what they name. -/
def overridden (s : Settings) (net : NetOptions) : Settings :=
  { s with
    peers := if net.peers.isEmpty then s.peers else net.peers
    socks5Proxy := net.socks5Proxy.or s.socks5Proxy
    syncFetchSpan := net.syncFetchSpan.getD s.syncFetchSpan }

def loadSettings (files : String → Option String) (net : NetOptions) :
    Except CommandFault Settings := do
  let s := overridden (← loadFile files net.config) net
  s.validate.mapError .settings
  return s

def startChain (s : Settings) (head : Option (UInt32 × String)) :
    Except CommandFault Chain.Memory := do
  let chainId ← s.chainIdentity.mapError .settings
  match head with
  | none => return { chainId }
  | some (num, text) =>
    return Chain.Memory.ofSnapshot chainId num (← (Octets.ofHex text).mapError .headId)

/-- Both or nothing. -/
def trustedHead : Option UInt32 → Option String → Option (UInt32 × String)
  | some num, some id => some (num, id)
  | _, _ => none

def prepare (files : String → Option String) : Command → Except CommandFault Job
  | .run net headNum headId => do
    let s ← loadSettings files net
    if s.peers.isEmpty then throw .noPeers
    return .sync s (← startChain s (trustedHead headNum headId))
  | .probe net => do
    let s ← loadSettings files net
    return .probe s (← startChain s none)
  | .config net => return .show (← loadSettings files net)

end Command

def Job.output : Job → String
  | .sync _ _ => ""
  | .probe _ _ => ""
  | .show settings => settings.toJson ++ "\n"

end BlockSync

import BlockSync.Config.Settings
import BlockSync.Json.Printer
import BlockSync.Json.Skip

/-!
Settings as JSON. An object may leave fields out, give them in any order and hold others, but may
give none of them twice; a list holds them in order and may break off.
-/

namespace BlockSync.Settings

open Json (Reader)

inductive Field where
  | peers
  | socks5Proxy
  | syncFetchSpan
  | p2pAddress
  | agent
  | networkVersion
  | chainId
  deriving DecidableEq, Repr

namespace Field

def all : List Field :=
  [.peers, .socks5Proxy, .syncFetchSpan, .p2pAddress, .agent, .networkVersion, .chainId]

def key : Field → String
  | .peers => "peers"
  | .socks5Proxy => "socks5_proxy"
  | .syncFetchSpan => "sync_fetch_span"
  | .p2pAddress => "p2p_address"
  | .agent => "agent"
  | .networkVersion => "network_version"
  | .chainId => "chain_id"

def ofKey? (key : String) : Option Field := all.find? fun field => field.key == key

def read (field : Field) (s : Settings) : Reader Settings := do
  match field with
  | .peers => return { s with peers := ← Json.readList Json.readString }
  | .socks5Proxy => return { s with socks5Proxy := ← Json.readString? }
  | .syncFetchSpan => return { s with syncFetchSpan := UInt32.ofNat (← Json.readNat UInt32.size) }
  | .p2pAddress => return { s with p2pAddress := ← Json.readString }
  | .agent => return { s with agent := ← Json.readString }
  | .networkVersion => return { s with networkVersion := UInt16.ofNat (← Json.readNat UInt16.size) }
  | .chainId => return { s with chainId := ← Json.readString? }

def print (field : Field) (s : Settings) : List Char :=
  match field with
  | .peers => Json.printList 1 (s.peers.map Json.printString)
  | .socks5Proxy => Json.printString? s.socks5Proxy
  | .syncFetchSpan => Json.printNat s.syncFetchSpan.toNat
  | .p2pAddress => Json.printString s.p2pAddress
  | .agent => Json.printString s.agent
  | .networkVersion => Json.printNat s.networkVersion.toNat
  | .chainId => Json.printString? s.chainId

end Field

/-- Fields in order, up to the end of the list or of the fields. -/
def readInOrder : List Field → Bool → Settings → Reader Settings
  | [], _, s => return s
  | field :: rest, first, s => do
    if ← Json.nextElement first then readInOrder rest false (← field.read s) else return s

def readByKey : Nat → Bool → List Field → Settings → Reader Settings
  | 0, _, _, _ => Reader.fail .ended
  | fuel + 1, first, seen, s => do
    if ← Json.nextKey first then
      match Field.ofKey? (← Json.readQuoted) with
      | some field =>
        if field ∈ seen then Reader.fail .unfit
        Json.readColon
        readByKey fuel false (field :: seen) (← field.read s)
      | none =>
        Json.readColon
        Json.skipValue
        readByKey fuel false seen s
    else return s

def readFile : Reader Settings := do
  match ← Reader.peek with
  | some '[' =>
    Reader.skip
    let s ← readInOrder Field.all true {}
    Json.readClose ']'
    Json.readEnd
    return s
  | some '\x7b' =>
    Reader.skip
    let left ← get
    let s ← readByKey (left.length + 1) true [] {}
    Json.readClose '\x7d'
    Json.readEnd
    return s
  | _ => Json.refuse

inductive FileFault where
  | json (cause : Json.Fault)
  | settings (cause : SettingsFault)
  deriving DecidableEq

/-- The settings that a text spells, acceptable or not. -/
def decode (text : String) : Except Json.Fault Settings := Prod.fst <$> readFile text.toList

def ofJson (text : String) : Except FileFault Settings := do
  let s ← (decode text).mapError .json
  s.validate.mapError .settings
  return s

def toJson (s : Settings) : String :=
  String.ofList (Json.printObject 0 (Field.all.map fun field => (field.key, field.print s)))

end BlockSync.Settings

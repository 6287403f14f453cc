import BlockSync.Config.File
import Mathlib.Tactic.Common

/-! What a text says and what it leaves open. A text is read once more without defaults, field by
field; the settings that it spells are what it says, filled up with the defaults. -/

namespace BlockSync

open Json (Reader)

structure Given where
  peers : Option (List String) := none
  socks5Proxy : Option (Option String) := none
  syncFetchSpan : Option UInt32 := none
  p2pAddress : Option String := none
  agent : Option String := none
  networkVersion : Option UInt16 := none
  chainId : Option (Option String) := none
  deriving DecidableEq

namespace Given

/-- Defaults stand for what was not said. -/
def settings (g : Given) : Settings where
  peers := g.peers.getD []
  socks5Proxy := g.socks5Proxy.getD none
  syncFetchSpan := g.syncFetchSpan.getD 300
  p2pAddress := g.p2pAddress.getD "127.0.0.1:9876"
  agent := g.agent.getD "EOS Agent"
  networkVersion := g.networkVersion.getD 1212
  chainId := g.chainId.getD none

open Settings (Field)

/-- What is said with the field that comes next in a text. -/
def read (field : Field) (g : Given) : Reader Given := do
  match field with
  | .peers => return { g with peers := some (← Json.readList Json.readString) }
  | .socks5Proxy => return { g with socks5Proxy := some (← Json.readString?) }
  | .syncFetchSpan =>
    return { g with syncFetchSpan := some (UInt32.ofNat (← Json.readNat UInt32.size)) }
  | .p2pAddress => return { g with p2pAddress := some (← Json.readString) }
  | .agent => return { g with agent := some (← Json.readString) }
  | .networkVersion =>
    return { g with networkVersion := some (UInt16.ofNat (← Json.readNat UInt16.size)) }
  | .chainId => return { g with chainId := some (← Json.readString?) }

def readInOrder : List Field → Bool → Given → Reader Given
  | [], _, g => return g
  | field :: rest, first, g => do
    if ← Json.nextElement first then readInOrder rest false (← g.read field) else return g

def readByKey : Nat → Bool → List Field → Given → Reader Given
  | 0, _, _, _ => Reader.fail .ended
  | fuel + 1, first, seen, g => do
    if ← Json.nextKey first then
      match Field.ofKey? (← Json.readQuoted) with
      | some field =>
        if field ∈ seen then Reader.fail .unfit
        Json.readColon
        readByKey fuel false (field :: seen) (← g.read field)
      | none =>
        Json.readColon
        Json.skipValue
        readByKey fuel false seen g
    else return g

def readFile : Reader Given := do
  match ← Reader.peek with
  | some '[' =>
    Reader.skip
    let g ← readInOrder Field.all true {}
    Json.readClose ']'
    Json.readEnd
    return g
  | some '\x7b' =>
    Reader.skip
    let left ← get
    let g ← readByKey (left.length + 1) true [] {}
    Json.readClose '\x7d'
    Json.readEnd
    return g
  | _ => Json.refuse

/-- What a text says. -/
def ofText (text : String) : Except Json.Fault Given := Prod.fst <$> readFile text.toList

theorem read_settings (field : Field) (g : Given) :
    field.read g.settings = settings <$> g.read field := by
  cases field <;> simp only [Field.read, read, map_bind, map_pure] <;> rfl

theorem readInOrder_settings (fields : List Field) (first : Bool) (g : Given) :
    Settings.readInOrder fields first g.settings = settings <$> readInOrder fields first g := by
  induction fields generalizing first g with
  | nil => rfl
  | cons field rest ih =>
    rw [Settings.readInOrder, readInOrder, map_bind]
    congr 1
    funext more
    split
    · rw [map_bind, read_settings, bind_map_left]
      congr 1
      funext g'
      exact ih false g'
    · rfl

theorem readByKey_settings (fuel : Nat) (first : Bool) (seen : List Field) (g : Given) :
    Settings.readByKey fuel first seen g.settings =
      settings <$> readByKey fuel first seen g := by
  induction fuel generalizing first seen g with
  | zero => rfl
  | succ fuel ih =>
    rw [Settings.readByKey, readByKey, map_bind]
    refine bind_congr fun more => ?_
    cases more with
    | false => rfl
    | true =>
      simp only [if_true, map_bind]
      refine bind_congr fun key => ?_
      cases Field.ofKey? key with
      | none =>
        simp only [map_bind]
        refine bind_congr fun _ => ?_
        refine bind_congr fun _ => ?_
        exact ih false seen g
      | some field =>
        by_cases hseen : field ∈ seen
        · simp only [if_pos hseen]
          rfl
        · simp only [if_neg hseen, map_bind, read_settings, bind_map_left]
          refine bind_congr fun _ => ?_
          refine bind_congr fun g' => ?_
          exact ih false (field :: seen) g'

theorem map_refuse {α β : Type} (f : α → β) : f <$> (Json.refuse : Reader α) = Json.refuse := by
  have hfail : f <$> (Reader.fail .unfit : Reader α) = Reader.fail .unfit := rfl
  unfold Json.refuse
  rw [map_bind]
  refine bind_congr fun next => ?_
  split <;> simp only [map_bind, hfail]
  split
  · simp only [map_bind, hfail]
  · rfl

theorem readFile_settings : Settings.readFile = settings <$> readFile := by
  have hnothing : ({} : Settings) = settings {} := rfl
  rw [Settings.readFile, readFile, map_bind]
  refine bind_congr fun next => ?_
  split
  · simp only [map_bind, map_pure]
    refine bind_congr fun _ => ?_
    rw [hnothing, readInOrder_settings, bind_map_left]
  · simp only [map_bind, map_pure]
    refine bind_congr fun _ => ?_
    refine bind_congr fun left => ?_
    rw [hnothing, readByKey_settings, bind_map_left]
  · simp only [map_refuse]

theorem decode_eq (text : String) : Settings.decode text = settings <$> ofText text := by
  rw [Settings.decode, ofText, readFile_settings]
  change Prod.fst <$> (readFile text.toList >>= fun x => pure (settings x.1, x.2)) = _
  cases readFile text.toList <;> rfl

example : ofText "\x7b \"chain_id\": null, \"agent\": \"x\" \x7d" =
    .ok { agent := some "x", chainId := some none } := by decide +kernel

end Given

end BlockSync

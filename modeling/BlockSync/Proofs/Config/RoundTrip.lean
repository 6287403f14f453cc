import BlockSync.Command.Job
import BlockSync.Proofs.Json.Printed

/-! Settings that are shown can be loaded again. Whatever their strings hold, the text that is shown
of settings spells these settings, so acceptable ones are accepted once more and shown alike. -/

namespace BlockSync

open Json (Reader Ends newLine printString printMore printItems)

namespace Settings

def Field.put (field : Field) (shown s : Settings) : Settings :=
  match field with
  | .peers => { s with peers := shown.peers }
  | .socks5Proxy => { s with socks5Proxy := shown.socks5Proxy }
  | .syncFetchSpan => { s with syncFetchSpan := shown.syncFetchSpan }
  | .p2pAddress => { s with p2pAddress := shown.p2pAddress }
  | .agent => { s with agent := shown.agent }
  | .networkVersion => { s with networkVersion := shown.networkVersion }
  | .chainId => { s with chainId := shown.chainId }

def Field.entry (shown : Settings) (field : Field) : List Char :=
  printString field.key ++ ':' :: ' ' :: field.print shown

section

variable {shown s : Settings} {rest : List Char} {fuel : Nat} {seen : List Field}

theorem Field.read_blank (field : Field) (s : Settings) (cs : List Char) :
    field.read s (' ' :: cs) = field.read s cs := by
  cases field <;> rfl

theorem Field.read_printed (field : Field) (shown s : Settings) (h : Ends rest) :
    field.read s (field.print shown ++ rest) = .ok (field.put shown s, rest) := by
  cases field with
  | peers => exact Reader.bind_ok (Json.readList_printed shown.peers 1 rest)
  | socks5Proxy => exact Reader.bind_ok (Json.readString?_printed shown.socks5Proxy rest)
  | syncFetchSpan =>
    have hspan := Json.readNat_printed shown.syncFetchSpan.toNat_lt (by decide) h
    refine (Reader.bind_ok hspan).trans ?_
    rw [UInt32.ofNat_toNat]
    rfl
  | p2pAddress => exact Reader.bind_ok (Json.readString_printed shown.p2pAddress rest)
  | agent => exact Reader.bind_ok (Json.readString_printed shown.agent rest)
  | networkVersion =>
    have hversion := Json.readNat_printed shown.networkVersion.toNat_lt (by decide) h
    refine (Reader.bind_ok hversion).trans ?_
    rw [UInt16.ofNat_toNat]
    rfl
  | chainId => exact Reader.bind_ok (Json.readString?_printed shown.chainId rest)

theorem Field.ofKey?_key (field : Field) : ofKey? field.key = some field := by
  cases field <;> rfl

theorem readByKey_step {first : Bool} {field : Field} {cs : List Char}
    (hnext : Json.nextKey first cs = .ok (true, field.entry shown ++ rest)) (hseen : field ∉ seen)
    (hends : Ends rest) :
    readByKey (fuel + 1) first seen s cs =
      readByKey fuel false (field :: seen) (field.put shown s) rest := by
  have hentry : field.entry shown ++ rest =
      printString field.key ++ ':' :: ' ' :: (field.print shown ++ rest) := by
    rw [Field.entry, List.append_assoc]
    rfl
  have hcolon : Json.readColon (':' :: ' ' :: (field.print shown ++ rest)) =
      .ok ((), ' ' :: (field.print shown ++ rest)) := rfl
  rw [hentry] at hnext
  rw [readByKey, Reader.bind_ok hnext]
  simp only [if_true]
  rw [Reader.bind_ok (Json.readQuoted_printed field.key _), field.ofKey?_key]
  simp only [if_neg hseen]
  rw [Reader.bind_ok hcolon]
  exact Reader.bind_ok ((field.read_blank s _).trans (field.read_printed shown s hends))

theorem ends_more (level : Nat) (items : List (List Char)) (cs : List Char) :
    Ends (printMore level items ++ (newLine 0 ++ cs)) := by
  cases items with
  | nil => exact .newLine _
  | cons item items => exact .comma _

theorem readByKey_more {fields : List Field} (h : fields.length < fuel) (hnodup : fields.Nodup)
    (hseen : ∀ field ∈ fields, field ∉ seen) :
    readByKey fuel false seen s
      (printMore 1 (fields.map (Field.entry shown)) ++ (newLine 0 ++ '\x7d' :: rest)) =
        .ok (fields.foldl (fun s field => field.put shown s) s, '\x7d' :: rest) := by
  induction fields generalizing fuel seen s with
  | nil =>
    obtain ⟨fuel, rfl⟩ := Nat.exists_eq_succ_of_ne_zero (Nat.ne_zero_of_lt h)
    rw [List.map_nil, printMore, List.nil_append, readByKey,
      Reader.bind_ok (Json.nextKey_end false 0 rest)]
    rfl
  | cons field fields ih =>
    obtain ⟨fuel, rfl⟩ := Nat.exists_eq_succ_of_ne_zero (Nat.ne_zero_of_lt h)
    obtain ⟨hfresh, hnodup⟩ := List.nodup_cons.mp hnodup
    have hnext : Json.nextKey false (',' :: (newLine 1 ++ (field.entry shown ++
        (printMore 1 (fields.map (Field.entry shown)) ++ (newLine 0 ++ '\x7d' :: rest))))) =
          .ok (true, field.entry shown ++
            (printMore 1 (fields.map (Field.entry shown)) ++ (newLine 0 ++ '\x7d' :: rest))) :=
      Json.nextKey_more 1 _
    rw [List.map_cons, printMore, Json.printItems_cons, List.cons_append, List.append_assoc,
      List.append_assoc, readByKey_step hnext (hseen field List.mem_cons_self) (ends_more 1 _ _)]
    refine ih (Nat.lt_of_succ_lt_succ h) hnodup fun other hother => ?_
    rw [List.mem_cons, not_or]
    exact ⟨fun heq => hfresh (heq ▸ hother), hseen other (List.mem_cons_of_mem _ hother)⟩

theorem foldl_put (shown s : Settings) :
    Field.all.foldl (fun s field => field.put shown s) s = shown := by
  cases shown
  rfl

theorem readFile_shown (shown : Settings) {blanks : List Char}
    (h : ∀ c ∈ blanks, Reader.isBlank c = true) :
    readFile (shown.toJson.toList ++ blanks) = .ok (shown, []) := by
  -- The first field stands behind the brace, the others behind commas.
  generalize hmore : printMore 1 (Field.all.tail.map (Field.entry shown)) ++
    (newLine 0 ++ '\x7d' :: blanks) = more
  generalize hleft : newLine 1 ++ (Field.peers.entry shown ++ more) = left
  have htext : shown.toJson.toList ++ blanks = '\x7b' :: left := by
    rw [toJson, String.toList_ofList, Json.printObject, ← hleft, ← hmore]
    change ('\x7b' :: printItems 1 (Field.peers.entry shown ::
      Field.all.tail.map (Field.entry shown)) ++ newLine 0 ++ ['\x7d']) ++ blanks = _
    rw [Json.printItems_cons]
    simp only [List.cons_append, List.append_assoc, List.nil_append]
  have hnext : Json.nextKey true left = .ok (true, Field.peers.entry shown ++ more) := by
    rw [← hleft]
    exact Json.nextKey_first 1 _
  have hfuel : Field.all.tail.length < left.length := by
    have hlength := Json.length_le_printMore 1 (Field.all.tail.map (Field.entry shown))
    rw [List.length_map] at hlength
    simp only [← hleft, ← hmore, newLine, List.length_append, List.length_cons]
    omega
  have hkeys : readByKey (left.length + 1) true [] {} left = .ok (shown, '\x7d' :: blanks) := by
    rw [readByKey_step hnext (List.not_mem_nil) (hmore ▸ ends_more 1 _ _), ← hmore]
    rw [readByKey_more hfuel (by decide) (by decide)]
    exact congrArg (fun s => Except.ok (s, '\x7d' :: blanks)) (foldl_put shown {})
  rw [htext]
  change (readByKey (left.length + 1) true [] {} >>= fun s => Json.readClose '\x7d' >>= fun _ =>
    Json.readEnd >>= fun _ => (pure s : Reader Settings)) left = _
  rw [Reader.bind_ok hkeys]
  change (Json.readEnd >>= fun _ => (pure shown : Reader Settings)) blanks = _
  rw [Reader.bind_ok (Json.readEnd_blank h)]
  rfl

theorem decode_shown (shown : Settings) (blanks : String)
    (h : ∀ c ∈ blanks.toList, Reader.isBlank c = true) :
    decode (shown.toJson ++ blanks) = .ok shown := by
  rw [decode, String.toList_append, readFile_shown shown h]
  rfl

theorem ofJson_shown {shown : Settings} (hvalid : shown.validate = .ok ()) (blanks : String)
    (h : ∀ c ∈ blanks.toList, Reader.isBlank c = true) :
    ofJson (shown.toJson ++ blanks) = .ok shown := by
  rw [ofJson, decode_shown shown blanks h]
  change shown.validate.mapError FileFault.settings >>= _ = _
  rw [hvalid]
  rfl

end

end Settings

/-- Acceptable settings are what the text that is shown of them spells. So where this text was saved
to a file, the settings of the file, with no option beside, are shown by the same text. -/
theorem shown_settings_load_again (s : Settings) (h : s.validate = .ok ()) :
    Settings.ofJson s.toJson = .ok s ∧
      ∀ files path, files path = some (Job.show s).output →
        ∃ job, Command.prepare files (.config { config := some path }) = .ok job ∧
          job.output = (Job.show s).output := by
  constructor
  · have hload := Settings.ofJson_shown h "" nofun
    rwa [String.append_empty] at hload
  · intro files path hfile
    have hblank : ∀ c ∈ "\n".toList, Reader.isBlank c = true := by
      intro c hc
      have hline : c = '\n' := by simpa using hc
      rw [hline]
      rfl
    have hload : Command.loadFile files (some path) = .ok s := by
      rw [Command.loadFile, hfile]
      change (Settings.ofJson (s.toJson ++ "\n")).mapError (CommandFault.file path) = _
      rw [Settings.ofJson_shown h "\n" hblank]
      rfl
    have hsettings : Command.loadSettings files { config := some path } = .ok s := by
      rw [Command.loadSettings, hload]
      change s.validate.mapError CommandFault.settings >>= _ = _
      rw [h]
      rfl
    refine ⟨.show s, ?_, rfl⟩
    rw [Command.prepare, hsettings]
    rfl

namespace Shown

/-- Every kind of escape, characters far from the Latin ones and every field set. -/
def settings : Settings where
  peers := ["peer.example:9876", "[::1]:443", "\"back\\slash\" /\t\r\n:1"]
  socks5Proxy := some "прокси.example:1080"
  syncFetchSpan := 4294967295
  p2pAddress := "\x00\x01\x08\x0c\x1f\x7f"
  agent := "агент 🛰"
  networkVersion := 0
  chainId := some "AbCdEf0000000000000000000000000000000000000000000000000000000000"

end Shown

theorem shown_settings_load_again_of_escapes :
    Settings.ofJson Shown.settings.toJson = .ok Shown.settings ∧
      ∃ job, Command.prepare (fun _ => some (Job.show Shown.settings).output)
        (.config { config := some "saved.json" }) = .ok job ∧
          job.output = (Job.show Shown.settings).output := by
  obtain ⟨hload, hsaved⟩ := shown_settings_load_again Shown.settings (by decide +kernel)
  exact ⟨hload, hsaved (fun _ => some (Job.show Shown.settings).output) "saved.json" rfl⟩

end BlockSync

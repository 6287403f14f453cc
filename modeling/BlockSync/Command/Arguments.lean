import BlockSync.Config.Settings

/-!
The command line: a command, then options in any order. A value stands behind its option, either
as the next argument or attached to it.
-/

namespace BlockSync

structure NetOptions where
  config : Option String := none
  peers : List String := []
  socks5Proxy : Option String := none
  syncFetchSpan : Option UInt32 := none
  deriving DecidableEq

inductive Command where
  /-- Follow the chain until interrupted, from a trusted head if one is given. -/
  | run (net : NetOptions) (headNum : Option UInt32) (headId : Option String)
  | probe (net : NetOptions)
  | config (net : NetOptions)
  deriving DecidableEq

/-- Why arguments are no command: requests for help are among the reasons. -/
inductive UsageFault where
  | unknownArgument
  | invalidValue
  | valueValidation
  | tooManyValues
  | missingRequiredArgument
  | invalidSubcommand
  | argumentConflict
  | displayHelp
  | displayVersion
  | helpOnMissing
  deriving DecidableEq, Repr

def UsageFault.name : UsageFault → String
  | .unknownArgument => "UnknownArgument"
  | .invalidValue => "InvalidValue"
  | .valueValidation => "ValueValidation"
  | .tooManyValues => "TooManyValues"
  | .missingRequiredArgument => "MissingRequiredArgument"
  | .invalidSubcommand => "InvalidSubcommand"
  | .argumentConflict => "ArgumentConflict"
  | .displayHelp => "DisplayHelp"
  | .displayVersion => "DisplayVersion"
  | .helpOnMissing => "DisplayHelpOnMissingArgumentOrSubcommand"

namespace Command

inductive Verb where
  | run
  | probe
  | config
  deriving DecidableEq, Repr

def Verb.ofText? : String → Option Verb
  | "run" => some .run
  | "probe" => some .probe
  | "config" => some .config
  | _ => none

inductive Flag where
  | config
  | peer
  | socks5Proxy
  | syncFetchSpan
  | headNum
  | headId
  deriving DecidableEq, Repr

def Flag.ofLong? (verb : Verb) : List Char → Option Flag := fun name =>
  match String.ofList name with
  | "config" => some .config
  | "peer" => some .peer
  | "socks5-proxy" => some .socks5Proxy
  | "sync-fetch-span" => some .syncFetchSpan
  | "head-num" => if verb = .run then some .headNum else none
  | "head-id" => if verb = .run then some .headId else none
  | _ => none

def Flag.ofShort? : Char → Option Flag
  | 'c' => some .config
  | 'p' => some .peer
  | _ => none

inductive Shape where
  | escape
  | long (name : List Char) (value : Option (List Char))
  | short (letters : List Char)
  | plain
  deriving DecidableEq

def Shape.of (argument : String) : Shape :=
  match argument.toList with
  | ['-', '-'] => .escape
  | '-' :: '-' :: rest =>
    match rest.dropWhile (· ≠ '=') with
    | [] => .long rest none
    | _ :: value => .long (rest.takeWhile (· ≠ '=')) (some value)
  | '-' :: c :: rest => .short (c :: rest)
  | _ => .plain

structure Options where
  net : NetOptions := {}
  headNum : Option UInt32 := none
  headId : Option String := none

/-- A whole number with a sign or without, that is a word of 32 bits. -/
def wordOf (value : List Char) : Except UsageFault UInt32 :=
  let (negative, ds) := match value with
    | '-' :: ds => (true, ds)
    | '+' :: ds => (false, ds)
    | ds => (false, ds)
  let n := ds.foldl (fun n c => n * 10 + (c.toNat - 0x30)) 0
  if ds.isEmpty ∨ !ds.all Char.isDigit then .error .valueValidation
  else if UInt32.size ≤ n ∨ (negative ∧ n ≠ 0) then .error .valueValidation
  else .ok (UInt32.ofNat n)

/-- An option that takes one value may be given only once; this is checked first. -/
def once {α : Type} (present : Option α) (value : Except UsageFault α) :
    Except UsageFault (Option α) :=
  if present.isSome then .error .argumentConflict else some <$> value

def Options.set (o : Options) (flag : Flag) (value : List Char) : Except UsageFault Options := do
  let text := String.ofList value
  match flag with
  | .config =>
    let path := if value.isEmpty then .error .invalidValue else .ok text
    return { o with net := { o.net with config := ← once o.net.config path } }
  | .peer => return { o with net := { o.net with peers := o.net.peers ++ [text] } }
  | .socks5Proxy =>
    return { o with net := { o.net with socks5Proxy := ← once o.net.socks5Proxy (.ok text) } }
  | .syncFetchSpan =>
    return { o with
      net := { o.net with syncFetchSpan := ← once o.net.syncFetchSpan (wordOf value) } }
  | .headNum => return { o with headNum := ← once o.headNum (wordOf value) }
  | .headId => return { o with headId := ← once o.headId (.ok text) }

/-- An option whose value is not taken yet, with the value if it was met. -/
abbrev Pending := Option (Flag × Option (List Char))

def Options.settle (o : Options) : Pending → Except UsageFault Options
  | none => .ok o
  | some (_, none) => .error .invalidValue
  | some (flag, some value) => o.set flag value

/-- An option with an attached value is complete; another one waits for the next argument. -/
def Options.meet (o : Options) (pending : Pending) (flag : Flag) (attached : Option (List Char)) :
    Except UsageFault (Options × Pending) := do
  let o ← o.settle pending
  match attached with
  | some value => return (← o.set flag value, none)
  | none => return (o, some (flag, none))

def readOptions (verb : Verb) : List String → Options → Pending → Except UsageFault Options
  | [], o, pending => o.settle pending
  | argument :: rest, o, pending =>
    match Shape.of argument with
    | .escape => if rest.isEmpty then o.settle pending else .error .unknownArgument
    | .long name value => do
      if name = ['h', 'e', 'l', 'p'] then
        if value.isSome then throw .tooManyValues
        let _ ← o.settle pending
        throw .displayHelp
      match Flag.ofLong? verb name with
      | none => throw .unknownArgument
      | some flag =>
        let (o, pending) ← o.meet pending flag value
        readOptions verb rest o pending
    | .short letters => do
      match letters with
      | 'h' :: _ =>
        let _ ← o.settle pending
        throw .displayHelp
      | letter :: value =>
        match Flag.ofShort? letter with
        | none => throw .unknownArgument
        | some flag =>
          let attached := match value with
            | [] => none
            | '=' :: value => some value
            | value => some value
          let (o, pending) ← o.meet pending flag attached
          readOptions verb rest o pending
      | [] => throw .unknownArgument
    | .plain =>
      match pending with
      | some (flag, none) => readOptions verb rest o (some (flag, some argument.toList))
      | _ => .error .unknownArgument

def readHelp : List String → UsageFault
  | [] => .displayHelp
  | [topic] =>
    if topic = "help" ∨ (Verb.ofText? topic).isSome then .displayHelp else .invalidSubcommand
  | _ => .invalidSubcommand

def ofArguments : List String → Except UsageFault Command
  | [] => .error .helpOnMissing
  | argument :: rest =>
    match Verb.ofText? argument with
    | some verb => do
      let o ← readOptions verb rest {} none
      match verb with
      | .run =>
        if o.headNum.isSome ∧ o.headId.isNone then throw .missingRequiredArgument
        return .run o.net o.headNum o.headId
      | .probe => return .probe o.net
      | .config => return .config o.net
    | none =>
      if argument = "help" then .error (readHelp rest)
      else
        match Shape.of argument with
        | .escape =>
          match rest with
          | [] => .error .helpOnMissing
          | next :: _ =>
            if next = "help" ∨ (Verb.ofText? next).isSome then .error .unknownArgument
            else .error .invalidSubcommand
        | .long name value =>
          if name = ['h', 'e', 'l', 'p'] ∨ name = ['v', 'e', 'r', 's', 'i', 'o', 'n'] then
            if value.isSome then .error .tooManyValues
            else if name = ['h', 'e', 'l', 'p'] then .error .displayHelp
            else .error .displayVersion
          else .error .unknownArgument
        | .short ('h' :: _) => .error .displayHelp
        | .short ('V' :: _) => .error .displayVersion
        | .short _ => .error .unknownArgument
        | .plain => .error .invalidSubcommand

end Command

end BlockSync

import BlockSync.Command.Job

/-!
The command line. Arguments name a job, and what the job prints is printed. Links to peers are
opened by a host that embeds the library; here there is none, so no peer is reached.
-/

namespace BlockSync

def Command.settingsFile : Command → Option String
  | .run net _ _ => net.config
  | .probe net => net.config
  | .config net => net.config

/-- Asking for help is no failure. -/
def UsageFault.exitCode : UsageFault → UInt32
  | .displayHelp => 0
  | .displayVersion => 0
  | _ => 2

def readText : Option String → IO (Option String)
  | none => return none
  | some path => do
    try
      return some (← IO.FS.readFile path)
    catch _ => return none

/-- Does what arguments ask for; the answer is the exit code. -/
def Command.perform (arguments : List String) : IO UInt32 := do
  match Command.ofArguments arguments with
  | .error fault =>
    IO.eprintln fault.name
    return fault.exitCode
  | .ok command =>
    let text ← readText command.settingsFile
    match command.prepare fun _ => text with
    | .error fault =>
      IO.eprintln s!"Error: {fault.message}"
      return 1
    | .ok job =>
      IO.print job.output
      return 0

end BlockSync

def main (arguments : List String) : IO UInt32 := BlockSync.Command.perform arguments

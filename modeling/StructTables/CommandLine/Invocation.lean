import StructTables.CommandLine.Arguments
import StructTables.Group

/-! # Invocations

What a command line asks for: how to convert, and which groups, either the one that it describes or
those of a listing. -/

namespace StructTables.CommandLine
open Text

structure Invocation where
  options : Options
  /-- The directory that outputs are below. -/
  directory : Text
  listing : Text
  quiet : Bool
  verbose : Bool
  /-- The group of the `convert` command. -/
  group : Option Group
  deriving DecidableEq

def defaultListing : Text := "conversion_paths".toList

def defaultKind : Text := "telemetry".toList

/-- The value of a setting. The one behind the command counts, if there are two. -/
def setting? (program convert : Given) (s : Setting) : Option Text :=
  match convert.value? s with
  | some value => some value
  | none => program.value? s

def switched (program convert : Given) (s : Switch) : Bool := program.isOn s || convert.isOn s

/-- The invocation of what is given ahead of the command and behind it. -/
def Invocation.ofGiven (program convert : Given) (group : Option Group) : Invocation :=
  let preset := ((setting? program convert .preset).bind Preset.ofName?).getD .generic
  { options := { preset.options with
      captureDefines := switched program convert .captureDefines
      parallel := switched program convert .parallel
      exportJson := switched program convert .json }
    directory := (setting? program convert .directory).getD []
    listing := (program.value? .listing).getD defaultListing
    quiet := switched program convert .quiet
    verbose := switched program convert .verbose
    group := group }

/-- The group that a `convert` command describes, unless something is missing. -/
def groupOf (directory : Text) (convert : Given) : Except Stop Group :=
  match convert.value? .name, convert.value? .output, convert.inputs with
  | some name, some output, input :: inputs =>
    .ok {
      name := name
      kind := (convert.value? .kind).getD defaultKind
      output := Path.below directory output
      inputs := input :: inputs }
  | _, _, _ => .error (.fault .missingArgument)

/-- What the `help` command comes to: help, if what follows it leads to a command. -/
def helpStop : List Text → Stop
  | [] => .help
  | [command] => if isCommand command then .help else .fault .invalidCommand
  | _ => .fault .invalidCommand

/-- Reads the arguments of the program. Those behind a command are settled ahead of what is pending
before it. -/
def Invocation.ofArguments (arguments : List Text) : Except Stop Invocation := do
  let (progress, command?) ← readProgram {} arguments
  match command? with
  | none => return ofGiven (← progress.settle) {} none
  | some (command, more) =>
    if command = helpCommand then .error (helpStop more)
    else
      let convert ← (← readConvert {} more).settle
      -- that nothing is missing is checked here, the directory being known only further down
      let _ ← groupOf [] convert
      let program ← progress.settle
      let directory := (setting? program convert .directory).getD []
      return ofGiven program convert (some (← groupOf directory convert))

end StructTables.CommandLine

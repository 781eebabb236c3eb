import StructTables.CommandLine.Flag

/-! # Reading arguments

Arguments are read from left to right. A setting that still waits for its value, and inputs that may
go on, are pending: they are checked only when the next flag is taken, or at the end. So an argument
that is not understood is reported ahead of a bad value that stands before it. -/

namespace StructTables.CommandLine
open Text

/-- What is wrong with the arguments. -/
inductive ArgumentFault where
  /-- A value is missing, or is not allowed. -/
  | invalidValue
  | unknownArgument
  | invalidCommand
  | missingArgument
  | repeatedFlag
  /-- A switch is given a value. -/
  | unwantedValue
  deriving DecidableEq

/-- Why reading ends early. -/
inductive Stop where
  | fault (f : ArgumentFault)
  | help
  | version
  deriving DecidableEq

/-- What is given at one level. -/
structure Given where
  switches : List Switch := []
  settings : List (Setting × Text) := []
  inputs : List Text := []
  deriving DecidableEq

namespace Given

def isOn (given : Given) (s : Switch) : Bool := given.switches.contains s

def value? (given : Given) (s : Setting) : Option Text :=
  (given.settings.find? (·.1 == s)).map (·.2)

def turnOn (given : Given) (s : Switch) : Except Stop Given :=
  if given.isOn s then .error (.fault .repeatedFlag)
  else .ok { given with switches := given.switches ++ [s] }

/-- Takes the value of a setting. That the setting is given twice is reported ahead of a value that
it does not allow, and that the value is missing ahead of both. -/
def set (given : Given) (s : Setting) : Option Text → Except Stop Given
  | none => .error (.fault .invalidValue)
  | some value =>
    if (given.value? s).isSome then .error (.fault .repeatedFlag)
    else if !s.allows value then .error (.fault .invalidValue)
    else .ok { given with settings := given.settings ++ [(s, value)] }

def addInputs (given : Given) (inputs : List Text) : Except Stop Given :=
  if inputs.any List.isEmpty then .error (.fault .invalidValue)
  else .ok { given with inputs := given.inputs ++ inputs }

end Given

/-- What was read last and is not checked yet. -/
inductive Pending where
  | nothing
  | setting (s : Setting) (value? : Option Text)
  | inputs (values : List Text)
  deriving DecidableEq

structure Progress where
  given : Given := {}
  pending : Pending := .nothing
  deriving DecidableEq

namespace Progress

/-- Whether a setting waits for its value. -/
def awaitsValue (progress : Progress) : Bool :=
  match progress.pending with
  | .setting _ none => true
  | _ => false

/-- Checks what is pending. -/
def settle (progress : Progress) : Except Stop Given :=
  match progress.pending with
  | .nothing => .ok progress.given
  | .setting s value? => progress.given.set s value?
  | .inputs values => progress.given.addInputs values

/-- Takes a switch, or the help or version that ends reading. -/
def take (progress : Progress) (flag : Flag) : Except Stop Progress :=
  match progress.settle with
  | .error stop => .error stop
  | .ok given =>
    match flag with
    | .help => .error .help
    | .version => .error .version
    | .switch s => (given.turnOn s).map fun given => { given := given }
    | .setting s => .ok { given := given, pending := .setting s none }

/-- Takes a setting together with its value. -/
def takeWith (progress : Progress) (s : Setting) (value : Text) : Except Stop Progress :=
  match progress.settle with
  | .error stop => .error stop
  | .ok given => (given.set s (some value)).map fun given => { given := given }

/-- Reads a flag by name, `--name` or `--name=value`. -/
def readName (level : Level) (progress : Progress) (t : Text) : Except Stop Progress :=
  let (name, value?) :=
    match cutFirst? '=' t with
    | some (name, value) => (name, some value)
    | none => (t, none)
  match level.flag? name, value? with
  | none, _ => .error (.fault .unknownArgument)
  | some flag, none => progress.take flag
  | some (.setting s), some value => progress.takeWith s value
  | some _, some _ => .error (.fault .unwantedValue)

/-- Reads flags by letter. A setting takes the rest of the argument as its value, if there is a
rest, without an equals sign ahead of it. -/
def readLetters (level : Level) (progress : Progress) : Text → Except Stop Progress
  | [] => .ok progress
  | c :: r =>
    match level.letter? c with
    | none => .error (.fault .unknownArgument)
    | some (.setting s) =>
      match r with
      | [] => progress.take (.setting s)
      | '=' :: value => progress.takeWith s value
      | value => progress.takeWith s value
    | some flag =>
      match progress.take flag with
      | .error stop => .error stop
      | .ok progress => progress.readLetters level r

/-- Reads an input. Only the `convert` command has inputs. -/
def readInput (progress : Progress) (value : Text) : Except Stop Progress :=
  match progress.pending with
  | .inputs values => .ok { progress with pending := .inputs (values ++ [value]) }
  | _ => progress.settle.map fun given => { given := given, pending := .inputs [value] }

end Progress

/-! ## Commands -/

def convertCommand : Text := "convert".toList

def helpCommand : Text := "help".toList

def isCommand (t : Text) : Bool := t == convertCommand || t == helpCommand

/-- An argument, as far as its form goes. -/
inductive Argument where
  /-- It says that no flags follow. -/
  | separator
  | name (t : Text)
  | letters (t : Text)
  | plain (t : Text)
  deriving DecidableEq

def Argument.ofText : Text → Argument
  | ['-', '-'] => .separator
  | '-' :: '-' :: r => .name r
  | ['-'] => .plain ['-']
  | '-' :: r => .letters r
  | t => .plain t

/-- Reads the arguments of the program up to a command: what is read, and the command with what
follows it. A plain argument that is no command is refused. -/
def readProgram (progress : Progress) :
    List Text → Except Stop (Progress × Option (Text × List Text))
  | [] => .ok (progress, none)
  | argument :: more =>
    if !progress.awaitsValue && isCommand argument then .ok (progress, some (argument, more))
    else
      match Argument.ofText argument with
      | .separator =>
        match more with
        | [] => .ok (progress, none)
        | next :: _ =>
          if isCommand next then .error (.fault .unknownArgument)
          else .error (.fault .invalidCommand)
      | .name t =>
        match progress.readName .program t with
        | .error stop => .error stop
        | .ok progress => readProgram progress more
      | .letters t =>
        match progress.readLetters .program t with
        | .error stop => .error stop
        | .ok progress => readProgram progress more
      | .plain value =>
        match progress.pending with
        | .setting s none => readProgram { progress with pending := .setting s (some value) } more
        | _ => .error (.fault .invalidCommand)

/-- Reads arguments that are inputs, whatever they look like. -/
def readInputs (progress : Progress) : List Text → Except Stop Progress
  | [] => .ok progress
  | value :: more =>
    match progress.readInput value with
    | .error stop => .error stop
    | .ok progress => readInputs progress more

/-- Reads the arguments of the `convert` command. -/
def readConvert (progress : Progress) : List Text → Except Stop Progress
  | [] => .ok progress
  | argument :: more =>
    match Argument.ofText argument with
    | .separator => readInputs progress more
    | .name t =>
      match progress.readName .convert t with
      | .error stop => .error stop
      | .ok progress => readConvert progress more
    | .letters t =>
      match progress.readLetters .convert t with
      | .error stop => .error stop
      | .ok progress => readConvert progress more
    | .plain value =>
      match progress.pending with
      | .setting s none => readConvert { progress with pending := .setting s (some value) } more
      | _ =>
        match progress.readInput value with
        | .error stop => .error stop
        | .ok progress => readConvert progress more

end StructTables.CommandLine

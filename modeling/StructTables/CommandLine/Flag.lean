import StructTables.Options

/-! # Flags

The flags of the command line. Some belong to the program, some to its `convert` command, and most
to both: those may stand ahead of the command or behind it. -/

namespace StructTables.CommandLine
open Text

/-- Where a flag stands: ahead of the command, or behind it. -/
inductive Level where
  | program
  | convert
  deriving DecidableEq

/-- A flag that takes no value. -/
inductive Switch where
  | captureDefines
  | parallel
  | json
  | quiet
  | verbose
  deriving DecidableEq

/-- A flag that takes a value. -/
inductive Setting where
  | preset
  | directory
  | listing
  | name
  | kind
  | output
  deriving DecidableEq

inductive Flag where
  | switch (s : Switch)
  | setting (s : Setting)
  | help
  | version
  deriving DecidableEq

namespace Level

def commonFlags : List (Text × Flag) :=
  [("variant".toList, .setting .preset), ("capture-defines".toList, .switch .captureDefines),
    ("parallel".toList, .switch .parallel), ("json".toList, .switch .json),
    ("output".toList, .setting .directory), ("quiet".toList, .switch .quiet),
    ("verbose".toList, .switch .verbose), ("help".toList, .help)]

/-- The flags of a level by name. -/
def flags : Level → List (Text × Flag)
  | .program =>
    [("paths".toList, .setting .listing), ("version".toList, .version)] ++ commonFlags
  | .convert =>
    [("name".toList, .setting .name), ("kind".toList, .setting .kind),
      ("out".toList, .setting .output)] ++ commonFlags

def commonLetters : List (Char × Flag) :=
  [('o', .setting .directory), ('q', .switch .quiet), ('v', .switch .verbose), ('h', .help)]

/-- The flags of a level by letter. -/
def letters : Level → List (Char × Flag)
  | .program => ('V', .version) :: commonLetters
  | .convert => commonLetters

def flag? (level : Level) (name : Text) : Option Flag :=
  (level.flags.find? (·.1 == name)).map (·.2)

def letter? (level : Level) (c : Char) : Option Flag :=
  (level.letters.find? (·.1 == c)).map (·.2)

end Level

/-- Whether a setting takes the value: a preset has to be known, and a path is not empty. -/
def Setting.allows (s : Setting) (value : Text) : Bool :=
  match s with
  | .preset => (Preset.ofName? value).isSome
  | .directory | .listing | .output => !value.isEmpty
  | .name | .kind => true

end StructTables.CommandLine

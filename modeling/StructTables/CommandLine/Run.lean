import StructTables.CommandLine.Invocation
import StructTables.Conversion

/-! # Running

What a run of the program does to the file tree, and what it answers. Nothing is written before all
that the command line asks for is known to be understood. -/

namespace StructTables.CommandLine
open Text

structure Run where
  tree : FileTree
  log : List Event := []
  exitCode : Nat := 0
  /-- The last line of the error output, if the run fails. -/
  error : Option Text := none
  deriving DecidableEq

/-- Why a run fails. -/
inductive Failure where
  | missingDirectory (directory : Text)
  | unreadableListing (listing : Text) (e : ConversionError)
  | failedGroups (failed total : Nat)
  deriving DecidableEq

/-- The cause behind an error, which is told after it. -/
def causeOf : ConversionError → Text
  | .file _ fault => ": ".toList ++ fault.message
  | .listing .. => []

def Failure.message : Failure → Text
  | .missingDirectory directory =>
    "output directory ".toList ++ directory ++ " does not exist".toList
  | .unreadableListing listing e =>
    "failed to load ".toList ++ listing ++ ": ".toList ++ e.message ++ causeOf e
  | .failedGroups failed total =>
    ofNat failed ++ " of ".toList ++ ofNat total ++ " conversion groups failed".toList

/-- The run that ends in a failure. -/
def Failure.run (failure : Failure) (tree : FileTree) (log : List Event) : Run where
  tree := tree
  log := log
  exitCode := 1
  error := some ("cstruct-csv error: ".toList ++ failure.message)

/-- The groups to convert. A listing that is not there lists none. -/
def groups (tree : FileTree) (invocation : Invocation) : Except Failure (List Group) :=
  match invocation.group with
  | some group => .ok [group]
  | none =>
    if !tree.pathExists invocation.listing then .ok []
    else
      match Group.load tree invocation.listing invocation.directory with
      | .error e => .error (.unreadableListing invocation.listing e)
      | .ok groups => .ok groups

/-- Whether the directory that outputs are below is missing. -/
def lacksDirectory (tree : FileTree) (invocation : Invocation) : Bool :=
  !invocation.directory.isEmpty && !tree.isDirectory invocation.directory

def isFailure (outcome : Group.Outcome) : Bool :=
  match outcome.result with
  | .ok _ => false
  | .error _ => true

/-- Converts the groups of an invocation. -/
def convert (tree : FileTree) (options : Options) (groups : List Group) : Run :=
  let outcomes := Group.convertAll options tree groups
  let final := Group.finalTree tree outcomes
  let log := outcomes.flatMap Group.Outcome.log
  let failures := outcomes.countP isFailure
  if failures = 0 then { tree := final, log := log }
  else (Failure.failedGroups failures groups.length).run final log

/-- Carries out an invocation. -/
def perform (tree : FileTree) (invocation : Invocation) : Run :=
  if lacksDirectory tree invocation then
    (Failure.missingDirectory invocation.directory).run tree []
  else
    match groups tree invocation with
    | .error failure => failure.run tree []
    | .ok groups => convert tree invocation.options groups

/-- The exit code of a run that ends with its arguments. -/
def Stop.exitCode : Stop → Nat
  | .fault _ => 2
  | .help | .version => 0

/-- Runs the program. -/
def run (tree : FileTree) (arguments : List Text) : Run :=
  match Invocation.ofArguments arguments with
  | .error stop => { tree := tree, exitCode := stop.exitCode }
  | .ok invocation => perform tree invocation

end StructTables.CommandLine

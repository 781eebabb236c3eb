import StructTables.CommandLine.Run

/-! # The program

The outer layer: it looks up the files that an invocation names, lets the library say what comes of
them, and writes the files that differ afterwards. -/

namespace StructTables.Main
open Text CommandLine

def systemPath (location : Location) : String := String.ofList ('/' :: join ['/'] location)

def lookFile (location : Location) : IO (Option Node) := do
  try
    return some (.file (← IO.FS.readBinFile (systemPath location)).toList)
  catch _ => return none

def lookDirectory (location : Location) : IO (Option Node) := do
  try
    let path ← IO.FS.realPath (systemPath location)
    return if ← path.isDir then some .directory else none
  catch _ => return none

/-- What the system has at a location. -/
def look (location : Location) : IO (Option Node) := do
  match ← lookDirectory location with
  | some node => return some node
  | none => lookFile location

def observe (tree : FileTree) (location : Location) : IO FileTree := do
  match ← look location with
  | some node => return { tree with nodes := (location, node) :: tree.nodes }
  | none => return tree

/-- Looks up all that a path leads through. -/
def observePath (tree : FileTree) (path : Text) : IO FileTree := do
  let mut location := tree.origin path
  let mut tree := tree
  for name in Path.steps path do
    location := FileTree.stepFrom location name
    tree ← observe tree location
  return tree

/-- The file tree with the working directory and nothing else. -/
def startTree : IO FileTree := do
  let current := Path.steps (← IO.currentDir).toString.toList
  let directories := (List.range (current.length + 1)).map fun n => (current.take n, Node.directory)
  return { nodes := directories, current := current }

/-- The part of the file tree that an invocation is concerned with. -/
def observeAll (invocation : Invocation) : IO FileTree := do
  let tree ← [invocation.directory, invocation.listing].foldlM observePath (← startTree)
  match groups tree invocation with
  | .error _ => return tree
  | .ok groups =>
    let paths := groups.flatMap fun group =>
      group.inputs ++ [group.output, Path.json group.output]
    paths.foldlM observePath tree

/-- Writes the files in which a later tree differs. -/
def commit (before after : FileTree) : IO Unit := do
  for (location, _) in after.nodes.reverse do
    match after.node? location with
    | some (.file content) =>
      if before.node? location != some (.file content) then
        IO.FS.writeBinFile (systemPath location) ⟨content.toArray⟩
    | _ => pure ()

def fieldText : Event.Field → Text
  | .text t => t
  | .number n => ofNat n

def eventLine (event : Event) : Text :=
  join [' '] ([event.level.name, event.message] ++
    event.fields.map fun (name, value) => name ++ '=' :: fieldText value)

/-- Whether an event is shown: errors alone if quiet, and the progress only if verbose. -/
def isShown (invocation : Invocation) (event : Event) : Bool :=
  !invocation.quiet && (invocation.verbose || event.level != .debug)

def usage : String :=
  "Usage: cstruct-csv [OPTIONS] [convert --name <NAME> --out <OUT> <INPUTS>...]"

def perform (invocation : Invocation) : IO UInt32 := do
  let tree ← observeAll invocation
  let run := CommandLine.perform tree invocation
  commit tree run.tree
  for event in run.log do
    if isShown invocation event then IO.eprintln (String.ofList (eventLine event))
  if let some message := run.error then IO.eprintln (String.ofList message)
  return run.exitCode.toUInt32

/-- Runs the program, or says what it is and how it is used. -/
def start (arguments : List Text) : IO UInt32 := do
  match Invocation.ofArguments arguments with
  | .ok invocation => perform invocation
  | .error stop =>
    match stop with
    | .version => IO.println "cstruct-csv 0.1.0"
    | .help => IO.println usage
    | .fault _ => IO.eprintln usage
    return stop.exitCode.toUInt32

end StructTables.Main

def main (arguments : List String) : IO UInt32 :=
  StructTables.Main.start (arguments.map String.toList)

import StructTables.Extract
import StructTables.Group
import StructTables.Scan
import StructTables.Sheet

/-! # Conversions

Converting a group scans its headers and writes its sheet, and the extract beside it if that is
asked for. A header that is missing costs a warning; a file that cannot be read or written ends the
conversion of its group, and of no other. -/

namespace StructTables
open Text

structure Conversion where
  header : Sheet.Header
  rows : List Text
  structures : List Structure
  macros : List Macro
  log : List Event
  deriving DecidableEq

namespace Conversion

def ofScan (header : Sheet.Header) (scan : Scan) : Conversion where
  header := header
  rows := Sheet.rows header scan.table.entries scan.structures scan.options.alwaysMacroSection
  structures := scan.structures
  macros := scan.table.entries
  log := scan.log

def warnings (conversion : Conversion) : List Warning := StructTables.warnings conversion.log

def sheet (conversion : Conversion) : Text := Sheet.render conversion.rows

def extract (conversion : Conversion) : Extract where
  group := conversion.header.group
  kind := conversion.header.kind
  inputs := conversion.header.inputs
  macros := conversion.macros
  structures := conversion.structures

/-- Converts sources that are given with their labels. No file is read or written. -/
def ofSources (name kind : Text) (sources : List (Text × Text)) (options : Options) : Conversion :=
  ofScan ⟨name, kind, sources.map (·.1)⟩ (Scan.ofSources name options (sources.map (·.2)))

end Conversion

namespace Group

/-! ## Reading -/

/-- Scans one input, if it is there. -/
def scanInput (tree : FileTree) (scan : Scan) (input : Text) : Except ConversionError Scan :=
  if !tree.pathExists input then .ok (scan.warn (.missingInput input))
  else
    match tree.read input with
    | .error refusal => .error (.file input (.refused refusal))
    | .ok bytes =>
      .ok ((scan.report (.reading input bytes.length)).addSource (decodeUtf8Lenient bytes))

/-- Scans the inputs up to one that cannot be read, if there is such. -/
def scanInputs (tree : FileTree) (scan : Scan) : List Text → Scan × Option ConversionError
  | [] => (scan, none)
  | input :: more =>
    match scanInput tree scan input with
    | .error e => (scan, some e)
    | .ok scan => scanInputs tree scan more

/-! ## Writing -/

/-- Writes a text to a file. -/
def writeText (tree : FileTree) (path content : Text) : Except ConversionError FileTree :=
  match tree.write path (encodeUtf8 content) with
  | .error refusal => .error (.file path (.refused refusal))
  | .ok tree => .ok tree

/-- The result of converting a group: the tree that it leaves, what it reported, and its conversion
or what ended it. -/
structure Outcome where
  tree : FileTree
  log : List Event
  result : Except ConversionError Conversion

/-- Writes the files of a conversion. A sheet that is written stays, even if the extract cannot be
written beside it. -/
def writeConversion (options : Options) (tree : FileTree) (output : Text)
    (conversion : Conversion) : FileTree × Option ConversionError :=
  match writeText tree output conversion.sheet with
  | .error e => (tree, some e)
  | .ok written =>
    if !options.exportJson then (written, none)
    else
      match writeText written (Path.json output) conversion.extract.render with
      | .error e => (written, some e)
      | .ok exported => (exported, none)

/-- What is reported once a group is converted. -/
def convertedEvent (output : Text) (conversion : Conversion) : Event :=
  .converted output conversion.structures.length conversion.macros.length
    conversion.warnings.length

def convert (options : Options) (tree : FileTree) (group : Group) : Outcome :=
  match scanInputs tree (Scan.start group.name options) group.inputs with
  | (scan, some e) => { tree := tree, log := scan.log, result := .error e }
  | (scan, none) =>
    let conversion := Conversion.ofScan ⟨group.name, group.kind, group.inputs⟩ scan
    match writeConversion options tree group.output conversion with
    | (tree, some e) => { tree := tree, log := scan.log, result := .error e }
    | (tree, none) =>
      { tree := tree
        log := scan.log ++ [convertedEvent group.output conversion]
        result := .ok conversion }

/-- Converts groups one after the other. Outcomes stand in the order of the groups, and the tree of
the last one is the final tree. -/
def convertAll (options : Options) (tree : FileTree) : List Group → List Outcome
  | [] => []
  | group :: more =>
    let outcome := group.convert options tree
    outcome :: convertAll options outcome.tree more

/-- The tree that a list of outcomes leaves, starting from the given one. -/
def finalTree (tree : FileTree) (outcomes : List Outcome) : FileTree :=
  (outcomes.getLast?.map Outcome.tree).getD tree

end Group
end StructTables

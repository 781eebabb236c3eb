import StructTables.Body.Assembly
import StructTables.Options
import StructTables.Outline.Region
import StructTables.Source

/-! # Scanning

A scan reads the sources of one group one after the other and accumulates their structures, the
macros that these use, and a log. Nothing but that is carried from one source to the next. -/

namespace StructTables
open Text

structure Scan where
  options : Options
  collector : Macro.Collector
  structures : List Structure := []
  log : List Event := []
  deriving DecidableEq

namespace Scan

def start (group : Text) (options : Options) : Scan where
  options := options
  collector := if options.formulaMacros then .forGroup group else .plain

def table (scan : Scan) : Macro.Table := scan.collector.table

def warnings (scan : Scan) : List Warning := StructTables.warnings scan.log

def report (scan : Scan) (event : Event) : Scan := { scan with log := scan.log ++ [event] }

def warn (scan : Scan) (warning : Warning) : Scan := scan.report (.warning warning)

/-! ## Regions -/

/-- The name and the value of a line of the form `#define NAME VALUE`, with one word for each. -/
def definition? (line : Text) : Option (Text × Text) :=
  match words line with
  | [keyword, name, value] =>
    if keyword = "#define".toList && Macro.isIdentifier name then some (name, value) else none
  | _ => none

/-- Captures the definition that a line gives, unless its name has one already. -/
def capture (scan : Scan) (line : Text) : Scan :=
  match definition? line with
  | none => scan
  | some (name, value) =>
    if scan.collector.isDefined name then scan
    else { scan with collector := scan.collector.define name value }.report (.captured name value)

/-- Takes account of a line outside structures. -/
def addOutside (scan : Scan) (line : Text) : Scan :=
  if Outline.isTypedef line then
    if Outline.namesStructure line then scan.report (.bodiless line)
    else if scan.options.warnUnhandledTypedefs then scan.warn (.unhandledTypedef line)
    else scan
  else if scan.options.captureDefines then scan.capture line
  else scan

/-- The name that a structure has once its closing line is known. -/
def closedName (opening : Outline.Opening) (closing : Text) : Text :=
  match opening.form with
  | .tagged => opening.name
  | .typedef => Outline.typedefName closing

/-- Takes account of a closed structure. One without a name is given up before its body is read. -/
def addClosed (scan : Scan) (opening : Outline.Opening) (body : List Text) (closing : Text) :
    Scan :=
  let name := closedName opening closing
  if name.isEmpty then scan.warn (.missingStructureName closing)
  else
    let (s, collector, log) :=
      Structure.addBody { name := name, form := opening.form } scan.collector body
    { scan with
      collector := collector
      structures := scan.structures ++ [s]
      log := scan.log ++ log ++ [.extracted s.name s.members.length] }

def addRegion (scan : Scan) : Outline.Region → Scan
  | .outside line => scan.addOutside line
  | .abandoned opening => scan.report (.reopened opening.name opening.line)
  | .closed opening body closing => scan.addClosed opening body closing
  | .unclosed opening => scan.report (.unclosed opening.name opening.line)

/-! ## Sources -/

/-- Scans the logical lines of one source. -/
def addLines (scan : Scan) (lines : List Text) : Scan :=
  (Outline.regions lines).foldl addRegion scan

def addSource (scan : Scan) (content : Text) : Scan :=
  scan.addLines (Source.logicalLines scan.options.joinContinuations content)

/-- Scans all sources of a group. -/
def ofSources (group : Text) (options : Options) (sources : List Text) : Scan :=
  sources.foldl addSource (start group options)

end Scan
end StructTables

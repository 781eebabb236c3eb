import StructTables.Text.Basic

/-! # Events

What a conversion reports besides its result. A warning is a problem that cost a file, a structure
or one declaration; the other events follow the progress. All of them stand in one log, in the order
in which they arise, and the warnings of a conversion are read off that log. -/

namespace StructTables
open Text

inductive Warning where
  | missingInput (path : Text)
  | missingStructureName (closing : Text)
  | invalidMember (owner text : Text)
  | unhandledTypedef (text : Text)
  deriving DecidableEq

def Warning.message : Warning → Text
  | .missingInput path => "can't locate input file: ".toList ++ path
  | .missingStructureName closing =>
    "missing structure name (closing line '".toList ++ closing ++ "')".toList
  | .invalidMember owner text =>
    "structure '".toList ++ owner ++ "' has an invalid variable definition: ".toList ++ text
  | .unhandledTypedef text => "unhandled typedef: ".toList ++ text

inductive Event where
  | warning (w : Warning)
  /-- A structure opened, on the given line, before the next one did and was never closed. -/
  | reopened (abandoned : Text) (line : Nat)
  /-- The source ended within the structure that opened on the given line. -/
  | unclosed (owner : Text) (line : Nat)
  | bodiless (text : Text)
  | captured (name value : Text)
  | extracted (owner : Text) (members : Nat)
  | duplicate (owner name : Text)
  | reading (input : Text) (bytes : Nat)
  | converted (output : Text) (structures macros warnings : Nat)
  deriving DecidableEq

namespace Event

inductive Level where
  | debug
  | info
  | warn
  deriving DecidableEq

def Level.name : Level → Text
  | .debug => "DEBUG".toList
  | .info => "INFO".toList
  | .warn => "WARN".toList

def level : Event → Level
  | .warning _ => .warn
  | .converted .. => .info
  | _ => .debug

def message : Event → Text
  | .warning w => w.message
  | .reopened .. => "structure reopened before closing".toList
  | .unclosed .. => "dropping structure without closing brace".toList
  | .bodiless _ => "skipping struct typedef without a body".toList
  | .captured .. => "captured macro definition".toList
  | .extracted .. => "extracted structure".toList
  | .duplicate .. => "dropping duplicate member".toList
  | .reading .. => "scanning input".toList
  | .converted .. => "group converted".toList

/-- A field that an event carries beside its message. -/
inductive Field where
  | text (t : Text)
  | number (n : Nat)
  deriving DecidableEq

def fields : Event → List (Text × Field)
  | .warning _ => []
  | .reopened abandoned line =>
    [("abandoned".toList, .text abandoned), ("line".toList, .number line)]
  | .unclosed owner line => [("structure".toList, .text owner), ("line".toList, .number line)]
  | .bodiless text => [("text".toList, .text text)]
  | .captured name value => [("name".toList, .text name), ("value".toList, .text value)]
  | .extracted owner members =>
    [("structure".toList, .text owner), ("members".toList, .number members)]
  | .duplicate owner name =>
    [("structure".toList, .text owner), ("variable".toList, .text name)]
  | .reading input bytes => [("input".toList, .text input), ("bytes".toList, .number bytes)]
  | .converted output structures macros warnings =>
    [("output".toList, .text output), ("structures".toList, .number structures),
      ("macros".toList, .number macros), ("warnings".toList, .number warnings)]

def warning? : Event → Option Warning
  | .warning w => some w
  | _ => none

end Event

def warnings (log : List Event) : List Warning := log.filterMap Event.warning?

end StructTables

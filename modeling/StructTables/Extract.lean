import StructTables.Json.Parser
import StructTables.Json.Printer
import StructTables.Json.Record
import StructTables.Macro.Basic
import StructTables.Options
import StructTables.Structure

/-! # Extracts

The extract of a group is all that was found in its headers, for tools that do not read data tables.
It is written as JSON and can be read back. -/

namespace StructTables

structure Extract where
  group : Text
  kind : Text
  inputs : List Text
  macros : List Macro
  structures : List Structure
  deriving DecidableEq

/-! ## Writing -/

def Member.toJson (m : Member) : Json :=
  .record [
    ("data_type".toList, .ofText m.dataType),
    ("variable_name".toList, .ofText m.name),
    ("array_size".toList, .ofText m.arraySize),
    ("bit_length".toList, .ofText m.bitLength),
    ("description".toList, .ofText m.description)]

def Form.name : Form → Text
  | .tagged => "Struct".toList
  | .typedef => "TypedefStruct".toList

def Structure.toJson (s : Structure) : Json :=
  .record [
    ("name".toList, .ofText s.name),
    ("kind".toList, .ofText s.form.name),
    ("members".toList, .ofList Member.toJson s.members)]

def Macro.toJson (m : Macro) : Json :=
  .record [("name".toList, .ofText m.name), ("value".toList, .ofText m.value)]

def Extract.toJson (e : Extract) : Json :=
  .record [
    ("group".toList, .ofText e.group),
    ("kind".toList, .ofText e.kind),
    ("inputs".toList, .ofList .ofText e.inputs),
    ("macros".toList, .ofList Macro.toJson e.macros),
    ("structures".toList, .ofList Structure.toJson e.structures)]

def Preset.toJson (p : Preset) : Json := .ofText p.name

def Options.fieldNames : List Text :=
  ["join_continuations".toList, "synthesize_formula_macros".toList,
    "always_emit_macro_section".toList, "warn_unhandled_typedefs".toList,
    "capture_defines".toList, "parallel".toList, "export_json".toList]

def Options.flags (o : Options) : List Bool :=
  [o.joinContinuations, o.formulaMacros, o.alwaysMacroSection, o.warnUnhandledTypedefs,
    o.captureDefines, o.parallel, o.exportJson]

def Options.toJson (o : Options) : Json :=
  .record (fieldNames.zip (o.flags.map .bool))

/-- The written extract. -/
def Extract.render (e : Extract) : Text := e.toJson.render

/-! ## Reading -/

def Form.ofName? (name : Text) : Option Form := [Form.tagged, .typedef].find? (·.name == name)

def Form.ofJson? (value : Json) : Option Form := value.asName?.bind Form.ofName?

def Preset.ofJson? (value : Json) : Option Preset := value.asName?.bind Preset.ofName?

def Member.ofJson? (value : Json) : Option Member := do
  let fields ← value.fields? ["data_type".toList, "variable_name".toList, "array_size".toList,
    "bit_length".toList, "description".toList]
  match ← fields.mapM Json.asText? with
  | [dataType, name, arraySize, bitLength, description] =>
    some { dataType, name, arraySize, bitLength, description }
  | _ => none

def Macro.ofJson? (value : Json) : Option Macro := do
  let fields ← value.fields? ["name".toList, "value".toList]
  match ← fields.mapM Json.asText? with
  | [name, value] => some { name, value }
  | _ => none

def Structure.ofJson? (value : Json) : Option Structure := do
  match ← value.fields? ["name".toList, "kind".toList, "members".toList] with
  | [name, form, members] =>
    some {
      name := ← name.asText?
      form := ← Form.ofJson? form
      members := ← members.asListOf? Member.ofJson? }
  | _ => none

def Extract.ofJson? (value : Json) : Option Extract := do
  match ← value.fields? ["group".toList, "kind".toList, "inputs".toList, "macros".toList,
    "structures".toList] with
  | [group, kind, inputs, macros, structures] =>
    some {
      group := ← group.asText?
      kind := ← kind.asText?
      inputs := ← inputs.asListOf? Json.asText?
      macros := ← macros.asListOf? Macro.ofJson?
      structures := ← structures.asListOf? Structure.ofJson? }
  | _ => none

/-- An option that is given, or else its default. -/
def Options.flag? (default : Bool) : Option Json → Option Bool
  | some value => value.asBool?
  | none => some default

/-- Reads options. Those that are missing are those of the generic preset. -/
def Options.ofJson? (value : Json) : Option Options := do
  let fields ← value.optionalFields? fieldNames
  let given := fields.zip Options.generic.flags
  match ← given.mapM fun (field, default) => flag? default field with
  | [joinContinuations, formulaMacros, alwaysMacroSection, warnUnhandledTypedefs, captureDefines,
      parallel, exportJson] =>
    some { joinContinuations, formulaMacros, alwaysMacroSection, warnUnhandledTypedefs,
           captureDefines, parallel, exportJson }
  | _ => none

/-- Reads a written extract. -/
def Extract.parse? (t : Text) : Option Extract := (Json.parse? t).bind Extract.ofJson?

end StructTables

import StructTables.Json.Value

/-! # Records in JSON

A record is an object with a field of each name, among which other fields may stand, or an array of
its fields in order. A name out of a fixed list is a string, or an object that has the name as its
one key, with a null. -/

namespace StructTables.Json
open Text

def asText? : Json → Option Text
  | .string text? => text?
  | _ => none

def asBool? : Json → Option Bool
  | .bool b => some b
  | _ => none

/-- The items of an array, each read by `f?`. -/
def asListOf? {α : Type} (f? : Json → Option α) : Json → Option (List α)
  | .array items => items.mapM f?
  | _ => none

def asName? : Json → Option Text
  | .string text? => text?
  | .object [(key, .null)] => key
  | _ => none

/-- The value of the field in an object: `none` if the field is repeated. -/
def field? (entries : List (Option Text × Json)) (name : Text) : Option (Option Json) :=
  match entries.filter (·.1 == some name) with
  | [] => some none
  | [(_, value)] => some (some value)
  | _ => none

/-- The fields of a record, in the order of the given names; a field may be missing. Every key of an
object has to be a text, also that of a field which is none of those named. -/
def optionalFields? (names : List Text) : Json → Option (List (Option Json))
  | .object entries => if entries.all (·.1.isSome) then names.mapM (field? entries) else none
  | .array items =>
    if items.length ≤ names.length then
      some (items.map some ++ List.replicate (names.length - items.length) none)
    else none
  | _ => none

/-- The fields of a record, none of which may be missing. -/
def fields? (names : List Text) (value : Json) : Option (List Json) :=
  (optionalFields? names value).bind fun fields => fields.mapM id

end StructTables.Json

import StructTables.Extract
import StructTables.Proofs.Json.Record
import StructTables.Proofs.Json.Values

/-! # Reading extracts back

Every part of an extract is written as a record of texts and lists, and is read back from it. -/

namespace StructTables
open Text Json

/-! ## Values -/

theorem Form.ofJson?_name (form : Form) : Form.ofJson? (.ofText form.name) = some form := by
  cases form <;> rfl

theorem Member.ofJson?_toJson (m : Member) : Member.ofJson? m.toJson = some m := by
  have hfields : fields? _ m.toJson = some _ := fields?_zip
    ["data_type".toList, "variable_name".toList, "array_size".toList,
      "bit_length".toList, "description".toList]
    [.ofText m.dataType, .ofText m.name, .ofText m.arraySize, .ofText m.bitLength,
      .ofText m.description] (by decide) rfl
  rw [Member.ofJson?, hfields]
  rfl

theorem Macro.ofJson?_toJson (m : Macro) : Macro.ofJson? m.toJson = some m := by
  have hfields : fields? _ m.toJson = some _ := fields?_zip
    ["name".toList, "value".toList] [.ofText m.name, .ofText m.value] (by decide) rfl
  rw [Macro.ofJson?, hfields]
  rfl

theorem Structure.ofJson?_toJson (s : Structure) : Structure.ofJson? s.toJson = some s := by
  have hfields : fields? _ s.toJson = some _ := fields?_zip
    ["name".toList, "kind".toList, "members".toList]
    [.ofText s.name, .ofText s.form.name, .ofList Member.toJson s.members]
    (by decide) rfl
  have hmembers := asListOf?_ofList Member.ofJson?_toJson s.members
  rw [Structure.ofJson?, hfields]
  simp [hmembers, Form.ofJson?_name]

theorem Extract.ofJson?_toJson (e : Extract) : Extract.ofJson? e.toJson = some e := by
  have hfields : fields? _ e.toJson = some _ := fields?_zip
    ["group".toList, "kind".toList, "inputs".toList, "macros".toList, "structures".toList]
    [.ofText e.group, .ofText e.kind, .ofList .ofText e.inputs, .ofList Macro.toJson e.macros,
      .ofList Structure.toJson e.structures] (by decide) rfl
  have hinputs := asListOf?_ofList asText?_ofText e.inputs
  have hmacros := asListOf?_ofList Macro.ofJson?_toJson e.macros
  have hstructures := asListOf?_ofList Structure.ofJson?_toJson e.structures
  rw [Extract.ofJson?, hfields]
  simp [hinputs, hmacros, hstructures]

/-! ## Texts -/

theorem Member.numberless_toJson (m : Member) : Numberless m.toJson :=
  .record (by simp)

theorem Macro.numberless_toJson (m : Macro) : Numberless m.toJson :=
  .record (by simp)

theorem Structure.numberless_toJson (s : Structure) : Numberless s.toJson :=
  .record (by simp [Numberless.ofList, Member.numberless_toJson])

theorem Extract.numberless_toJson (e : Extract) : Numberless e.toJson :=
  .record (by simp [Numberless.ofList, Macro.numberless_toJson, Structure.numberless_toJson])

/-- An extract comes back from the text that it is written as. -/
theorem Extract.parse?_render (e : Extract) : Extract.parse? e.render = some e := by
  rw [Extract.parse?, Extract.render, parse?_render_of_numberless e.numberless_toJson, Option.bind_some,
    e.ofJson?_toJson]

end StructTables

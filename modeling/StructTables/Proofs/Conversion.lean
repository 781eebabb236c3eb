import StructTables.Conversion
import StructTables.Proofs.Scan.Collecting
import StructTables.Proofs.Scan.Factoring
import StructTables.Proofs.Scan.OneLine

/-! # The sheet of a conversion

Sources can put nothing into a sheet but the fields of its rows. -/

namespace StructTables.Conversion
open Text

/-- The text of a sheet is its rows, line by line, whatever the sources are. The tags among its lines
are that of the macros, if they are written at all, and then two for every structure; and every macro
heads one row of the macro section, which has no other rows. -/
theorem sheet_lines (name kind : Text) (sources : List (Text × Text)) (options : Options)
    (hname : '\n' ∉ name) (hkind : '\n' ∉ kind) (hlabels : ∀ source ∈ sources, '\n' ∉ source.1) :
    let conversion := ofSources name kind sources options
    let lines := splitOn '\n' conversion.sheet
    lines = conversion.rows ++ [[]] ∧ (∀ row ∈ conversion.rows, '\n' ∉ row) ∧
      lines.filter (Sheet.tags.contains ·) =
        (if options.alwaysMacroSection || !conversion.macros.isEmpty then [Sheet.macrosTag] else []) ++
          conversion.structures.flatMap (fun _ => [Sheet.nameTag, Sheet.columnTag]) ∧
      Sheet.macroSection lines = conversion.macros.map Sheet.macroRow ∧
      ∀ m ∈ conversion.macros,
        (Sheet.macroSection lines).countP (startsWith · (Sheet.quoted m.name ++ [','])) = 1 := by
  intro conversion lines
  let scan := Scan.ofSources name options (sources.map (·.2))
  have hscan : scan.Unbroken := Scan.unbroken_ofSources hname options _
  have hsections : conversion.rows ++ [[]] =
      Sheet.sections conversion.header scan.table.entries scan.structures
        options.alwaysMacroSection := by
    rw [← Sheet.rows_append_blank]
    exact congrArg (Sheet.rows _ _ _ ·.alwaysMacroSection ++ [[]])
      (Scan.options_ofSources name options (sources.map (·.2)))
  have hinputs : ∀ input ∈ sources.map (·.1), OneLine input := by
    intro input hinput
    obtain ⟨source, hsource, rfl⟩ := List.mem_map.mp hinput
    exact hlabels source hsource
  have hrows : ∀ row ∈ conversion.rows ++ [[]], OneLine row := by
    rw [hsections]
    exact Sheet.oneLine_sections (Sheet.oneLine_header hname hkind hinputs) hscan.collector.table
      hscan.structures
  have hrows := (List.forall_mem_append.mp hrows).1
  have hlines : lines = conversion.rows ++ [[]] := Sheet.splitOn_render hrows
  have hsection : Sheet.macroSection lines = scan.table.entries.map Sheet.macroRow := by
    rw [hlines, hsections, Sheet.macroSection_sections]
  refine ⟨hlines, hrows, ?_, hsection, fun m hm => ?_⟩
  · rw [hlines, hsections, Sheet.filter_tags_sections]
    rfl
  · rw [hsection]
    exact Sheet.countP_macroRow (Scan.nodup_names_ofSources name options _) hm

/-- Tags in the name of the group, in its input, in comments and in the names of structures and members
do not become lines of their own. -/
theorem sheet_lines_of_tags :
    let options : Options := { captureDefines := true }
    let source := "#define N M\nstruct _name_type_ \x7b\n/* _macros_\n_column_data_ */\n".toList ++
      "int _macros_[N]; // \"\n// _macros_\n\x7d;\nstruct B \x7b\nint b;\n\x7d;\n".toList
    let conversion := ofSources "_macros_".toList [] [("_column_data_".toList, source)] options
    let lines := splitOn '\n' conversion.sheet
    conversion.structures.map Structure.name = ["_name_type_".toList, "B".toList] ∧
      lines.filter (Sheet.tags.contains ·) =
        [Sheet.macrosTag, Sheet.nameTag, Sheet.columnTag, Sheet.nameTag, Sheet.columnTag] ∧
      Sheet.macroSection lines = ["\"N\",\"##M##\"".toList, "\"M\",\"2\"".toList] := by
  intro options source conversion lines
  obtain ⟨-, -, htags, hsection, -⟩ := sheet_lines "_macros_".toList []
    [("_column_data_".toList, source)] options (by decide) (by decide) (by decide)
  exact ⟨by decide +kernel, htags.trans (by decide +kernel), hsection.trans (by decide +kernel)⟩

end StructTables.Conversion

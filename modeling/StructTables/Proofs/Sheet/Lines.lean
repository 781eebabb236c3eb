import Mathlib.Data.List.Nodup
import StructTables.Proofs.Sheet.Layout
import StructTables.Proofs.Text.OneLine

/-! # The lines of a sheet

Texts on one line make rows on one line, so the text of a sheet comes apart into its rows. A tag among
them is never a row of fields, and a macro is found in its section by the field that heads its row. -/

namespace StructTables
open Text

/-- The texts that a sheet shows of a member, in the order of their columns. -/
def Member.texts (m : Member) : List Text :=
  [m.dataType, m.name, m.arraySize, m.bitLength, m.description]

namespace Sheet

theorem splitOn_render {rows : List Text} (h : ∀ row ∈ rows, OneLine row) :
    splitOn '\n' (render rows) = rows ++ [[]] := by
  induction rows with
  | nil => rfl
  | cons row more ih =>
    obtain ⟨hrow, hmore⟩ := List.forall_mem_cons.mp h
    rw [render, List.flatMap_cons, List.append_assoc, List.singleton_append, splitOn_append hrow,
      ← render, ih hmore, List.cons_append]

/-! ## Rows on one line -/

theorem oneLine_row {fields : List Text} (h : ∀ field ∈ fields, OneLine field) :
    OneLine (row fields) := by
  refine oneLine_join (by decide) fun text htext => ?_
  obtain ⟨field, hfield, rfl⟩ := List.mem_map.mp htext
  refine oneLine_cons.mpr ⟨by decide, oneLine_append.mpr ⟨fun hmem => ?_, by decide⟩⟩
  obtain ⟨c, hc, hmem⟩ := List.mem_flatMap.mp hmem
  split at hmem
  · revert hmem
    decide
  · exact h field hfield (List.mem_singleton.mp hmem ▸ hc)

variable {header : Header} {macros : List Macro} {structures : List Structure} {always : Bool}

theorem oneLine_header (hgroup : OneLine header.group) (hkind : OneLine header.kind)
    (hinputs : ∀ input ∈ header.inputs, OneLine input) : ∀ row ∈ header.rows, OneLine row := by
  have htitle : OneLine ("# ".toList ++ header.group ++ ' ' :: header.kind ++ " data tables".toList) :=
    oneLine_append.mpr ⟨oneLine_append.mpr ⟨oneLine_append.mpr ⟨by decide, hgroup⟩,
      oneLine_cons.mpr ⟨by decide, hkind⟩⟩, by decide⟩
  have himport : OneLine
      ("#   Use the CCDD Data | Import table(s) command to import the ".toList ++ header.group) :=
    oneLine_append.mpr ⟨by decide, hgroup⟩
  refine List.forall_mem_append.mpr ⟨List.forall_mem_append.mpr ⟨by decide, fun row hrow => ?_⟩, ?_⟩
  · obtain ⟨input, hinput, rfl⟩ := List.mem_map.mp hrow
    exact oneLine_append.mpr ⟨by decide, hinputs input hinput⟩
  · simp only [List.forall_mem_cons]
    exact ⟨oneLine_nil, htitle, himport, by decide, oneLine_nil, fun _ hrow => nomatch hrow⟩

theorem oneLine_macroRows (h : ∀ m ∈ macros, OneLine m.name ∧ OneLine m.value) :
    ∀ row ∈ macroRows macros, OneLine row := by
  refine List.forall_mem_cons.mpr
    ⟨by decide, List.forall_mem_append.mpr ⟨fun row hrow => ?_, by decide⟩⟩
  obtain ⟨m, hm, rfl⟩ := List.mem_map.mp hrow
  exact oneLine_row (List.forall_mem_cons.mpr ⟨(h m hm).1, List.forall_mem_singleton.mpr (h m hm).2⟩)

theorem oneLine_structureRows {s : Structure} (hname : OneLine s.name)
    (hmembers : ∀ m ∈ s.members, ∀ t ∈ m.texts, OneLine t) : ∀ row ∈ structureRows s, OneLine row := by
  have hhead : OneLine (row [s.name, "Structure".toList]) :=
    oneLine_row (List.forall_mem_cons.mpr ⟨hname, by decide⟩)
  refine List.forall_mem_append.mpr ⟨List.forall_mem_append.mpr ⟨?_, fun row hrow => ?_⟩, by decide⟩
  · exact List.forall_mem_cons.mpr ⟨by decide, List.forall_mem_cons.mpr ⟨hhead, by decide⟩⟩
  · obtain ⟨m, hm, rfl⟩ := List.mem_map.mp hrow
    exact oneLine_row (hmembers m hm)

theorem oneLine_sections (hheader : ∀ row ∈ header.rows, OneLine row)
    (hmacros : ∀ m ∈ macros, OneLine m.name ∧ OneLine m.value)
    (hstructures : ∀ s ∈ structures, OneLine s.name ∧ ∀ m ∈ s.members, ∀ t ∈ m.texts, OneLine t) :
    ∀ row ∈ sections header macros structures always, OneLine row := by
  refine List.forall_mem_append.mpr ⟨List.forall_mem_append.mpr ⟨hheader, ?_⟩, fun row hrow => ?_⟩
  · split
    · exact oneLine_macroRows hmacros
    · exact fun row hrow => nomatch hrow
  · obtain ⟨s, hs, hrow⟩ := List.mem_flatMap.mp hrow
    exact oneLine_structureRows (hstructures s hs).1 (hstructures s hs).2 row hrow

/-! ## Tags -/

def tags : List Text := [macrosTag, nameTag, columnTag]

theorem not_mem_tags {line : Text} (h : line.head? ≠ some '_') : line ∉ tags := by
  intro hmem
  have htags : ∀ tag ∈ tags, tag.head? = some '_' := by decide
  exact h (htags line hmem)

theorem head?_row_ne (field : Text) (more : List Text) : (row (field :: more)).head? ≠ some '_' := by
  simp [row_cons, quoted_eq]

theorem filter_tags_eq_nil {rows : List Text} (h : ∀ row ∈ rows, row.head? ≠ some '_') :
    rows.filter (tags.contains ·) = [] :=
  List.filter_eq_nil_iff.mpr fun row hrow hmem =>
    not_mem_tags (h row hrow) (List.contains_iff_mem.mp hmem)

theorem head?_header_ne (header : Header) : ∀ line ∈ header.rows, line.head? ≠ some '_' := by
  refine List.forall_mem_append.mpr
    ⟨List.forall_mem_append.mpr ⟨by decide, fun line hline => ?_⟩, ?_⟩
  · obtain ⟨input, -, rfl⟩ := List.mem_map.mp hline
    simp
  · simp only [List.forall_mem_cons]
    exact ⟨by decide, by simp, by simp, by decide, by decide, fun _ hline => nomatch hline⟩

theorem filter_tags_macroRows (macros : List Macro) :
    (macroRows macros).filter (tags.contains ·) = [macrosTag] := by
  have hrows : ∀ row ∈ macros.map macroRow ++ [[]], row.head? ≠ some '_' := by
    refine List.forall_mem_append.mpr ⟨fun row hrow => ?_, by decide⟩
    obtain ⟨m, -, rfl⟩ := List.mem_map.mp hrow
    exact head?_row_ne _ _
  rw [macroRows, List.cons_append, List.filter_cons_of_pos (by decide), filter_tags_eq_nil hrows]

theorem filter_tags_structureRows (s : Structure) :
    (structureRows s).filter (tags.contains ·) = [nameTag, columnTag] := by
  have hsplit : structureRows s =
      nameTag :: row [s.name, "Structure".toList] :: columnTag :: row columns ::
        (s.members.map memberRow ++ [[]]) := rfl
  have hname : row [s.name, "Structure".toList] ∉ tags := not_mem_tags (head?_row_ne _ _)
  have hrows : ∀ line ∈ row columns :: (s.members.map memberRow ++ [[]]), line.head? ≠ some '_' := by
    refine List.forall_mem_cons.mpr
      ⟨by decide, List.forall_mem_append.mpr ⟨fun line hline => ?_, by decide⟩⟩
    obtain ⟨m, -, rfl⟩ := List.mem_map.mp hline
    exact head?_row_ne _ _
  rw [hsplit, List.filter_cons_of_pos (by decide), List.filter_cons_of_neg (by simpa using hname),
    List.filter_cons_of_pos (by decide), filter_tags_eq_nil hrows]

theorem filter_tags_structures (structures : List Structure) :
    (structures.flatMap structureRows).filter (tags.contains ·) =
      structures.flatMap fun _ => [nameTag, columnTag] := by
  rw [List.filter_flatMap]
  exact congrArg (List.flatMap · structures) (funext filter_tags_structureRows)

/-- The tags of a sheet, in order. -/
theorem filter_tags_sections (header : Header) (macros : List Macro) (structures : List Structure)
    (always : Bool) :
    (sections header macros structures always).filter (tags.contains ·) =
      (if always || !macros.isEmpty then [macrosTag] else []) ++
        structures.flatMap fun _ => [nameTag, columnTag] := by
  rw [sections, List.filter_append, List.filter_append, filter_tags_eq_nil (head?_header_ne header),
    filter_tags_structures, List.nil_append]
  split
  · rw [filter_tags_macroRows]
  · rfl

/-! ## The macro section -/

/-- The rows below the tag of the macros, down to the blank row behind them. -/
def macroSection (lines : List Text) : List Text :=
  ((lines.dropWhile (· != macrosTag)).drop 1).takeWhile (! ·.isEmpty)

theorem macroSection_sections (header : Header) (macros : List Macro) (structures : List Structure)
    (always : Bool) :
    macroSection (sections header macros structures always) = macros.map macroRow := by
  have hheader : ∀ row ∈ header.rows, (row != macrosTag) = true := by
    intro row hrow
    refine bne_iff_ne.mpr fun heq => ?_
    exact not_mem_tags (head?_header_ne header row hrow) (heq ▸ List.mem_cons_self)
  rw [macroSection, sections, List.append_assoc, List.dropWhile_append_of_pos hheader]
  split
  case isTrue =>
    have hnonblank : [] ∉ macros.map macroRow := nil_not_mem_map (fun _ => row_cons_ne_nil _ _) _
    rw [macroRows, List.cons_append, List.cons_append, List.dropWhile_cons_of_neg (by simp),
      List.drop_one, List.tail_cons, List.append_assoc, List.singleton_append,
      takeWhile_append_blank hnonblank]
  case isFalse hnone =>
    simp only [Bool.or_eq_true, Bool.not_eq_true', not_or, Bool.not_eq_false,
      List.isEmpty_iff] at hnone
    obtain ⟨-, rfl⟩ := hnone
    have hblocks : ∀ row ∈ structures.flatMap structureRows, (row != macrosTag) = true := by
      intro row hrow
      refine bne_iff_ne.mpr ?_
      rintro rfl
      have hmem := List.mem_filter.mpr ⟨hrow, show tags.contains macrosTag = true by decide⟩
      rw [filter_tags_structures] at hmem
      obtain ⟨s, -, hmem⟩ := List.mem_flatMap.mp hmem
      revert hmem
      decide
    rw [List.nil_append, ← List.append_nil (structures.flatMap structureRows),
      List.dropWhile_append_of_pos hblocks]
    rfl

/-- A row that a name heads is one of a macro of that name. -/
theorem startsWith_macroRow {m : Macro} {name : Text} :
    startsWith (macroRow m) (quoted name ++ [',']) = true ↔ m.name = name := by
  have hrow : macroRow m = quoted m.name ++ [','] ++ quoted m.value := by
    simp [macroRow, row_cons]
  rw [startsWith, List.isPrefixOf_iff_prefix, hrow]
  constructor
  · rintro ⟨behind, heq⟩
    rw [List.append_assoc, List.append_assoc] at heq
    exact (quoted_append_inj (by simp) (by simp) heq).1.symm
  · rintro rfl
    exact List.prefix_append _ _

theorem countP_macroRow (h : (macros.map Macro.name).Nodup) {m : Macro} (hm : m ∈ macros) :
    (macros.map macroRow).countP (startsWith · (quoted m.name ++ [','])) = 1 := by
  have hcount := List.count_eq_one_of_mem h (List.mem_map_of_mem hm)
  rw [List.count, List.countP_map] at hcount
  rw [List.countP_map, ← hcount]
  refine List.countP_congr fun other _ => ?_
  simp [startsWith_macroRow]

end Sheet
end StructTables

import StructTables.Proofs.Sheet.Row
import StructTables.Proofs.Text.Trim

/-! # The layout of a sheet

A blank row ends the header of a sheet, its macros and each of its structures, and no other row behind
the inputs is blank. So a sheet tells what it was made of; and the last blank row, which it is written
without, can be put back. -/

namespace StructTables.Sheet
open Text

/-! ## Rows ahead of a blank row -/

theorem takeWhile_append_blank {block : List Text} (h : [] ∉ block) (rest : List Text) :
    (block ++ [] :: rest).takeWhile (! ·.isEmpty) = block := by
  have hkeep : ∀ row ∈ block, (!row.isEmpty) = true := by
    intro row hrow
    cases row with
    | nil => exact absurd hrow h
    | cons c r => rfl
  rw [List.takeWhile_append_of_pos hkeep, List.takeWhile_cons_of_neg (by simp), List.append_nil]

theorem append_blank_inj {block other rest more : List Text} (hblock : [] ∉ block)
    (hother : [] ∉ other) (h : block ++ [] :: rest = other ++ [] :: more) :
    block = other ∧ rest = more := by
  have hsame : block = other := by
    rw [← takeWhile_append_blank hblock rest, h, takeWhile_append_blank hother more]
  subst hsame
  exact ⟨rfl, (List.cons.inj (List.append_cancel_left h)).2⟩

theorem nil_not_mem_map {α : Type} {f : α → Text} (h : ∀ x, f x ≠ []) (xs : List α) :
    [] ∉ xs.map f := by
  intro hmem
  obtain ⟨x, -, hx⟩ := List.mem_map.mp hmem
  exact h x hx

/-! ## Sections -/

theorem header_append_inj {header other : Header} {rest more : List Text}
    (h : header.rows ++ rest = other.rows ++ more) : header = other ∧ rest = more := by
  have hnonblank : ∀ inputs : List Text, [] ∉ inputs.map ("#   ".toList ++ ·) :=
    nil_not_mem_map (by simp)
  simp only [Header.rows, List.cons_append, List.nil_append, List.append_assoc, List.cons.injEq,
    true_and] at h
  obtain ⟨hinputs, hbehind⟩ := append_blank_inj (hnonblank _) (hnonblank _) h
  simp only [List.cons.injEq, true_and, List.append_cancel_left_eq] at hbehind
  obtain ⟨htitle, hgroup, hrest⟩ := hbehind
  rw [hgroup, List.append_cancel_left_eq, List.cons.injEq, List.append_cancel_right_eq] at htitle
  have hinputs : header.inputs = other.inputs :=
    (List.map_inj_right fun _ _ => List.append_cancel_left).mp hinputs
  obtain ⟨group, kind, inputs⟩ := header
  rw [Header.mk.injEq]
  exact ⟨⟨hgroup, htitle.2, hinputs⟩, hrest⟩

theorem macroRow_inj {m other : Macro} (h : macroRow m = macroRow other) : m = other := by
  have hfields := row_inj.mp h
  cases m
  cases other
  simpa using hfields

theorem memberRow_inj {m other : Member} (h : memberRow m = memberRow other) : m = other := by
  have hfields := row_inj.mp h
  cases m
  cases other
  simpa using hfields

theorem row_cons_ne_nil (field : Text) (more : List Text) : row (field :: more) ≠ [] := by
  simp [row_cons, quoted_eq]

theorem macroRows_append_inj {macros others : List Macro} {rest more : List Text}
    (h : macroRows macros ++ rest = macroRows others ++ more) : macros = others ∧ rest = more := by
  have hnonblank : ∀ macros : List Macro, [] ∉ macros.map macroRow :=
    nil_not_mem_map fun _ => row_cons_ne_nil _ _
  simp only [macroRows, List.cons_append, List.append_assoc, List.cons.injEq, true_and,
    List.nil_append] at h
  obtain ⟨hmacros, hrest⟩ := append_blank_inj (hnonblank _) (hnonblank _) h
  exact ⟨(List.map_inj_right fun _ _ => macroRow_inj).mp hmacros, hrest⟩

theorem structureRows_append_inj {s other : Structure} {rest more : List Text}
    (h : structureRows s ++ rest = structureRows other ++ more) :
    (s.name, s.members) = (other.name, other.members) ∧ rest = more := by
  have hnonblank : ∀ members : List Member, [] ∉ members.map memberRow :=
    nil_not_mem_map fun _ => row_cons_ne_nil _ _
  simp only [structureRows, List.cons_append, List.append_assoc, List.cons.injEq, true_and,
    List.nil_append] at h
  obtain ⟨hname, hmembers, hrest⟩ := h.imp_right (append_blank_inj (hnonblank _) (hnonblank _))
  rw [row_inj, List.cons.injEq] at hname
  exact ⟨Prod.ext hname.1 ((List.map_inj_right fun _ _ => memberRow_inj).mp hmembers), hrest⟩

/-- The form of a structure is the one thing that its rows do not tell. -/
theorem flatMap_structureRows_eq_iff {structures others : List Structure} :
    structures.flatMap structureRows = others.flatMap structureRows ↔
      structures.map (fun s => (s.name, s.members)) =
        others.map fun s => (s.name, s.members) := by
  have hrows : ∀ structures : List Structure, structures.flatMap structureRows =
      (structures.map fun s => (s.name, s.members)).flatMap fun (name, members) =>
        structureRows ⟨name, .tagged, members⟩ := by
    intro structures
    rw [List.flatMap_map]
    rfl
  refine ⟨fun h => ?_, fun h => by rw [hrows, hrows others, h]⟩
  induction structures generalizing others with
  | nil =>
    cases others with
    | nil => rfl
    | cons other others => simp [structureRows] at h
  | cons s structures ih =>
    cases others with
    | nil => simp [structureRows] at h
    | cons other others =>
      rw [List.flatMap_cons, List.flatMap_cons] at h
      obtain ⟨hsame, hmore⟩ := structureRows_append_inj h
      rw [List.map_cons, List.map_cons, hsame, ih hmore]

/-! ## The whole sheet -/

/-- The rows of a sheet together with the blank row that ends its last section. -/
def sections (header : Header) (macros : List Macro) (structures : List Structure)
    (alwaysMacroSection : Bool) : List Text :=
  header.rows ++ (if alwaysMacroSection || !macros.isEmpty then macroRows macros else []) ++
    structures.flatMap structureRows

theorem macroSection_append_inj {macros others : List Macro} {structures structures' : List Structure}
    {always : Bool}
    (h : (if always || !macros.isEmpty then macroRows macros else []) ++
        structures.flatMap structureRows =
      (if always || !others.isEmpty then macroRows others else []) ++
        structures'.flatMap structureRows) :
    macros = others ∧ structures.flatMap structureRows = structures'.flatMap structureRows := by
  -- the tag of the macros begins no structure
  have htag : ∀ (macros : List Macro) (structures structures' : List Structure),
      macroRows macros ++ structures.flatMap structureRows ≠
        structures'.flatMap structureRows := by
    intro macros structures structures' heq
    cases structures' with
    | nil => simp [macroRows] at heq
    | cons s more =>
      simp only [macroRows, structureRows, List.flatMap_cons, List.cons_append,
        List.cons.injEq] at heq
      exact absurd heq.1 (by decide)
  split at h
  case isTrue =>
    split at h
    case isTrue => exact macroRows_append_inj h
    case isFalse => exact absurd h (htag _ _ _)
  case isFalse hnone =>
    split at h
    case isTrue => exact absurd h.symm (htag _ _ _)
    case isFalse hnone' =>
      simp only [Bool.or_eq_true, Bool.not_eq_true', not_or, Bool.not_eq_false,
        List.isEmpty_iff] at hnone hnone'
      rw [hnone.2, hnone'.2]
      exact ⟨rfl, h⟩

theorem sections_inj {header header' : Header} {macros macros' : List Macro}
    {structures structures' : List Structure} {always : Bool}
    (h : sections header macros structures always = sections header' macros' structures' always) :
    header = header' ∧ macros = macros' ∧
      structures.map (fun s => (s.name, s.members)) =
        structures'.map fun s => (s.name, s.members) := by
  rw [sections, sections, List.append_assoc, List.append_assoc] at h
  obtain ⟨hheader, hbehind⟩ := header_append_inj h
  obtain ⟨hmacros, hstructures⟩ := macroSection_append_inj hbehind
  exact ⟨hheader, hmacros, flatMap_structureRows_eq_iff.mp hstructures⟩

/-! ## The last row -/

/-- Rows that end in a row with text and then a blank one. -/
def EndsBlank (rows : List Text) : Prop :=
  ∃ block last, rows = block ++ [last, []] ∧ ∃ c ∈ last.getLast?, isBlank c = false

theorem EndsBlank.append_left {rows : List Text} (h : EndsBlank rows) (ahead : List Text) :
    EndsBlank (ahead ++ rows) := by
  obtain ⟨block, last, rfl, hlast⟩ := h
  exact ⟨ahead ++ block, last, by rw [List.append_assoc], hlast⟩

theorem endsBlank_of_forall {block : List Text} (hne : block ≠ [])
    (h : ∀ line ∈ block, ∃ c ∈ line.getLast?, isBlank c = false) : EndsBlank (block ++ [[]]) := by
  refine ⟨block.dropLast, block.getLast hne, ?_, h _ (List.getLast_mem hne)⟩
  conv => lhs; rw [← List.dropLast_concat_getLast hne]
  simp

theorem getLast?_row (field : Text) (more : List Text) :
    (row (field :: more)).getLast? = some '"' := by
  have hquoted : ∀ field, quoted field = ('"' :: doubled field) ++ ['"'] := fun _ => rfl
  rcases List.eq_nil_or_concat more with rfl | ⟨init, last, rfl⟩
  · rw [row_cons, List.flatMap_nil, List.append_nil, hquoted, List.getLast?_concat]
  · rw [row_cons, List.concat_eq_append, List.flatMap_append, List.flatMap_singleton, hquoted last,
      ← List.cons_append, ← List.append_assoc, ← List.append_assoc, List.getLast?_concat]

theorem exists_getLast?_row (field : Text) (more : List Text) :
    ∃ c ∈ (row (field :: more)).getLast?, isBlank c = false :=
  ⟨'"', getLast?_row field more, rfl⟩

theorem endsBlank_header (header : Header) : EndsBlank header.rows :=
  EndsBlank.append_left ⟨[_, _, _], _, rfl, 't', by decide, rfl⟩ _

theorem endsBlank_macroRows (macros : List Macro) : EndsBlank (macroRows macros) := by
  refine endsBlank_of_forall (List.cons_ne_nil _ _) ?_
  refine List.forall_mem_cons.mpr ⟨⟨'_', by decide, rfl⟩, fun line hline => ?_⟩
  obtain ⟨m, -, rfl⟩ := List.mem_map.mp hline
  exact exists_getLast?_row _ _

theorem endsBlank_structureRows (s : Structure) : EndsBlank (structureRows s) := by
  refine endsBlank_of_forall (by simp) fun line hline => ?_
  rcases List.mem_append.mp hline with hhead | hmember
  · have hcases : line = nameTag ∨ line = row [s.name, "Structure".toList] ∨ line = columnTag ∨
        line = row columns := by simpa using hhead
    rcases hcases with rfl | rfl | rfl | rfl
    · exact ⟨'_', by decide, rfl⟩
    · exact exists_getLast?_row _ _
    · exact ⟨'_', by decide, rfl⟩
    · exact exists_getLast?_row _ _
  · obtain ⟨m, -, rfl⟩ := List.mem_map.mp hmember
    exact exists_getLast?_row _ _

theorem endsBlank_sections (header : Header) (macros : List Macro) (structures : List Structure)
    (always : Bool) : EndsBlank (sections header macros structures always) := by
  have hahead : EndsBlank
      (header.rows ++ if always || !macros.isEmpty then macroRows macros else []) := by
    split
    · exact (endsBlank_macroRows macros).append_left _
    · rw [List.append_nil]
      exact endsBlank_header header
  rcases List.eq_nil_or_concat structures with rfl | ⟨more, s, rfl⟩
  · rwa [sections, List.flatMap_nil, List.append_nil]
  · rw [sections, List.concat_eq_append, List.flatMap_append, List.flatMap_singleton,
      ← List.append_assoc]
    exact (endsBlank_structureRows s).append_left _

theorem withoutTrailingBlanks_append {block : List Text} {last : Text} (h : last ≠ []) :
    withoutTrailingBlanks (block ++ [last, []]) = block ++ [last] := by
  have hlast : last.isEmpty = false := by simpa using h
  simp [withoutTrailingBlanks, hlast]

/-- The rows of a sheet are its sections without their last blank row. -/
theorem exists_rows_eq (header : Header) (macros : List Macro) (structures : List Structure)
    (always : Bool) :
    ∃ block last, (∃ c ∈ last.getLast?, isBlank c = false) ∧
      rows header macros structures always = block ++ [last] ∧
      sections header macros structures always = block ++ [last, []] := by
  obtain ⟨block, last, hsections, hlast⟩ := endsBlank_sections header macros structures always
  have hne : last ≠ [] := by
    rintro rfl
    obtain ⟨c, hc, -⟩ := hlast
    cases hc
  refine ⟨block, last, hlast, ?_, hsections⟩
  rw [← withoutTrailingBlanks_append hne, ← hsections]
  rfl

theorem rows_append_blank (header : Header) (macros : List Macro) (structures : List Structure)
    (always : Bool) :
    rows header macros structures always ++ [[]] = sections header macros structures always := by
  obtain ⟨block, last, -, hrows, hsections⟩ := exists_rows_eq header macros structures always
  rw [hrows, hsections, List.append_assoc]
  rfl

theorem endsWith_render {block : List Text} {last : Text}
    (h : ∃ c ∈ last.getLast?, isBlank c = false) :
    endsWith (render (block ++ [last])) ['\n', '\n'] = false := by
  obtain ⟨c, hc, hblank⟩ := h
  obtain ⟨line, rfl⟩ := List.getLast?_eq_some_iff.mp hc
  have hne : ('\n' == c) = false := by
    refine beq_eq_false_iff_ne.mpr ?_
    rintro rfl
    cases hblank
  simp [render, endsWith, List.isSuffixOf, List.isPrefixOf, hne]

/-- A sheet tells the header, the macros and the names and members of the structures that it was made
of, whatever their texts are; and neither its last row nor the last line of its text is blank. -/
theorem rows_eq_iff (header header' : Header) (macros macros' : List Macro)
    (structures structures' : List Structure) (always : Bool) :
    (rows header macros structures always = rows header' macros' structures' always ↔
      header = header' ∧ macros = macros' ∧
        structures.map (fun s => (s.name, s.members)) =
          structures'.map fun s => (s.name, s.members)) ∧
      (∃ last ∈ (rows header macros structures always).getLast?, trim last ≠ []) ∧
      endsWith (render (rows header macros structures always)) ['\n', '\n'] = false := by
  refine ⟨⟨fun h => ?_, ?_⟩, ?_⟩
  · have hsections : sections header macros structures always =
        sections header' macros' structures' always := by
      rw [← rows_append_blank, ← rows_append_blank, h]
    exact sections_inj hsections
  · rintro ⟨rfl, rfl, hcontents⟩
    rw [rows, rows, flatMap_structureRows_eq_iff.mpr hcontents]
  · obtain ⟨block, last, hlast, hrows, -⟩ := exists_rows_eq header macros structures always
    rw [hrows]
    refine ⟨⟨last, List.getLast?_concat, fun htrim => ?_⟩, endsWith_render hlast⟩
    obtain ⟨lead, trail, hsplit, hlead, htrail⟩ := exists_trim_append last
    obtain ⟨c, hc, hblank⟩ := hlast
    have hmem : c ∈ lead ++ trim last ++ trail := hsplit ▸ List.mem_of_mem_getLast? hc
    rw [htrim, List.append_nil] at hmem
    have hisBlank := (List.mem_append.mp hmem).elim (hlead c) (htrail c)
    rw [hblank] at hisBlank
    cases hisBlank

end StructTables.Sheet

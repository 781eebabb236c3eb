import Mathlib.Data.List.TakeWhile
import StructTables.Proofs.Canonical.Member
import StructTables.Proofs.Canonical.Outline
import StructTables.Proofs.Scan.Agreement

/-! # Scanning a canonical header

A scan of a canonical header finds the structures that it was written for, in order, warns of
nothing, and has a table of just the macros that their sizes name. -/

namespace StructTables.Canonical
open Text Outline

/-! ## Names -/

theorem afterPacking?_eq_none {t : Text} (h : ∀ c ∈ t, isBlank c = false) :
    afterPacking? t = none := by
  unfold afterPacking?
  split
  case isTrue => rfl
  case isFalse =>
    split
    case h_1 => rfl
    case h_2 c r hdrop =>
      have hc : c ∈ t := List.mem_of_mem_drop (hdrop ▸ List.mem_cons_self)
      rw [h c hc, if_neg Bool.false_ne_true]

theorem afterAttribute?_eq_none {t : Text} (h : '(' ∉ t) : afterAttribute? t = none := by
  unfold afterAttribute?
  split
  case isTrue => rfl
  case isFalse =>
    split
    case h_1 r hrest =>
      have hc : '(' ∈ trimStart (t.drop attributeKeyword.length) := hrest ▸ List.mem_cons_self
      exact absurd (List.mem_of_mem_drop ((List.dropWhile_sublist _).subset hc)) h
    case h_2 => rfl

/-- The closing line of a typedef names it, whatever the name looks like. -/
theorem typedefName_closingLine (name : Identifier) :
    typedefName ('}' :: ' ' :: name.1 ++ [';']) = name.1 := by
  have hno : ∀ {c : Char}, Macro.isIdentifierCharacter c = false → c ∉ name.1 :=
    Macro.not_mem_of_all (all_identifier name)
  have hblank : ∀ c ∈ name.1 ++ [';'], isBlank c = false := by
    intro c hc
    rcases List.mem_append.mp hc with hc | hc
    · exact Macro.isBlank_of_mem (all_identifier name) hc
    · rw [List.mem_singleton.mp hc]
      rfl
  have hstart : trimStart (('}' :: ' ' :: name.1 ++ [';']).drop 1) = name.1 ++ [';'] := by
    show trimStart (' ' :: (name.1 ++ [';'])) = _
    rw [trimStart, List.dropWhile_cons_of_pos rfl]
    exact trimStart_eq_self fun c hc => hblank c (List.mem_of_mem_head? hc)
  have hpacking : withoutPacking (name.1 ++ [';']) = name.1 ++ [';'] := by
    rw [withoutPacking, afterPacking?_eq_none hblank,
      afterAttribute?_eq_none (by simpa using hno (c := '(') rfl)]
    rfl
  have hterminator : withoutTerminator (name.1 ++ [';']) = name.1 := by
    rw [withoutTerminator, cutFirst?_append (hno rfl)]
    simp only [List.dropWhile_nil, List.append_nil]
    exact trimEnd_eq_self fun c hc =>
      Macro.isBlank_of_mem (all_identifier name) (List.mem_of_mem_getLast? hc)
  have hname : trim (name.1.takeWhile (· != ',')) = name.1 := by
    rw [List.takeWhile_eq_self_iff.mpr fun c hc => bne_iff_ne.mpr fun heq => hno rfl (heq ▸ hc)]
    exact Macro.trim_of_all (all_identifier name)
  simp only [typedefName, hstart, hpacking, hterminator, hname, name.2, if_pos]

theorem closedName_lines (d : Definition) (number : Nat) :
    Scan.closedName ⟨d.form, d.openingName, number⟩ d.closingLine = d.name.1 := by
  cases h : d.form with
  | tagged => simp only [Scan.closedName, Definition.openingName, h]
  | typedef =>
    rw [Definition.closingLine_of_typedef h]
    exact typedefName_closingLine d.name

/-! ## Structures -/

variable {scan : Scan}

theorem addRegion_lines (h : scan.collector.definitions = []) (d : Definition) (number : Nat) :
    scan.addRegion (.closed ⟨d.form, d.openingName, number⟩ (d.fields.map Field.line)
        d.closingLine) =
      { scan with
        collector := scan.collector.registerAll d.sizeNames
        structures := scan.structures ++ [d.structure]
        log := scan.log ++ [.extracted d.name.1 d.fields.length] } := by
  have hname : (Scan.closedName ⟨d.form, d.openingName, number⟩ d.closingLine).isEmpty = false := by
    rw [closedName_lines]
    simpa using identifier_ne_nil d.name
  have hread : Body.read (d.fields.map Field.line) = d.fields.map Field.entry :=
    readFrom_fields d.fields []
  have hassembly := foldl_add_fields { name := d.name.1, form := d.form } rfl d.fields
    scan.collector [] h (by simpa using d.distinct)
  rw [Scan.addRegion, Scan.addClosed_of_named hname]
  simp only [Scan.readClosed, Structure.addBody, closedName_lines, hread, Body.assemble, hassembly,
    List.nil_append, List.append_nil, List.length_map, Definition.sizeNames, Definition.structure]

/-- What a scan adds for the lines of a header. -/
theorem foldl_addRegion_lines (header : List Definition) (number : Nat) (scan : Scan)
    (h : scan.collector.definitions = []) :
    (regionsFrom number .outside (header.flatMap Definition.lines)).foldl Scan.addRegion scan =
      { scan with
        collector := scan.collector.registerAll (header.flatMap Definition.sizeNames)
        structures := scan.structures ++ header.map Definition.structure
        log := scan.log ++ header.map fun d => .extracted d.name.1 d.fields.length } := by
  induction header generalizing scan number with
  | nil => simp [regionsFrom, Macro.Collector.registerAll, Macro.Table.registerAll]
  | cons d more ih =>
    rw [List.flatMap_cons, regionsFrom_lines, List.foldl_cons, addRegion_lines h, ih]
    · simp [Macro.Collector.registerAll_append]
    · exact h

/-- A canonical header comes back from its text: its structures in order, no warning, and a table in
which every macro that a size names stands once, in order of appearance. -/
theorem ofSources_write (group : Text) (options : Options) (header : List Definition) :
    let scan := Scan.ofSources group options [write header]
    scan.structures = header.map Definition.structure ∧ scan.warnings = [] ∧
      scan.table = table header := by
  intro scan
  have hdefinitions : (Scan.start group options).collector.definitions = [] := by
    unfold Scan.start
    cases options.formulaMacros <;> rfl
  have htable : (Scan.start group options).collector.table = {} := by
    unfold Scan.start
    cases options.formulaMacros <;> rfl
  have hscan : scan = (regionsFrom 1 .outside (header.flatMap Definition.lines)).foldl
      Scan.addRegion (Scan.start group options) := by
    show (Scan.start group options).addSource (write header) = _
    rw [Scan.addSource, logicalLines_write, Scan.addLines, regions, brokenLines_lines]
  rw [hscan, foldl_addRegion_lines header 1 _ hdefinitions]
  refine ⟨rfl, ?_, ?_⟩
  · simp [Scan.warnings, StructTables.warnings, Scan.start, Event.warning?]
  · show (Scan.start group options).collector.table.registerAll _ = _
    rw [htable]
    exact Macro.registerAll_eraseDups [] _

/-- The text that such a header is written as. -/
example :
    write [{
      form := .typedef
      name := ⟨"Frame".toList, rfl⟩
      fields := [{
        type := ⟨"uint8_t".toList, rfl⟩
        stars := 1
        name := ⟨"data".toList, rfl⟩
        extent := .array (.name ⟨"LENGTH".toList, rfl⟩) []
        remark := ⟨"what was read".toList, rfl, by decide⟩ }]
      distinct := by decide }] =
        "typedef struct \x7b\nuint8_t *data[LENGTH]; /* what was read */\n\x7d Frame;\n".toList := by
  decide

end StructTables.Canonical

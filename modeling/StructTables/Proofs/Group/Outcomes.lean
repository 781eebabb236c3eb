import StructTables.Conversion
import StructTables.Proofs.FileTree.Agreement

/-! # How a conversion ends

A conversion ends in one of five ways: an input is refused, the sheet is, the extract is, or all has
been written, with or without an extract. Each of them says what the tree is then. -/

namespace StructTables
open Text

namespace Group

/-- The conversion that the scan of all inputs comes to. -/
def conversion (group : Group) (scan : Scan) : Conversion :=
  .ofScan ⟨group.name, group.kind, group.inputs⟩ scan

/-- The paths that a conversion may write to. -/
def outputs (options : Options) (group : Group) : List Text :=
  group.output :: if options.exportJson then [Path.json group.output] else []

/-- The tree with the sheet of a conversion. -/
def withSheet (tree : FileTree) (location : Location) (conversion : Conversion) : FileTree :=
  tree.put location (encodeUtf8 conversion.sheet)

/-- The tree with the extract of a conversion. -/
def withExtract (tree : FileTree) (location : Location) (conversion : Conversion) : FileTree :=
  tree.put location (encodeUtf8 conversion.extract.render)

/-- The ways in which the conversion of a group may end. -/
inductive Converts (options : Options) (tree : FileTree) (group : Group) : Outcome → Prop where
  | unread {scan : Scan} {e : ConversionError}
      (scanned : scanInputs tree (Scan.start group.name options) group.inputs = (scan, some e)) :
      Converts options tree group ⟨tree, scan.log, .error e⟩
  | unwritten {scan : Scan} {refusal : Refusal}
      (scanned : scanInputs tree (Scan.start group.name options) group.inputs = (scan, none))
      (sheet : tree.target group.output = .error refusal) :
      Converts options tree group ⟨tree, scan.log, .error (.file group.output (.refused refusal))⟩
  | written {scan : Scan} {location : Location}
      (scanned : scanInputs tree (Scan.start group.name options) group.inputs = (scan, none))
      (sheet : tree.target group.output = .ok location)
      (alone : options.exportJson = false) :
      Converts options tree group
        ⟨withSheet tree location (group.conversion scan),
          scan.log ++ [convertedEvent group.output (group.conversion scan)],
          .ok (group.conversion scan)⟩
  | unexported {scan : Scan} {location : Location} {refusal : Refusal}
      (scanned : scanInputs tree (Scan.start group.name options) group.inputs = (scan, none))
      (sheet : tree.target group.output = .ok location)
      (exports : options.exportJson = true)
      (extract : (withSheet tree location (group.conversion scan)).target (Path.json group.output) =
        .error refusal) :
      Converts options tree group
        ⟨withSheet tree location (group.conversion scan), scan.log,
          .error (.file (Path.json group.output) (.refused refusal))⟩
  | exported {scan : Scan} {location place : Location}
      (scanned : scanInputs tree (Scan.start group.name options) group.inputs = (scan, none))
      (sheet : tree.target group.output = .ok location)
      (exports : options.exportJson = true)
      (extract : (withSheet tree location (group.conversion scan)).target (Path.json group.output) =
        .ok place) :
      Converts options tree group
        ⟨withExtract (withSheet tree location (group.conversion scan)) place (group.conversion scan),
          scan.log ++ [convertedEvent group.output (group.conversion scan)],
          .ok (group.conversion scan)⟩

variable {options : Options} {tree : FileTree} {group : Group}

theorem writeText_of_error {path : Text} {refusal : Refusal} (h : tree.target path = .error refusal)
    (content : Text) : writeText tree path content = .error (.file path (.refused refusal)) := by
  simp [writeText, FileTree.write, h, Except.map]

theorem writeText_of_ok {path : Text} {location : Location} (h : tree.target path = .ok location)
    (content : Text) : writeText tree path content = .ok (tree.put location (encodeUtf8 content)) := by
  simp [writeText, FileTree.write, h, Except.map]

theorem Converts.eq {outcome : Outcome} (h : Converts options tree group outcome) :
    group.convert options tree = outcome := by
  cases h with
  | unread scanned => simp [convert, scanned]
  | unwritten scanned sheet =>
    simp [convert, scanned, writeConversion, writeText_of_error sheet]
  | written scanned sheet alone =>
    simp [convert, scanned, writeConversion, writeText_of_ok sheet, alone, withSheet, conversion]
  | @unexported scan location _ scanned sheet exports extract =>
    have hextract := writeText_of_error extract (group.conversion scan).extract.render
    simp only [withSheet, conversion] at hextract
    simp [convert, scanned, writeConversion, writeText_of_ok sheet, exports, hextract, withSheet,
      conversion]
  | @exported scan location place scanned sheet exports extract =>
    have hextract := writeText_of_ok extract (group.conversion scan).extract.render
    simp only [withSheet, conversion] at hextract
    simp [convert, scanned, writeConversion, writeText_of_ok sheet, exports, hextract, withSheet,
      withExtract, conversion]

theorem converts (options : Options) (tree : FileTree) (group : Group) :
    Converts options tree group (group.convert options tree) := by
  suffices hends : ∃ outcome, Converts options tree group outcome by
    obtain ⟨outcome, h⟩ := hends
    exact h.eq ▸ h
  rcases hscan : scanInputs tree (Scan.start group.name options) group.inputs with ⟨scan, _ | e⟩
  · cases hsheet : tree.target group.output with
    | error refusal => exact ⟨_, .unwritten hscan hsheet⟩
    | ok location =>
      cases hexport : options.exportJson with
      | false => exact ⟨_, .written hscan hsheet hexport⟩
      | true =>
        cases hextract : (withSheet tree location (group.conversion scan)).target
            (Path.json group.output) with
        | error refusal => exact ⟨_, .unexported hscan hsheet hexport hextract⟩
        | ok place => exact ⟨_, .exported hscan hsheet hexport hextract⟩
  · exact ⟨_, .unread hscan⟩

/-! ## What a conversion leaves as it is -/

/-- The locations that a conversion may write to. -/
def places (options : Options) (tree : FileTree) (group : Group) : List Location :=
  tree.places (group.outputs options)

theorem places_of_current {other : FileTree} (h : other.current = tree.current) (group : Group) :
    group.places options other = group.places options tree :=
  FileTree.places_congr h _

theorem mem_places_sheet {location : Location} (h : tree.target group.output = .ok location) :
    location ∈ group.places options tree :=
  FileTree.mem_places_of_target List.mem_cons_self h

theorem mem_places_extract {place : Location} (hexport : options.exportJson = true)
    (h : tree.target (Path.json group.output) = .ok place) : place ∈ group.places options tree :=
  FileTree.mem_places_of_target (by simp [outputs, hexport]) h

theorem Converts.current {outcome : Outcome} (h : Converts options tree group outcome) :
    outcome.tree.current = tree.current := by
  cases h <;> rfl

/-- A conversion changes nothing but its outputs. -/
theorem Converts.node?_eq {outcome : Outcome} (h : Converts options tree group outcome)
    {location : Location} (hnone : location ∉ group.places options tree) :
    outcome.tree.node? location = tree.node? location := by
  have hne : ∀ {place}, place ∈ group.places options tree → location ≠ place := by
    rintro place hplace rfl
    exact hnone hplace
  cases h with
  | unread => rfl
  | unwritten => rfl
  | written _ sheet => exact FileTree.node?_put_of_ne (hne (mem_places_sheet sheet)) _ _
  | unexported _ sheet => exact FileTree.node?_put_of_ne (hne (mem_places_sheet sheet)) _ _
  | exported _ sheet exports extract =>
    have hplace := mem_places_extract exports extract
    exact (FileTree.node?_put_of_ne (hne hplace) _ _).trans
      (FileTree.node?_put_of_ne (hne (mem_places_sheet sheet)) _ _)

/-! ## Failures -/

/-- Scanning ends at an input that is there and cannot be read. -/
theorem refused_of_scanInputs {inputs : List Text} {scan last : Scan} {e : ConversionError}
    (h : scanInputs tree scan inputs = (last, some e)) :
    ∃ input ∈ inputs, ∃ refusal, tree.pathExists input = true ∧ tree.read input = .error refusal ∧
      e = .file input (.refused refusal) := by
  induction inputs generalizing scan with
  | nil => cases h
  | cons input more ih =>
    rw [scanInputs] at h
    split at h
    case h_1 fault hinput =>
      cases h
      unfold scanInput at hinput
      split at hinput
      case isTrue => cases hinput
      case isFalse hexists =>
        split at hinput
        case h_1 refusal hread =>
          refine ⟨input, List.mem_cons_self, refusal, by simpa using hexists, hread, ?_⟩
          exact (Except.error.inj hinput).symm
        case h_2 => cases hinput
    case h_2 =>
      obtain ⟨other, hmem, hrefused⟩ := ih h
      exact ⟨other, List.mem_cons_of_mem _ hmem, hrefused⟩

/-- A conversion that fails at an input or at its sheet leaves the tree as it was. One that fails at its
extract leaves its sheet, and all else as it was. -/
theorem convert_failed {e : ConversionError} (h : (group.convert options tree).result = .error e) :
    let after := (group.convert options tree).tree
    (∃ input ∈ group.inputs, ∃ refusal, tree.pathExists input = true ∧
        tree.read input = .error refusal ∧ e = .file input (.refused refusal) ∧ after = tree) ∨
      ∃ scan, scanInputs tree (Scan.start group.name options) group.inputs = (scan, none) ∧
        let sheet := encodeUtf8 (group.conversion scan).sheet
        let extract := encodeUtf8 (group.conversion scan).extract.render
        (∃ refusal, tree.write group.output sheet = .error refusal ∧
            e = .file group.output (.refused refusal) ∧ after = tree) ∨
          (options.exportJson = true ∧ tree.write group.output sheet = .ok after ∧
            (∃ refusal, after.write (Path.json group.output) extract = .error refusal ∧
              e = .file (Path.json group.output) (.refused refusal)) ∧
            after.read group.output = .ok sheet ∧
            ∀ location, tree.locate? group.output ≠ some location →
              after.node? location = tree.node? location) := by
  have hconverts := converts options tree group
  generalize group.convert options tree = outcome at h hconverts
  cases hconverts with
  | unread scanned =>
    obtain ⟨input, hmem, refusal, hexists, hread, rfl⟩ := refused_of_scanInputs scanned
    cases h
    exact .inl ⟨input, hmem, refusal, hexists, hread, rfl, rfl⟩
  | @unwritten scan refusal scanned sheet =>
    cases h
    refine .inr ⟨scan, scanned, .inl ⟨refusal, ?_, rfl, rfl⟩⟩
    simp [FileTree.write, sheet, Except.map]
  | @unexported scan location refusal scanned sheet exports extract =>
    cases h
    refine .inr ⟨scan, scanned, .inr ⟨exports, ?_, ⟨refusal, ?_, rfl⟩,
      (FileTree.holds_put sheet _).read, fun other hother => ?_⟩⟩
    · simp [FileTree.write, sheet, Except.map, withSheet]
    · simp [FileTree.write, extract, Except.map]
    · refine FileTree.node?_put_of_ne ?_ _ _
      rintro rfl
      exact hother (FileTree.locate?_of_target sheet)
  | written => cases h
  | exported => cases h

/-- With a directory where the extract would be, the conversion fails at the extract. What else there is
stays as it was. -/
theorem convert_failed_of_directory :
    let source := encodeUtf8 "struct A \x7b\nint a;\n\x7d;\n".toList
    let tree : FileTree :=
      ⟨[(["a.h".toList], .file source), (["out.csv.json".toList], .directory)], []⟩
    let group : Group := ⟨"G".toList, "telemetry".toList, "out.csv".toList, ["a.h".toList]⟩
    let outcome := group.convert { exportJson := true } tree
    outcome.result = .error (.file "out.csv.json".toList (.refused .isDirectory)) ∧
      outcome.tree.node? ["a.h".toList] = some (.file source) ∧
      outcome.tree.node? ["out.csv.json".toList] = some .directory := by
  intro source tree group outcome
  have hfailed : outcome.result = .error (.file "out.csv.json".toList (.refused .isDirectory)) := rfl
  refine ⟨hfailed, ?_⟩
  rcases convert_failed hfailed with ⟨input, hmem, refusal, -, -, heq, -⟩ |
    ⟨scan, -, ⟨refusal, -, heq, -⟩ | ⟨-, -, -, -, hframe⟩⟩
  · cases heq
    exact absurd hmem (by decide)
  · exact absurd (ConversionError.file.inj heq).1 (by decide)
  · exact ⟨hframe _ (by decide), hframe _ (by decide)⟩

/-- The sheet of a conversion that fails at its extract stays behind. -/
theorem convert_leaves_sheet :
    let tree : FileTree := ⟨[(["a.h".toList], .file []), (["out.csv.json".toList], .directory)], []⟩
    let group : Group := ⟨"G".toList, "telemetry".toList, "out.csv".toList, ["a.h".toList]⟩
    let outcome := group.convert { exportJson := true } tree
    outcome.result = .error (.file "out.csv.json".toList (.refused .isDirectory)) ∧
      tree.node? ["out.csv".toList] = none ∧ outcome.tree ≠ tree ∧
      outcome.tree.pathExists "out.csv".toList = true := by
  intro tree group outcome
  exact ⟨rfl, by decide, by decide +kernel, by decide +kernel⟩

end Group
end StructTables

import StructTables.Proofs.Group.Outcomes
import StructTables.Proofs.Scan.Warnings

/-! # Files as sources

A group is converted as the contents of those of its inputs that are there. Each of the others adds a
warning in its place, and is named in the header all the same. -/

namespace StructTables
open Text

namespace Scan

/-- Scans that have found the same, whatever they reported. -/
structure FindsAlike (a b : Scan) : Prop where
  options : a.options = b.options
  collector : a.collector = b.collector
  structures : a.structures = b.structures

theorem FindsAlike.refl (scan : Scan) : scan.FindsAlike scan := ⟨rfl, rfl, rfl⟩

variable {a b : Scan}

theorem FindsAlike.report (h : a.FindsAlike b) (event : Event) : (a.report event).FindsAlike b :=
  ⟨h.options, h.collector, h.structures⟩

theorem FindsAlike.addSource (h : a.FindsAlike b) (content : Text) :
    (a.addSource content).FindsAlike (b.addSource content) := by
  have hemptied : a.emptied = b.emptied := by rw [emptied, emptied, h.options, h.collector]
  rw [addSource_eq a, addSource_eq b, hemptied]
  exact ⟨rfl, rfl, congrArg (· ++ _) h.structures⟩

end Scan

theorem Conversion.ofScan_of_findsAlike {a b : Scan} (h : a.FindsAlike b) (header other : Sheet.Header) :
    ofScan header a =
      { ofScan other b with
        header := header
        rows := Sheet.rows header b.table.entries b.structures b.options.alwaysMacroSection
        log := a.log } := by
  have htable : a.table = b.table := congrArg Macro.Collector.table h.collector
  simp [ofScan, h.options, htable, h.structures]

namespace Group

variable {options : Options} {tree : FileTree} {group : Group} {input : Text} {scan : Scan}

/-! ## Inputs -/

/-- The source that an input gives: its name and its content. -/
def source? (tree : FileTree) (input : Text) : Option (Text × Text) :=
  match tree.read input with
  | .error _ => none
  | .ok bytes => some (input, decodeUtf8Lenient bytes)

/-- The sources that the inputs of a group give. -/
def sources (tree : FileTree) (group : Group) : List (Text × Text) :=
  group.inputs.filterMap (source? tree)

/-- What is warned of on account of an input. -/
def inputWarnings (options : Options) (tree : FileTree) (input : Text) : List Warning :=
  match source? tree input with
  | none => [.missingInput input]
  | some source => Scan.warningsOf options source.2

theorem source?_of_missing (h : tree.pathExists input = false) : source? tree input = none := by
  unfold FileTree.pathExists at h
  split at h
  case h_1 => cases h
  case h_2 refusal hfind => simp [source?, FileTree.read, hfind]

theorem scanInput_of_missing (h : tree.pathExists input = false) (scan : Scan) :
    scanInput tree scan input = .ok (scan.warn (.missingInput input)) := by
  simp [scanInput, h]

/-- An input that can be scanned is missing, or its content is scanned. -/
theorem scanInput_ok {next : Scan} (h : scanInput tree scan input = .ok next) :
    tree.pathExists input = false ∧ next = scan.warn (.missingInput input) ∨
      ∃ bytes, tree.pathExists input = true ∧ tree.read input = .ok bytes ∧
        next = (scan.report (.reading input bytes.length)).addSource (decodeUtf8Lenient bytes) := by
  cases hexists : tree.pathExists input with
  | false =>
    rw [scanInput_of_missing hexists] at h
    exact .inl ⟨rfl, (Except.ok.inj h).symm⟩
  | true =>
    rw [scanInput, hexists, Bool.not_true, if_neg Bool.false_ne_true] at h
    split at h
    case h_1 => cases h
    case h_2 bytes hread => exact .inr ⟨bytes, rfl, hread, (Except.ok.inj h).symm⟩

/-- A scan of inputs, beside one of the sources that they give. -/
structure Gathers (options : Options) (tree : FileTree) (inputs : List Text) (scan memory last : Scan) :
    Prop where
  present : (inputs.filterMap (source? tree)).map (·.1) = inputs.filter tree.pathExists
  found : last.FindsAlike (((inputs.filterMap (source? tree)).map (·.2)).foldl Scan.addSource memory)
  warnings : last.warnings = scan.warnings ++ inputs.flatMap (inputWarnings options tree)

section Gathers

variable {inputs : List Text} {memory last : Scan}

theorem Gathers.cons_missing (hmissing : tree.pathExists input = false)
    (h : Gathers options tree inputs (scan.warn (.missingInput input)) memory last) :
    Gathers options tree (input :: inputs) scan memory last := by
  have hsource := source?_of_missing hmissing
  refine ⟨?_, ?_, ?_⟩
  · rw [List.filterMap_cons_none hsource, List.filter_cons_of_neg (by simp [hmissing]), h.present]
  · rw [List.filterMap_cons_none hsource]
    exact h.found
  · rw [h.warnings, Scan.warn, Scan.warnings_report, List.flatMap_cons, List.append_assoc]
    simp [Event.warning?, inputWarnings, hsource]

theorem Gathers.cons_read {bytes : Bytes} (hexists : tree.pathExists input = true)
    (hread : tree.read input = .ok bytes) (hoptions : scan.options = options)
    (h : Gathers options tree inputs
      ((scan.report (.reading input bytes.length)).addSource (decodeUtf8Lenient bytes))
      (memory.addSource (decodeUtf8Lenient bytes)) last) :
    Gathers options tree (input :: inputs) scan memory last := by
  have hsource : source? tree input = some (input, decodeUtf8Lenient bytes) := by
    simp [source?, hread]
  refine ⟨?_, ?_, ?_⟩
  · rw [List.filterMap_cons_some hsource, List.filter_cons_of_pos hexists, List.map_cons, h.present]
  · rw [List.filterMap_cons_some hsource]
    exact h.found
  · rw [h.warnings, Scan.warnings_addSource, Scan.warnings_report, List.flatMap_cons,
      List.append_assoc]
    simp [Event.warning?, inputWarnings, hsource, Scan.report, hoptions]

theorem gathers (h : scanInputs tree scan inputs = (last, none)) (hoptions : scan.options = options)
    (halike : scan.FindsAlike memory) : Gathers options tree inputs scan memory last := by
  induction inputs generalizing scan memory with
  | nil =>
    cases h
    exact ⟨rfl, halike, (List.append_nil _).symm⟩
  | cons input more ih =>
    rw [scanInputs] at h
    split at h
    case h_1 => cases h
    case h_2 next hinput =>
      rcases scanInput_ok hinput with ⟨hmissing, rfl⟩ | ⟨bytes, hexists, hread, rfl⟩
      · exact (ih h hoptions (halike.report _)).cons_missing hmissing
      · exact (ih h ((Scan.options_addSource _ _).trans hoptions)
          ((halike.report _).addSource _)).cons_read hexists hread hoptions

end Gathers

/-! ## Files and sources -/

/-- A conversion that succeeds leaves its sheet and, if asked for, its extract. -/
theorem Converts.of_ok {outcome : Outcome} {conversion : Conversion}
    (h : Converts options tree group outcome) (hok : outcome.result = .ok conversion) :
    (∃ scan, scanInputs tree (Scan.start group.name options) group.inputs = (scan, none) ∧
        conversion = group.conversion scan) ∧
      outcome.tree.read group.output = .ok (encodeUtf8 conversion.sheet) ∧
      (options.exportJson = true →
        outcome.tree.read (Path.json group.output) = .ok (encodeUtf8 conversion.extract.render)) := by
  cases h with
  | unread => cases hok
  | unwritten => cases hok
  | unexported => cases hok
  | @written scan location scanned sheet alone =>
    cases hok
    exact ⟨⟨scan, scanned, rfl⟩, (FileTree.holds_put sheet _).read,
      fun hexport => absurd (alone.symm.trans hexport) Bool.false_ne_true⟩
  | @exported scan location place scanned sheet exports extract =>
    cases hok
    -- the extract is put beside the sheet
    have hne : location ≠ place := Ne.symm (FileTree.target_json_ne sheet extract)
    exact ⟨⟨scan, scanned, rfl⟩,
      ((FileTree.holds_put sheet _).put (FileTree.node?_of_target extract).2 hne _).read,
      fun _ => (FileTree.holds_put extract _).read⟩

/-- Converting files gives what converting the sources does that the inputs give: those of them that are
there, each with its content. The header lists all inputs, and each that is missing adds a warning
between those of the inputs around it. The sheet and the extract are what is in their files then, and
nothing else is changed. -/
theorem convert_eq_ofSources {conversion : Conversion}
    (h : (group.convert options tree).result = .ok conversion) :
    let after := (group.convert options tree).tree
    let memory := Conversion.ofSources group.name group.kind (group.sources tree) options
    let header : Sheet.Header := ⟨group.name, group.kind, group.inputs⟩
    let sheetUnder := fun header : Sheet.Header =>
      Sheet.rows header memory.macros memory.structures options.alwaysMacroSection
    let alone := fun source => (Conversion.ofSources group.name group.kind [source] options).warnings
    (group.sources tree).map (·.1) = group.inputs.filter tree.pathExists ∧
      conversion =
        { memory with header := header, rows := sheetUnder header, log := conversion.log } ∧
      memory.rows = sheetUnder memory.header ∧
      memory.warnings = (group.sources tree).flatMap alone ∧
      conversion.warnings = group.inputs.flatMap (fun input =>
        ((source? tree input).map alone).getD [.missingInput input]) ∧
      after.read group.output = .ok (encodeUtf8 conversion.sheet) ∧
      (options.exportJson = true →
        after.read (Path.json group.output) = .ok (encodeUtf8 conversion.extract.render)) ∧
      after.current = tree.current ∧
      ∀ location ∉ tree.places (group.outputs options), after.node? location = tree.node? location := by
  intro after memory header sheetUnder alone
  have hconverts := converts options tree group
  obtain ⟨⟨scan, hscan, hconversion⟩, hsheet, hextract⟩ := hconverts.of_ok h
  obtain ⟨hpresent, hfound, hwarnings⟩ := gathers hscan rfl (.refl _)
  have halone : ∀ source, alone source = Scan.warningsOf options source.2 :=
    fun source => Scan.warnings_ofSources_singleton group.name options source.2
  have hmemory := Scan.options_ofSources group.name options ((group.sources tree).map (·.2))
  refine ⟨hpresent, ?_, ?_, ?_, ?_, hsheet, hextract, hconverts.current,
    fun location => hconverts.node?_eq⟩
  · have hrows : sheetUnder header = Sheet.rows header memory.macros memory.structures _ :=
      congrArg (Sheet.rows _ _ _ ·.alwaysMacroSection) hmemory.symm
    rw [hconversion, hrows]
    exact Conversion.ofScan_of_findsAlike hfound header memory.header
  · exact congrArg (Sheet.rows _ _ _ ·.alwaysMacroSection) hmemory
  · rw [funext halone]
    exact (Scan.warnings_ofSources group.name options _).trans (List.flatMap_map _ _ _)
  · rw [hconversion]
    refine hwarnings.trans (congrArg (List.flatMap · group.inputs) (funext fun input => ?_))
    rw [inputWarnings, funext halone]
    cases source? tree input <;> rfl

/-- The warning of the input that is missing stands between those of the inputs around it. The
directory that the outputs are put into stays as it was. -/
theorem convert_eq_ofSources_of_missing :
    let content := fun member => encodeUtf8 ("struct A \x7b\n".toList ++ member ++ "\n\x7d;\n".toList)
    let tree : FileTree :=
      ⟨[(["a.h".toList], .file (content "x;".toList)), (["b.h".toList], .file (content "y;".toList)),
        (["out".toList], .directory)], []⟩
    let group : Group :=
      ⟨"G".toList, "telemetry".toList, "out/g.csv".toList, ["a.h".toList, "none.h".toList, "b.h".toList]⟩
    let options : Options := { exportJson := true }
    let outcome := group.convert options tree
    ∃ conversion, outcome.result = .ok conversion ∧
      conversion.structures.length = 2 ∧
      conversion.header.inputs = ["a.h".toList, "none.h".toList, "b.h".toList] ∧
      conversion.warnings =
        [.invalidMember "A".toList "x;".toList, .missingInput "none.h".toList,
          .invalidMember "A".toList "y;".toList] ∧
      outcome.tree.read "out/g.csv.json".toList = .ok (encodeUtf8 conversion.extract.render) ∧
      outcome.tree.node? ["out".toList] = some .directory := by
  intro content tree group options outcome
  cases hresult : outcome.result with
  | error e =>
    have hok : outcome.result.isOk = true := by decide +kernel
    rw [hresult] at hok
    cases hok
  | ok conversion =>
    obtain ⟨-, hconversion, -, -, hwarnings, -, hextract, -, hframe⟩ := convert_eq_ofSources hresult
    have hstructures : conversion.structures = (Scan.ofSources group.name options _).structures :=
      congrArg Conversion.structures hconversion
    refine ⟨conversion, rfl, ?_, congrArg (·.header.inputs) hconversion,
      hwarnings.trans (by decide +kernel), hextract rfl, hframe _ (by decide +kernel)⟩
    rw [hstructures]
    decide +kernel

end Group
end StructTables

import StructTables.Proofs.Body.Assembly
import StructTables.Proofs.Macro.Use
import StructTables.Proofs.Scan.Agreement

/-! # The table of a scan

The sizes of the members that a scan finds, each with the macros of its names between delimiters, are
what fills the table of the scan: the table holds all that they refer to, and nothing else. -/

namespace StructTables
open Text Macro

/-- What the steps of a run put out, one after the other. -/
def outputs {σ α β : Type} (step : σ → α → σ) (output : σ → α → List β) (s : σ) : List α → List β
  | [] => []
  | x :: more => output s x ++ outputs step output (step s x) more

theorem foldl_outputs {σ α β : Type} {step : σ → α → σ} {output : σ → α → List β}
    {Inv : σ → List β → Prop}
    (hstep : ∀ {s found}, Inv s found → ∀ x, Inv (step s x) (found ++ output s x)) (xs : List α)
    {s : σ} {found : List β} (h : Inv s found) :
    Inv (xs.foldl step s) (found ++ outputs step output s xs) := by
  induction xs generalizing s found with
  | nil => rwa [outputs, List.append_nil]
  | cons x more ih =>
    rw [outputs, ← List.append_assoc]
    exact ih (hstep h x)

/-- The sizes of a member as they are written out. -/
def Member.sizes (m : Member) : List Text := [m.arraySize, m.bitLength]

def Structure.sizes (s : Structure) : List Text := s.members.flatMap Member.sizes

/-! ## Bodies -/

namespace Body

/-- The sizes that the variable of an entry gives to the collector, unless its name is taken. -/
def entrySizings (owner : Structure) (assembly : Assembly) : Entry → List Sizing
  | .variable _ declarator _ =>
    if assembly.contains owner declarator.name then []
    else
      [⟨assembly.collector, declarator.arraySize⟩,
        ⟨(assembly.collector.collect declarator.arraySize).2, declarator.bitLength⟩]
  | .remark _ | .invalid _ => []

def sizings (owner : Structure) (collector : Collector) (entries : List Entry) : List Sizing :=
  outputs (Assembly.add owner) (entrySizings owner) { collector := collector } entries

/-- The sizings of a body, behind others from before, are those of the members that it adds. -/
structure Assembly.Sized (group : Option Text) (before : List Sizing) (assembly : Assembly)
    (found : List Sizing) : Prop where
  uses : Uses group assembly.collector (before ++ found)
  written : assembly.added.flatMap Member.sizes = found.map Sizing.written

variable {owner : Structure} {group : Option Text} {before found : List Sizing}

theorem Assembly.Sized.add {assembly : Assembly} (h : assembly.Sized group before found)
    (entry : Entry) :
    (assembly.add owner entry).Sized group before (found ++ entrySizings owner assembly entry) := by
  match entry with
  | .invalid source =>
    rw [entrySizings, List.append_nil]
    exact ⟨h.uses, h.written⟩
  | .remark text =>
    rw [entrySizings, List.append_nil]
    have hsizes := map_describeLast (f := Member.sizes) (fun _ => rfl) text assembly.added
    refine ⟨h.uses, ?_⟩
    rw [← h.written, List.flatMap_def, List.flatMap_def, ← hsizes]
    rfl
  | .variable dataType declarator description =>
    cases hdup : assembly.contains owner declarator.name with
    | true =>
      rw [add_duplicate hdup, entrySizings, if_pos hdup, List.append_nil]
      exact ⟨h.uses, h.written⟩
    | false =>
      rw [add_variable hdup, entrySizings, if_neg (by simp [hdup])]
      refine ⟨?_, ?_⟩
      · have huses := (h.uses.collect declarator.arraySize).collect declarator.bitLength
        simpa [memberOf] using huses
      · simp [memberOf, h.written, Member.sizes, Sizing.written_eq]

theorem sized_assemble (owner : Structure) {collector : Collector}
    (h : Uses group collector before) (entries : List Entry) :
    (assemble owner collector entries).Sized group before (sizings owner collector entries) := by
  have hstart : Assembly.Sized group before { collector := collector } [] :=
    ⟨by rwa [List.append_nil], rfl⟩
  exact foldl_outputs Assembly.Sized.add entries hstart

end Body

/-! ## Scans -/

namespace Scan

/-- The sizes that a region gives to the collector: those of the members of its structure. -/
def regionSizings (scan : Scan) : Outline.Region → List Sizing
  | .closed opening body closing =>
    let name := closedName opening closing
    if name.isEmpty then []
    else Body.sizings { name := name, form := opening.form } scan.collector (Body.read body)
  | .outside _ | .abandoned _ | .unclosed _ => []

def sourceSizings (scan : Scan) (content : Text) : List Sizing :=
  outputs addRegion regionSizings scan
    (Outline.regions (Source.logicalLines scan.options.joinContinuations content))

/-- All the sizes that the sources of a group give to the collector, in order. -/
def sizings (group : Text) (options : Options) (sources : List Text) : List Sizing :=
  outputs addSource sourceSizings (start group options) sources

/-- The sizings of a scan are those of the members that it found. -/
structure Sized (group : Option Text) (scan : Scan) (found : List Sizing) : Prop where
  uses : Uses group scan.collector found
  written : scan.structures.flatMap Structure.sizes = found.map Sizing.written

variable {scan : Scan} {group : Option Text} {found : List Sizing}

theorem Sized.addOutside (h : scan.Sized group found) (line : Text) :
    (scan.addOutside line).Sized group found := by
  rcases addOutside_cases scan line with heq | heq | heq | ⟨name, value, -, -, heq⟩ <;> rw [heq]
  · exact h
  · exact ⟨h.uses, h.written⟩
  · exact ⟨h.uses, h.written⟩
  · exact ⟨h.uses.define name value, h.written⟩

theorem Sized.addRegion (h : scan.Sized group found) (region : Outline.Region) :
    (scan.addRegion region).Sized group (found ++ regionSizings scan region) := by
  cases region with
  | outside line =>
    rw [regionSizings, List.append_nil]
    exact h.addOutside line
  | abandoned opening =>
    rw [regionSizings, List.append_nil]
    exact ⟨h.uses, h.written⟩
  | unclosed opening =>
    rw [regionSizings, List.append_nil]
    exact ⟨h.uses, h.written⟩
  | closed opening body closing =>
    rw [Scan.addRegion, regionSizings]
    cases hname : (closedName opening closing).isEmpty with
    | true =>
      rw [addClosed_of_nameless hname, if_pos rfl, List.append_nil]
      exact ⟨h.uses, h.written⟩
    | false =>
      rw [addClosed_of_named hname, if_neg Bool.false_ne_true]
      obtain ⟨huses, hwritten⟩ :=
        Body.sized_assemble { name := closedName opening closing, form := opening.form } h.uses
          (Body.read body)
      refine ⟨huses, ?_⟩
      simp [readClosed, Structure.addBody, Structure.sizes, h.written, hwritten]

theorem Sized.addSource (h : scan.Sized group found) (content : Text) :
    (scan.addSource content).Sized group (found ++ sourceSizings scan content) :=
  foldl_outputs Sized.addRegion _ h

theorem sized_ofSources (group : Text) (options : Options) (sources : List Text) :
    (ofSources group options sources).Sized (start group options).collector.formulaGroup
      (sizings group options sources) := by
  have hstart : (start group options).Sized (start group options).collector.formulaGroup [] := by
    refine ⟨?_, rfl⟩
    unfold start
    split <;> exact uses_nothing _
  exact foldl_outputs Sized.addSource sources hstart

/-- The table of a scan is what its members need. Their sizes are those that the collector was given,
each with names between delimiters. These names are in the table, and so is every name in a value of
the table; and there is no entry that these names do not lead to. -/
theorem table_eq_reached (group : Text) (options : Options) (sources : List Text)
    (hsizes : ∀ sizing ∈ sizings group options sources, ∀ n ∈ sizing.mentions,
      ∀ number, n ≠ Collector.generatedName (trim group) number)
    (hdefinitions : ∀ d ∈ (ofSources group options sources).collector.definitions,
      ∀ n ∈ d.mentions, ∀ number, n ≠ Collector.generatedName (trim group) number) :
    let scan := ofSources group options sources
    scan.structures.flatMap Structure.sizes =
        (sizings group options sources).map Sizing.written ∧
      (∀ sizing ∈ sizings group options sources, sizing.names ⊆ scan.table.names) ∧
      (∀ entry ∈ scan.table.entries,
        isWritten entry.value ∧ Formula.mentions entry.value ⊆ scan.table.names) ∧
      ∀ n ∈ scan.table.names,
        ∃ sizing ∈ sizings group options sources, ∃ root ∈ sizing.names,
          scan.table.Reaches root n := by
  intro scan
  have hgroup : ∀ g, (start group options).collector.formulaGroup = some g → g = trim group := by
    intro g hg
    unfold start at hg
    split at hg
    · exact (Option.some.inj hg).symm
    · cases hg
  obtain ⟨huses, hwritten⟩ := sized_ofSources group options sources
  have haccounted :
      Accounted scan.collector ((sizings group options sources).flatMap Sizing.names) := by
    refine huses.accounted ?_ ?_
    · intro sizing hs n hn g number hg
      exact hgroup g hg ▸ hsizes sizing hs n hn number
    · intro d hd n hn g number hg
      exact hgroup g hg ▸ hdefinitions d hd n hn number
  refine ⟨hwritten, ?_, ?_, ?_⟩
  · intro sizing hs n hn
    exact haccounted.rooted n (List.mem_flatMap_of_mem hs hn)
  · intro entry he
    exact ⟨haccounted.written entry he, haccounted.closed entry he⟩
  · intro n hn
    obtain ⟨root, hroot, hr⟩ := haccounted.reached n hn
    obtain ⟨sizing, hs, hroot⟩ := List.mem_flatMap.mp hroot
    exact ⟨sizing, hs, root, hroot, hr⟩

/-- A formula and the definition behind it are in the table. The dropped duplicate is not, and no
more is the definition that nothing mentions. -/
theorem table_of_formula :
    let options : Options := { formulaMacros := true, captureDefines := true }
    let sources := ["#define A B\n#define C 4\nstruct S \x7b\nint x[A+1];\nint x[D];\n\x7d;\n".toList]
    let scan := ofSources "g".toList options sources
    scan.table.names = ["A".toList, "B".toList, "g_CCDD_MACRO_1".toList] ∧
      ∀ n ∈ scan.table.names,
        ∃ sizing ∈ sizings "g".toList options sources, ∃ root ∈ sizing.names,
          scan.table.Reaches root n := by
  intro options sources scan
  have hsizes : (sizings "g".toList options sources).flatMap Sizing.mentions = ["A".toList] := by
    decide +kernel
  have hdefinitions : scan.collector.definitions.flatMap Definition.mentions = ["B".toList] := by
    decide +kernel
  have hfree : ∀ n, n = "A".toList ∨ n = "B".toList →
      ∀ number, n ≠ Collector.generatedName (trim "g".toList) number := by
    intro n hn number heq
    have hhead := congrArg List.head? heq
    rcases hn with rfl | rfl <;> cases hhead
  refine ⟨by decide +kernel, (table_eq_reached "g".toList options sources ?_ ?_).2.2.2⟩
  · intro sizing hs n hn
    have hmem := hsizes ▸ List.mem_flatMap_of_mem hs hn
    exact hfree n (.inl (List.mem_singleton.mp hmem))
  · intro d hd n hn
    have hmem := hdefinitions ▸ List.mem_flatMap_of_mem hd hn
    exact hfree n (.inr (List.mem_singleton.mp hmem))

end Scan
end StructTables

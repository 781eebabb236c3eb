import StructTables.Proofs.Macro.Registering
import StructTables.Proofs.Scan.MacroUse

/-! # What a scan keeps of its collector

A scan gives its collector one size or definition after the other, and does nothing else to it. What
both of these keep, for the collector and the sizes that it was given, is true behind every scan. -/

namespace StructTables
open Text Macro

/-- What holds of a collector and the sizes that it was given, whatever it is given next. -/
structure Kept (P : Collector → List Sizing → Prop) : Prop where
  collect : ∀ {collector found}, P collector found → ∀ size,
    P (collector.collect size).2 (found ++ [⟨collector, size⟩])
  define : ∀ {collector found}, P collector found → ∀ {line name value},
    Scan.definition? line = some (name, value) → P (collector.define name value) found

namespace Kept

variable {P : Collector → List Sizing → Prop} {found : List Sizing}

/-! ## Steps -/

theorem add (hP : Kept P) {owner : Structure} {assembly : Body.Assembly}
    (h : P assembly.collector found) (entry : Body.Entry) :
    P (assembly.add owner entry).collector (found ++ Body.entrySizings owner assembly entry) := by
  match entry with
  | .invalid _ | .remark _ =>
    rw [Body.entrySizings, List.append_nil]
    exact h
  | .variable dataType declarator description =>
    cases hdup : assembly.contains owner declarator.name with
    | true =>
      rw [Body.add_duplicate hdup, Body.entrySizings, if_pos hdup, List.append_nil]
      exact h
    | false =>
      rw [Body.add_variable hdup, Body.entrySizings, if_neg (by simp [hdup])]
      have hboth := hP.collect (hP.collect h declarator.arraySize) declarator.bitLength
      rwa [List.append_assoc] at hboth

theorem addRegion (hP : Kept P) {scan : Scan} (h : P scan.collector found)
    (region : Outline.Region) :
    P (scan.addRegion region).collector (found ++ scan.regionSizings region) := by
  cases region with
  | outside line =>
    rw [Scan.regionSizings, List.append_nil, Scan.addRegion]
    rcases Scan.addOutside_cases scan line with heq | heq | heq | ⟨name, value, hd, -, heq⟩ <;>
      rw [heq]
    · exact h
    · exact h
    · exact h
    · exact hP.define h hd
  | abandoned opening =>
    rw [Scan.regionSizings, List.append_nil]
    exact h
  | unclosed opening =>
    rw [Scan.regionSizings, List.append_nil]
    exact h
  | closed opening body closing =>
    rw [Scan.addRegion, Scan.regionSizings]
    cases hname : (Scan.closedName opening closing).isEmpty with
    | true =>
      rw [Scan.addClosed_of_nameless hname, if_pos rfl, List.append_nil]
      exact h
    | false =>
      rw [Scan.addClosed_of_named hname, if_neg Bool.false_ne_true]
      exact @foldl_outputs _ _ _ _ _
        (fun (assembly : Body.Assembly) found => P assembly.collector found)
        (fun h => hP.add h) _ _ _ h

/-! ## Runs -/

theorem addLines (hP : Kept P) {scan : Scan} (h : P scan.collector found) (lines : List Text) :
    P (scan.addLines lines).collector
      (found ++ outputs Scan.addRegion Scan.regionSizings scan (Outline.regions lines)) :=
  @foldl_outputs _ _ _ _ _ (fun (scan : Scan) found => P scan.collector found)
    (fun h => hP.addRegion h) _ _ _ h

theorem ofSources (hP : Kept P) (group : Text) (options : Options) (sources : List Text)
    (hstart : P (Scan.start group options).collector []) :
    P (Scan.ofSources group options sources).collector (Scan.sizings group options sources) := by
  have hsource : ∀ {scan : Scan} {found}, P scan.collector found → ∀ content,
      P (scan.addSource content).collector (found ++ scan.sourceSizings content) :=
    fun h content => hP.addLines h (Source.logicalLines _ content)
  exact @foldl_outputs _ _ _ _ _ (fun (scan : Scan) found => P scan.collector found) hsource sources
    _ _ hstart

end Kept

namespace Scan

variable (group : Text) (options : Options) (sources : List Text)

theorem formulaGroup_start :
    (start group options).collector.formulaGroup =
      if options.formulaMacros then some (trim group) else none := by
  unfold start
  split <;> rfl

theorem table_start : (start group options).table = {} := by
  unfold start
  simp only [table]
  split <;> rfl

/-! ## The table of a scan -/

/-- The collector still makes macros of formulas, or does not, as it did at the start, and holds every
name that it wrote into a size. -/
structure Registers (group : Option Text) (collector : Collector) (found : List Sizing) : Prop where
  formulaGroup : collector.formulaGroup = group
  sizings : ∀ sizing ∈ found,
    sizing.collector.formulaGroup = group ∧ sizing.names ⊆ collector.table.names

theorem kept_registers (group : Option Text) : Kept (Registers group) where
  collect := by
    intro collector found h size
    refine ⟨(Collector.formulaGroup_collect collector size).trans h.formulaGroup, ?_⟩
    refine List.forall_mem_append.mpr ⟨fun sizing hs => ⟨(h.sizings sizing hs).1, ?_⟩,
      List.forall_mem_singleton.mpr ⟨h.formulaGroup, Sizing.names_subset_collect ⟨collector, size⟩⟩⟩
    exact List.Subset.trans (h.sizings sizing hs).2
      (List.map_subset _ (collector.entries_subset_collect size))
  define := by
    intro collector found h line name value _
    exact ⟨(collector.formulaGroup_define name value).trans h.formulaGroup,
      collector.table_define name value ▸ h.sizings⟩

theorem registers_ofSources :
    Registers (start group options).collector.formulaGroup (ofSources group options sources).collector
      (sizings group options sources) :=
  (kept_registers _).ofSources group options sources ⟨rfl, fun _ hs => nomatch hs⟩

variable {group options sources} {isName isValue : Text → Prop} {P : Table → Prop}

/-- What registering keeps is kept of a table, as long as the collector comes upon proper names and
values. -/
theorem kept_of_register
    (hregister : ∀ table name value, isName name → isValue value → P table →
      P (table.register name value)) :
    Kept fun collector found => collector.Admits isName isValue →
      (∀ sizing ∈ found, ∀ component ∈ sizing.components,
        sizing.collector.AdmitsComponent isName isValue component) → P collector.table where
  collect := by
    intro collector found h size hadmits hfound
    obtain ⟨hbefore, hsize⟩ := List.forall_mem_append.mp hfound
    have hold := Collector.admits_collect_iff.mp hadmits
    exact Collector.collect_keeps hregister hold (List.forall_mem_singleton.mp hsize)
      (h hold hbefore)
  define := by
    intro collector found h line name value _ hadmits hfound
    rw [Collector.table_define]
    exact h (hadmits.mono (collector.definitions_subset_define name value)
      (collector.formulaGroup_define name value).symm) hfound

theorem table_keeps
    (hregister : ∀ table name value, isName name → isValue value → P table →
      P (table.register name value)) (hstart : P {})
    (hadmits : (ofSources group options sources).collector.Admits isName isValue)
    (hsizings : ∀ sizing ∈ sizings group options sources, ∀ component ∈ sizing.components,
      sizing.collector.AdmitsComponent isName isValue component) :
    P (ofSources group options sources).table := by
  refine (kept_of_register hregister).ofSources group options sources (fun _ _ => ?_) hadmits hsizings
  rwa [← table_start group options] at hstart

theorem nodup_names_ofSources (group : Text) (options : Options) (sources : List Text) :
    (ofSources group options sources).table.names.Nodup :=
  table_keeps (P := fun table => table.names.Nodup)
    (fun table name value (_ : True) (_ : True) => table.nodup_register name value) List.nodup_nil
    ⟨trivial, fun _ _ => trivial, fun _ _ _ _ => trivial, fun _ _ _ => trivial⟩
    fun _ _ _ _ => ⟨fun _ _ => trivial, fun _ => trivial⟩

end Scan
end StructTables

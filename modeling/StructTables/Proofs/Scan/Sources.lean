import StructTables.Proofs.Scan.Collecting
import StructTables.Proofs.Scan.Parallel

/-! # Sources one behind the other

A scan carries nothing over from one source to the next but its macros, and these do not show in what it
finds as long as formulas stay. So the sources of a group may be scanned one by one. -/

namespace StructTables.Scan
open Text Macro

variable {group : Text} {options : Options}

theorem definitions_addRegion {scan : Scan} (h : scan.options.captureDefines = false)
    (region : Outline.Region) :
    (scan.addRegion region).collector.definitions = scan.collector.definitions := by
  cases region with
  | outside line =>
    rw [addRegion]
    rcases addOutside_cases scan line with heq | heq | heq | ⟨name, value, -, hcapture, -⟩
    · rw [heq]
    · rw [heq]
      rfl
    · rw [heq]
      rfl
    · exact absurd (h.symm.trans hcapture) Bool.false_ne_true
  | abandoned opening => rfl
  | unclosed opening => rfl
  | closed opening body closing =>
    rw [addRegion]
    cases hname : (closedName opening closing).isEmpty with
    | true =>
      rw [addClosed_of_nameless hname]
      rfl
    | false =>
      rw [addClosed_of_named hname]
      exact Body.definitions_assemble _ _ _

/-- Without the option nothing is captured. -/
theorem definitions_ofSources (h : options.captureDefines = false) (sources : List Text) :
    (ofSources group options sources).collector.definitions = [] := by
  refine (ofSources_keeps (P := fun scan => scan.options = options ∧ scan.collector.definitions = [])
    ?_ ⟨rfl, ?_⟩ sources).2
  · rintro scan ⟨hoptions, hnone⟩ region
    refine ⟨(scan.addRegion_keeps region).1.trans hoptions, ?_⟩
    rw [definitions_addRegion (by rw [hoptions, h]), hnone]
  · unfold start
    split <;> rfl

theorem formulaGroup_ofSources (h : options.formulaMacros = false) (sources : List Text) :
    (ofSources group options sources).collector.formulaGroup = none := by
  rw [(registers_ofSources group options sources).formulaGroup, formulaGroup_start, h,
    if_neg Bool.false_ne_true]

/-- More sources are scanned with the collector that the ones before them leave. -/
theorem ofSources_append_eq (sources more : List Text) :
    let first := ofSources group options sources
    ofSources group options (sources ++ more) =
      first.followedBy (more.foldl addSource first.emptied) := by
  intro first
  rw [show ofSources group options (sources ++ more) = more.foldl addSource first from
    List.foldl_append]
  exact foldl_eq addSource_eq more first

/-- They are scanned beside a scan that begins with them, if the collectors agree as far as that goes. -/
theorem parallel_emptied {R : Collector → Collector → Prop} {compared : Warning → Bool}
    {sources : List Text}
    (hR : R (ofSources group options sources).collector (start group options).collector) :
    Parallel R compared options options (ofSources group options sources).emptied
      (start group options) :=
  ⟨⟨options_ofSources group options sources, rfl⟩, hR, rfl, rfl⟩

/-- The structures and the warnings of two lists of sources are those of the first and then those of the
second, wherever the sources of the first end. The macros are those of the first, and then those of the
second that the first does not have, unless definitions are captured: then the second may come upon one
from the first. -/
theorem ofSources_append (group : Text) (options : Options) (hformulas : options.formulaMacros = false)
    (sources more : List Text) :
    let first := ofSources group options sources
    let second := ofSources group options more
    let both := ofSources group options (sources ++ more)
    both.structures = first.structures ++ second.structures ∧
      both.warnings = first.warnings ++ second.warnings ∧
      (options.captureDefines = false →
        both.table.entries = first.table.entries ++
          second.table.entries.filter fun m => !first.table.contains m.name) := by
  intro first second both
  have hboth : both = first.followedBy (more.foldl addSource first.emptied) :=
    ofSources_append_eq sources more
  have hplain : ∀ sources, (ofSources group options sources).collector.formulaGroup = none :=
    formulaGroup_ofSources hformulas
  have hwrites : first.collector.WritesLike (start group options).collector :=
    ⟨(hplain sources).trans (hplain []).symm, fun hsome => absurd (hplain sources) hsome⟩
  have hstart : Parallel Collector.WritesLike (fun _ => true) options options first.emptied
      (start group options) := parallel_emptied hwrites
  obtain ⟨-, -, hstructures, hwarnings⟩ :=
    hstart.foldl_addSource (comparable_writesLike rfl (.inl rfl)) more
  refine ⟨?_, ?_, fun hcapture => ?_⟩
  · rw [hboth, followedBy, hstructures]
    rfl
  · simp only [List.filter_eq_self.mpr fun _ _ => rfl] at hwarnings
    rw [hboth, warnings_followedBy, hwarnings]
    rfl
  · have hnever : ¬options.captureDefines = true := by simp [hcapture]
    have hnone : ∀ sources, (ofSources group options sources).collector.definitions = [] :=
      definitions_ofSources hcapture
    have hcontinues : Comparable (Collector.Continues first.table) (fun _ => true) options options :=
      { parallel := Collector.parallel_continues first.table
        joinContinuations := rfl
        warnUnhandledTypedefs := .inl rfl
        captureFirst := fun h => absurd h hnever
        captureSecond := fun h => absurd h hnever }
    have hstart : Parallel (Collector.Continues first.table) (fun _ => true) options options
        first.emptied (start group options) := by
      refine parallel_emptied ⟨⟨hplain sources, hplain []⟩, ⟨hnone sources, hnone []⟩, ?_⟩
      rw [show (start group options).collector.table = {} from table_start group options]
      exact (congrArg Table.mk (List.append_nil _)).symm
    rw [hboth]
    exact congrArg Table.entries (hstart.foldl_addSource hcontinues more).collector.table

/-- The first source ends within a comment of a structure that it leaves open. -/
theorem ofSources_append_of_unclosed :
    let options : Options := {}
    let sources := ["struct A \x7b\nint x[N];\n\x7d;\nstruct B \x7b\nint y; /* open\n".toList]
    let more := ["int z;\n\x7d;\nstruct C \x7b\nint x[M], y[N];\nw;\n\x7d;\n".toList]
    let first := ofSources "G".toList options sources
    let second := ofSources "G".toList options more
    let both := ofSources "G".toList options (sources ++ more)
    options.formulaMacros = false ∧ both.structures.map (·.name) = ["A".toList, "C".toList] ∧
      both.table.names = ["N".toList, "M".toList] ∧
      both.structures = first.structures ++ second.structures ∧
      both.warnings = first.warnings ++ second.warnings ∧
      both.table.entries = first.table.entries ++
        second.table.entries.filter fun m => !first.table.contains m.name := by
  intro options sources more first second both
  obtain ⟨hstructures, hwarnings, htable⟩ := ofSources_append "G".toList options rfl sources more
  exact ⟨rfl, by decide +kernel, by decide +kernel, hstructures, hwarnings, htable rfl⟩

end StructTables.Scan

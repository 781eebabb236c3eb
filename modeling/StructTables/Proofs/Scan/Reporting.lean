import StructTables.Proofs.Scan.Parallel

/-! # Options of reporting

Whether definitions are captured, and whether unhandled typedefs are warned of, makes no difference to the
structures of a scan and to its other warnings. Captured definitions can only add to the macros. -/

namespace StructTables.Scan
open Text Macro

def isUnhandled : Warning → Bool
  | .unhandledTypedef _ => true
  | _ => false

/-- The two options change nothing but the warnings of unhandled typedefs and the values of macros, with
the macros that these values name in addition. -/
theorem ofSources_reporting (group : Text) (options : Options) (capture warn : Bool)
    (sources : List Text) :
    let scan := ofSources group options sources
    let other := ofSources group
      { options with captureDefines := capture, warnUnhandledTypedefs := warn } sources
    scan.structures = other.structures ∧
      scan.warnings.filter (! isUnhandled ·) = other.warnings.filter (! isUnhandled ·) ∧
      (options.captureDefines = false → scan.table.names ⊆ other.table.names) := by
  intro scan other
  let changed : Options := { options with captureDefines := capture, warnUnhandledTypedefs := warn }
  have hstart : Parallel Collector.WritesLike (! isUnhandled ·) options changed
      (start group options) (start group changed) :=
    ⟨⟨rfl, rfl⟩, ⟨rfl, fun _ => rfl⟩, rfl, rfl⟩
  obtain ⟨-, -, hstructures, hwarnings⟩ := hstart.foldl_addSource (comparable_writesLike rfl (.inr fun _ => rfl)) sources
  refine ⟨hstructures, hwarnings, fun hcapture => ?_⟩
  have hwithin : Comparable Collector.Within (! isUnhandled ·) options changed :=
    { parallel := Collector.parallel_within
      joinContinuations := rfl
      warnUnhandledTypedefs := .inr fun _ => rfl
      captureFirst := fun h => absurd (hcapture.symm.trans h) Bool.false_ne_true
      captureSecond := fun _ _ _ h name value => by
        rw [Collector.define_eq]
        exact ⟨⟨h.writes.formulaGroup, h.writes.formulaCount⟩, h.definitions, h.names⟩ }
  have hstart : Parallel Collector.Within (! isUnhandled ·) options changed
      (start group options) (start group changed) := by
    refine ⟨⟨rfl, rfl⟩, ⟨⟨rfl, fun _ => rfl⟩, ?_, List.Subset.refl _⟩, rfl, rfl⟩
    unfold start
    split <;> rfl
  exact (hstart.foldl_addSource hwithin sources).collector.names

/-- The value that is captured for a name brings a macro of its own along, and the formula that the name
stands in keeps its number. -/
theorem ofSources_reporting_of_formula :
    let options : Options := { formulaMacros := true, warnUnhandledTypedefs := true }
    let sources := ["typedef int t;\n#define N M\nstruct S \x7b\nint x[N+1];\ny;\n\x7d;\n".toList]
    let scan := ofSources "G".toList options sources
    let other := ofSources "G".toList
      { options with captureDefines := true, warnUnhandledTypedefs := false } sources
    scan.table.names = ["N".toList, "G_CCDD_MACRO_1".toList] ∧
      other.table.names = ["N".toList, "M".toList, "G_CCDD_MACRO_1".toList] ∧
      scan.warnings.map isUnhandled = [true, false] ∧
      scan.structures = other.structures ∧
      scan.warnings.filter (! isUnhandled ·) = other.warnings.filter (! isUnhandled ·) ∧
      scan.table.names ⊆ other.table.names := by
  intro options sources scan other
  obtain ⟨hstructures, hwarnings, hnames⟩ :=
    ofSources_reporting "G".toList options true false sources
  exact ⟨by decide +kernel, by decide +kernel, by decide +kernel, hstructures, hwarnings, hnames rfl⟩

end StructTables.Scan

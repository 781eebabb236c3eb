import StructTables.Proofs.Body.Assembly
import StructTables.Proofs.Macro.Parallel
import StructTables.Proofs.Scan.Factoring

/-! # Scans side by side

Two scans of the same sources find the same structures as long as their collectors write sizes alike. The
options that say what is captured and what is warned of may differ: they touch nothing else. -/

namespace StructTables
open Text Macro Collector

variable {R : Collector → Collector → Prop}

/-! ## Bodies -/

namespace Body

/-- Two assemblies of the same entries. -/
structure Assembly.Parallel (R : Collector → Collector → Prop) (a b : Assembly) : Prop where
  collector : R a.collector b.collector
  added : a.added = b.added
  log : a.log = b.log

theorem Assembly.Parallel.add (hR : Collector.Parallel R) {a b : Assembly}
    (h : Assembly.Parallel R a b) (owner : Structure) (entry : Entry) :
    Assembly.Parallel R (a.add owner entry) (b.add owner entry) := by
  have hreport : ∀ event, Assembly.Parallel R (a.report event) (b.report event) :=
    fun event => ⟨h.collector, h.added, congrArg (· ++ [event]) h.log⟩
  match entry with
  | .invalid source => exact hreport _
  | .remark text => exact ⟨h.collector, congrArg (describeLast text) h.added, h.log⟩
  | .variable dataType declarator description =>
    have hcontains : b.contains owner declarator.name = a.contains owner declarator.name := by
      rw [Assembly.contains, Assembly.contains, h.added]
    cases hdup : a.contains owner declarator.name with
    | true =>
      rw [add_duplicate hdup, add_duplicate (hcontains.trans hdup)]
      exact hreport _
    | false =>
      obtain ⟨harray, hnext⟩ := hR.collect h.collector declarator.arraySize
      obtain ⟨hbits, hlast⟩ := hR.collect hnext declarator.bitLength
      rw [add_variable hdup, add_variable (hcontains.trans hdup)]
      exact ⟨hlast, by simp [memberOf, h.added, harray, hbits], h.log⟩

theorem parallel_assemble (hR : Collector.Parallel R) {a b : Collector} (h : R a b)
    (owner : Structure) (entries : List Entry) :
    Assembly.Parallel R (assemble owner a entries) (assemble owner b entries) := by
  suffices hfold : ∀ {a b : Assembly}, Assembly.Parallel R a b →
      Assembly.Parallel R (entries.foldl (Assembly.add owner) a)
        (entries.foldl (Assembly.add owner) b) from hfold ⟨h, rfl, rfl⟩
  induction entries with
  | nil => exact id
  | cons entry more ih => exact fun h => ih (h.add hR owner entry)

end Body

/-! ## Scans -/

namespace Scan

/-- Options under which two scans may go side by side. Their collectors stay related if one of them
captures a definition, and warnings are compared as far as both scans give them. -/
structure Comparable (R : Collector → Collector → Prop) (compared : Warning → Bool)
    (first second : Options) : Prop where
  parallel : Collector.Parallel R
  joinContinuations : first.joinContinuations = second.joinContinuations
  warnUnhandledTypedefs : first.warnUnhandledTypedefs = second.warnUnhandledTypedefs ∨
    ∀ text, compared (.unhandledTypedef text) = false
  captureFirst : first.captureDefines = true → ∀ {a b}, R a b → ∀ name value,
    R (a.define name value) b
  captureSecond : second.captureDefines = true → ∀ {a b}, R a b → ∀ name value,
    R a (b.define name value)

theorem comparable_writesLike {compared : Warning → Bool} {first second : Options}
    (hjoin : first.joinContinuations = second.joinContinuations)
    (hwarn : first.warnUnhandledTypedefs = second.warnUnhandledTypedefs ∨
      ∀ text, compared (.unhandledTypedef text) = false) :
    Comparable Collector.WritesLike compared first second where
  parallel := Collector.parallel_writesLike
  joinContinuations := hjoin
  warnUnhandledTypedefs := hwarn
  captureFirst := fun _ _ _ h => h.define_left
  captureSecond := fun _ _ _ h => h.define_right

/-- Two scans that have found the same. -/
structure Parallel (R : Collector → Collector → Prop) (compared : Warning → Bool)
    (first second : Options) (a b : Scan) : Prop where
  options : a.options = first ∧ b.options = second
  collector : R a.collector b.collector
  structures : a.structures = b.structures
  warnings : a.warnings.filter compared = b.warnings.filter compared

variable {compared : Warning → Bool} {first second : Options} {a b : Scan}

theorem Parallel.report (h : Parallel R compared first second a b) (event : Event) :
    Parallel R compared first second (a.report event) (b.report event) := by
  refine ⟨h.options, h.collector, h.structures, ?_⟩
  rw [warnings_report, warnings_report, List.filter_append, List.filter_append, h.warnings]

theorem Parallel.symm (h : Parallel R compared first second a b) :
    Parallel (fun a b => R b a) compared second first b a :=
  ⟨h.options.symm, h.collector, h.structures.symm, h.warnings.symm⟩

/-- One of the scans may give a warning that is not compared. -/
theorem Parallel.warnFirst (h : Parallel R compared first second a b) {warning : Warning}
    (hnone : compared warning = false) : Parallel R compared first second (a.warn warning) b := by
  refine ⟨h.options, h.collector, h.structures, ?_⟩
  rw [warn, warnings_report, List.filter_append, h.warnings]
  simp [Event.warning?, hnone]

/-- One of the scans may capture a definition, which finds no structure and warns of nothing. -/
theorem Parallel.captureFirst (h : Parallel R compared first second a b)
    (hdefine : ∀ {a b}, R a b → ∀ name value, R (a.define name value) b) (line : Text) :
    Parallel R compared first second (a.capture line) b := by
  unfold capture
  split
  case h_1 => exact h
  case h_2 name value _ =>
    split
    · exact h
    · refine ⟨h.options, hdefine h.collector name value, h.structures, ?_⟩
      rw [(agrees_report rfl _).warnings]
      exact h.warnings

theorem Parallel.addOutside (h : Parallel R compared first second a b)
    (hcomparable : Comparable R compared first second) (line : Text) :
    Parallel R compared first second (a.addOutside line) (b.addOutside line) := by
  unfold Scan.addOutside
  rw [h.options.1, h.options.2]
  split
  case isTrue =>
    split
    case isTrue => exact h.report _
    case isFalse =>
      rcases hcomparable.warnUnhandledTypedefs with heq | hnone
      · rw [heq]
        split
        · exact h.report _
        · exact h
      · have hfirst : Parallel R compared first second
            (if first.warnUnhandledTypedefs then a.warn (.unhandledTypedef line) else a) b := by
          split
          · exact h.warnFirst (hnone line)
          · exact h
        by_cases hsecond : second.warnUnhandledTypedefs = true
        · rw [if_pos hsecond]
          exact (hfirst.symm.warnFirst (hnone line)).symm
        · rwa [if_neg hsecond]
  case isFalse =>
    have hfirst : Parallel R compared first second
        (if first.captureDefines then a.capture line else a) b := by
      split
      case isTrue hcapture => exact h.captureFirst (hcomparable.captureFirst hcapture) line
      case isFalse => exact h
    by_cases hsecond : second.captureDefines = true
    · rw [if_pos hsecond]
      exact (hfirst.symm.captureFirst (hcomparable.captureSecond hsecond) line).symm
    · rwa [if_neg hsecond]

theorem Parallel.addClosed (h : Parallel R compared first second a b) (hR : Collector.Parallel R)
    (opening : Outline.Opening) (body : List Text) (closing : Text) :
    Parallel R compared first second (a.addClosed opening body closing)
      (b.addClosed opening body closing) := by
  cases hname : (closedName opening closing).isEmpty with
  | true =>
    rw [addClosed_of_nameless hname, addClosed_of_nameless hname]
    exact h.report _
  | false =>
    obtain ⟨hcollector, hadded, hlog⟩ := Body.parallel_assemble hR h.collector
      { name := closedName opening closing, form := opening.form } (Body.read body)
    rw [addClosed_of_named hname, addClosed_of_named hname]
    refine ⟨h.options, hcollector, ?_, ?_⟩
    · simp [readClosed, Structure.addBody, h.structures, hadded]
    · have hold := h.warnings
      simp only [Scan.warnings, StructTables.warnings] at hold
      simp [readClosed, Structure.addBody, Scan.warnings, StructTables.warnings, hadded, hlog, hold]

theorem Parallel.addRegion (h : Parallel R compared first second a b)
    (hcomparable : Comparable R compared first second) (region : Outline.Region) :
    Parallel R compared first second (a.addRegion region) (b.addRegion region) := by
  cases region with
  | outside line => exact h.addOutside hcomparable line
  | abandoned opening => exact h.report _
  | closed opening body closing => exact h.addClosed hcomparable.parallel opening body closing
  | unclosed opening => exact h.report _

theorem Parallel.addSource (h : Parallel R compared first second a b)
    (hcomparable : Comparable R compared first second) (content : Text) :
    Parallel R compared first second (a.addSource content) (b.addSource content) := by
  rw [Scan.addSource, Scan.addSource, h.options.1, h.options.2, hcomparable.joinContinuations,
    Scan.addLines, Scan.addLines]
  generalize Outline.regions _ = regions
  induction regions generalizing a b with
  | nil => exact h
  | cons region more ih => exact ih (h.addRegion hcomparable region)

/-- Scans that have found the same, with collectors that write sizes alike, find the same in all
sources. -/
theorem Parallel.foldl_addSource (h : Parallel R compared first second a b)
    (hcomparable : Comparable R compared first second) (sources : List Text) :
    Parallel R compared first second (sources.foldl Scan.addSource a)
      (sources.foldl Scan.addSource b) := by
  induction sources generalizing a b with
  | nil => exact h
  | cons content more ih => exact ih (h.addSource hcomparable content)

end Scan
end StructTables

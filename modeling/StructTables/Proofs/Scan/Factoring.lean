import StructTables.Proofs.Macro.Factoring
import StructTables.Proofs.Scan.MacroUse

/-! # Scans with and without macros for formulas

A scan that makes macros of formulas finds what a scan finds that does not. Where its sizes name such
a macro, the other has the value of the macro, and its table has these macros in addition. -/

namespace StructTables
open Text Macro Collector

/-- Two runs of the same steps stay related, if all that the first of them puts out is as it has to be
for that. -/
theorem foldl_related {σ α β : Type} {step : σ → α → σ} {output : σ → α → List β}
    {R : σ → σ → Prop} {Q : β → Prop}
    (hstep : ∀ {s t}, R s t → ∀ x, (∀ o ∈ output s x, Q o) → R (step s x) (step t x)) (xs : List α)
    {s t : σ} (h : R s t) (houtput : ∀ o ∈ outputs step output s xs, Q o) :
    R (xs.foldl step s) (xs.foldl step t) := by
  induction xs generalizing s t with
  | nil => exact h
  | cons x more ih =>
    obtain ⟨hx, hmore⟩ := List.forall_mem_append.mp houtput
    exact ih (hstep h x hx) hmore

/-- The member with values for bound names in its sizes. -/
def Member.expand (table : Table) (m : Member) : Member :=
  { m with arraySize := table.substitute m.arraySize, bitLength := table.substitute m.bitLength }

def Structure.expand (table : Table) (s : Structure) : Structure :=
  { s with members := s.members.map (Member.expand table) }

variable {group : Text} {formulas : List Text}

/-! ## Bodies -/

namespace Body

theorem describe_expand (table : Table) (m : Member) (remark : Text) :
    (m.expand table).describe remark = (m.describe remark).expand table := by
  unfold Member.describe Member.expand
  split
  · rfl
  · split <;> rfl

theorem describeLast_expand (table : Table) (remark : Text) (members : List Member) :
    describeLast remark (members.map (Member.expand table)) =
      (describeLast remark members).map (Member.expand table) := by
  fun_induction describeLast remark members with
  | case1 => rfl
  | case2 m => rw [List.map_singleton, describeLast, describe_expand, List.map_singleton]
  | case3 m next more ih =>
    rw [List.map_cons] at ih
    rw [List.map_cons, List.map_cons, describeLast, ih, ← List.map_cons]

theorem definitions_add (owner : Structure) (assembly : Assembly) (entry : Entry) :
    (assembly.add owner entry).collector.definitions = assembly.collector.definitions := by
  match entry with
  | .invalid source => rfl
  | .remark text => rfl
  | .variable dataType declarator description =>
    cases hdup : assembly.contains owner declarator.name with
    | true => rw [add_duplicate hdup]; rfl
    | false => rw [add_variable hdup]; simp [memberOf, definitions_collect]

theorem definitions_assemble (owner : Structure) (collector : Collector) (entries : List Entry) :
    (assemble owner collector entries).collector.definitions = collector.definitions := by
  suffices h : ∀ assembly : Assembly,
      (entries.foldl (Assembly.add owner) assembly).collector.definitions =
        assembly.collector.definitions from h _
  induction entries with
  | nil => exact fun _ => rfl
  | cons entry more ih => exact fun assembly => (ih _).trans (definitions_add owner assembly entry)

/-- The assembly of a body whose formulas become macros, beside one in which they stay. -/
structure Assembly.Factored (group : Text) (formulas : List Text) (plain factored : Assembly) :
    Prop where
  collector : Macro.Factored group formulas plain.collector factored.collector
  added : ∀ table, Extends group formulas table →
    plain.added = factored.added.map (Member.expand table)
  log : plain.log = factored.log

variable {owner : Structure} {plain factored : Assembly}

theorem Assembly.Factored.contains_eq (h : Assembly.Factored group formulas plain factored)
    (name : Text) : factored.contains owner name = plain.contains owner name := by
  rw [Assembly.contains, Assembly.contains, h.added _ h.collector.extends, List.any_map]
  rfl

theorem Assembly.Factored.report (h : Assembly.Factored group formulas plain factored)
    (event : Event) :
    Assembly.Factored group formulas (plain.report event) (factored.report event) :=
  ⟨h.collector, h.added, congrArg (· ++ [event]) h.log⟩

theorem Assembly.Factored.add (h : Assembly.Factored group formulas plain factored)
    (hgroup : '#' ∉ group) (entry : Entry)
    (hsizings : ∀ sizing ∈ entrySizings owner plain entry,
      isUnmarked group sizing.size sizing.mentions) :
    ∃ more, Assembly.Factored group (formulas ++ more) (plain.add owner entry)
      (factored.add owner entry) := by
  match entry with
  | .invalid source =>
    refine ⟨[], ?_⟩
    rw [List.append_nil]
    exact h.report _
  | .remark text =>
    refine ⟨[], ?_⟩
    rw [List.append_nil]
    refine ⟨h.collector, fun table htable => ?_, h.log⟩
    rw [Assembly.add, Assembly.add, h.added table htable, describeLast_expand]
  | .variable dataType declarator description =>
    cases hdup : plain.contains owner declarator.name with
    | true =>
      refine ⟨[], ?_⟩
      rw [List.append_nil, add_duplicate hdup, add_duplicate ((h.contains_eq _).trans hdup)]
      exact h.report _
    | false =>
      rw [add_variable hdup, add_variable ((h.contains_eq _).trans hdup)]
      rw [entrySizings, if_neg (by simp [hdup])] at hsizings
      obtain ⟨harray, hbits⟩ := List.forall_mem_cons.mp hsizings
      have hbits := hbits _ List.mem_cons_self
      obtain ⟨new, hnext, hexpanded⟩ := h.collector.collect hgroup harray
      obtain ⟨more, hlast, hexpandedBits⟩ := hnext.collect hgroup hbits
      refine ⟨new ++ more, ?_⟩
      rw [← List.append_assoc]
      refine ⟨hlast, fun table htable => ?_, h.log⟩
      -- the table of the bit length begins with that of the array size, and this with the one before
      have hfirst := htable.of_append
      simp only [memberOf, List.map_append, List.map_singleton, Member.expand,
        hexpanded table hfirst, hexpandedBits table htable, h.added table hfirst.of_append]

theorem factored_assemble (owner : Structure) {plain factored : Collector}
    (h : Macro.Factored group formulas plain factored) (hgroup : '#' ∉ group)
    (entries : List Entry)
    (hsizings : ∀ sizing ∈ sizings owner plain entries,
      isUnmarked group sizing.size sizing.mentions) :
    ∃ more, Assembly.Factored group (formulas ++ more) (assemble owner plain entries)
      (assemble owner factored entries) := by
  have hstart : ∃ more, Assembly.Factored group (formulas ++ more)
      { collector := plain } { collector := factored } :=
    ⟨[], by rw [List.append_nil]; exact ⟨h, fun _ _ => rfl, rfl⟩⟩
  refine foldl_related (R := fun s t => ∃ more, Assembly.Factored group (formulas ++ more) s t) ?_
    entries hstart hsizings
  rintro s t ⟨more, hrelated⟩ entry hsizings
  obtain ⟨new, hadded⟩ := hrelated.add hgroup entry hsizings
  exact ⟨more ++ new, by rwa [← List.append_assoc]⟩

end Body

/-! ## Scans -/

namespace Scan

/-- A scan that makes macros of formulas, beside one of the same sources that leaves these. -/
structure Factored (group : Text) (formulas : List Text) (plain factored : Scan) : Prop where
  collector : Macro.Factored group formulas plain.collector factored.collector
  structures : ∀ table, Extends group formulas table →
    plain.structures = factored.structures.map (Structure.expand table)
  log : plain.log = factored.log

variable {plain factored : Scan}

theorem Factored.report (h : Factored group formulas plain factored) (event : Event) :
    Factored group formulas (plain.report event) (factored.report event) :=
  ⟨h.collector, h.structures, congrArg (· ++ [event]) h.log⟩

theorem Factored.capture (h : Factored group formulas plain factored) (line : Text)
    (hdefinitions : ∀ d ∈ (plain.capture line).collector.definitions, ∀ n ∈ d.mentions,
      isGenerated group n = false) :
    Factored group formulas (plain.capture line) (factored.capture line) := by
  unfold Scan.capture at hdefinitions ⊢
  split
  case h_1 => exact h
  case h_2 name value hline =>
    rw [h.collector.isDefined_eq]
    simp only [hline] at hdefinitions
    split
    case isTrue => exact h
    case isFalse hnew =>
      rw [if_neg hnew] at hdefinitions
      have hdefine : Factored group formulas
          { plain with collector := plain.collector.define name value }
          { factored with collector := factored.collector.define name value } :=
        ⟨h.collector.define hdefinitions, h.structures, h.log⟩
      exact hdefine.report _

theorem Factored.addOutside (h : Factored group formulas plain factored)
    (hoptions : factored.options = { plain.options with formulaMacros := true }) (line : Text)
    (hdefinitions : ∀ d ∈ (plain.addOutside line).collector.definitions, ∀ n ∈ d.mentions,
      isGenerated group n = false) :
    Factored group formulas (plain.addOutside line) (factored.addOutside line) := by
  unfold Scan.addOutside at hdefinitions ⊢
  rw [hoptions]
  split
  case isTrue =>
    split
    case isTrue => exact h.report _
    case isFalse =>
      split
      case isTrue => exact h.report _
      case isFalse => exact h
  case isFalse htypedef =>
    rw [if_neg htypedef] at hdefinitions
    split
    case isTrue hcapture =>
      rw [if_pos hcapture] at hdefinitions
      exact h.capture line hdefinitions
    case isFalse => exact h

theorem Factored.addClosed (h : Factored group formulas plain factored) (hgroup : '#' ∉ group)
    (opening : Outline.Opening) (body : List Text) (closing : Text)
    (hsizings : ∀ sizing ∈ regionSizings plain (.closed opening body closing),
      isUnmarked group sizing.size sizing.mentions) :
    ∃ more, Factored group (formulas ++ more) (plain.addClosed opening body closing)
      (factored.addClosed opening body closing) := by
  rw [regionSizings] at hsizings
  cases hname : (closedName opening closing).isEmpty with
  | true =>
    refine ⟨[], ?_⟩
    rw [List.append_nil, addClosed_of_nameless hname, addClosed_of_nameless hname]
    exact h.report _
  | false =>
    rw [if_neg (by simp [hname])] at hsizings
    obtain ⟨more, hbody⟩ := Body.factored_assemble _ h.collector hgroup _ hsizings
    refine ⟨more, ?_⟩
    rw [addClosed_of_named hname, addClosed_of_named hname]
    refine ⟨hbody.collector, fun table htable => ?_, ?_⟩
    · simp [readClosed, Structure.addBody, Structure.expand, h.structures table htable.of_append,
        hbody.added table htable]
    · have hlength := congrArg List.length (hbody.added _ hbody.collector.extends)
      rw [List.length_map] at hlength
      simp [readClosed, Structure.addBody, h.log, hbody.log, hlength]

/-! ## Runs of scans -/

/-- A region changes no option and takes no definition away. -/
theorem addRegion_keeps (scan : Scan) (region : Outline.Region) :
    (scan.addRegion region).options = scan.options ∧
      scan.collector.definitions ⊆ (scan.addRegion region).collector.definitions := by
  have hreport : ∀ event, (scan.report event).options = scan.options ∧
      scan.collector.definitions ⊆ (scan.report event).collector.definitions :=
    fun _ => ⟨rfl, List.Subset.refl _⟩
  cases region with
  | outside line =>
    rw [addRegion]
    rcases addOutside_cases scan line with heq | heq | heq | ⟨name, value, -, -, heq⟩ <;> rw [heq]
    · exact ⟨rfl, List.Subset.refl _⟩
    · exact hreport _
    · exact hreport _
    · exact ⟨rfl, definitions_subset_define scan.collector name value⟩
  | closed opening body closing =>
    rw [addRegion]
    cases hname : (closedName opening closing).isEmpty with
    | true =>
      rw [addClosed_of_nameless hname]
      exact hreport _
    | false =>
      rw [addClosed_of_named hname]
      exact ⟨rfl, by simp [readClosed, Structure.addBody, Body.definitions_assemble]⟩
  | abandoned opening => exact hreport _
  | unclosed opening => exact hreport _

theorem options_ofSources (group : Text) (options : Options) (sources : List Text) :
    (ofSources group options sources).options = options :=
  ofSources_keeps (P := fun scan => scan.options = options)
    (fun hscan region => (addRegion_keeps _ region).1.trans hscan) rfl sources

/-- Scans with options that differ in the macros for formulas alone. The second makes macros of the
formulas that the first leaves, unless a captured definition mentions one of these. -/
structure Factors (group : Text) (plain factored : Scan) : Prop where
  options : factored.options = { plain.options with formulaMacros := true }
  factored : (∀ d ∈ plain.collector.definitions, ∀ n ∈ d.mentions, isGenerated group n = false) →
    ∃ formulas, Factored group formulas plain factored

theorem Factors.addRegion (h : Factors group plain factored) (hgroup : '#' ∉ group)
    (region : Outline.Region)
    (hsizings : ∀ sizing ∈ regionSizings plain region,
      isUnmarked group sizing.size sizing.mentions) :
    Factors group (plain.addRegion region) (factored.addRegion region) := by
  obtain ⟨hoptions, hsubset⟩ := plain.addRegion_keeps region
  refine ⟨by rw [(factored.addRegion_keeps region).1, hoptions, h.options], fun hdefinitions => ?_⟩
  obtain ⟨formulas, hfactored⟩ := h.factored fun d hd => hdefinitions d (hsubset hd)
  cases region with
  | outside line => exact ⟨formulas, hfactored.addOutside h.options line hdefinitions⟩
  | abandoned opening => exact ⟨formulas, hfactored.report _⟩
  | closed opening body closing =>
    obtain ⟨more, hclosed⟩ := hfactored.addClosed hgroup opening body closing hsizings
    exact ⟨formulas ++ more, hclosed⟩
  | unclosed opening => exact ⟨formulas, hfactored.report _⟩

theorem Factors.addSource (h : Factors group plain factored) (hgroup : '#' ∉ group)
    (content : Text)
    (hsizings : ∀ sizing ∈ sourceSizings plain content,
      isUnmarked group sizing.size sizing.mentions) :
    Factors group (plain.addSource content) (factored.addSource content) := by
  have hjoin : factored.options.joinContinuations = plain.options.joinContinuations := by
    rw [h.options]
  rw [Scan.addSource, Scan.addSource, hjoin]
  exact foldl_related (fun h region => h.addRegion hgroup region) _ h hsizings

theorem factors_ofSources {group : Text} (options : Options) (sources : List Text)
    (hgroup : '#' ∉ trim group)
    (hsizings : ∀ sizing ∈ sizings group { options with formulaMacros := false } sources,
      isUnmarked (trim group) sizing.size sizing.mentions) :
    Factors (trim group) (ofSources group { options with formulaMacros := false } sources)
      (ofSources group { options with formulaMacros := true } sources) := by
  have hstart : Factors (trim group) (start group { options with formulaMacros := false })
      (start group { options with formulaMacros := true }) := by
    refine ⟨rfl, fun _ => ⟨[], ⟨rfl, ?_, ⟨rfl, rfl⟩, rfl, ?_, rfl, rfl⟩, fun _ _ => rfl, rfl⟩⟩
    · exact fun d hd => nomatch hd
    · exact fun formula hf => nomatch hf
  exact foldl_related (fun h content => h.addSource hgroup content) sources hstart hsizings

/-- Macros for formulas only take the formulas out of the sizes. With the values of these macros put
for their names, the structures are those that a scan without them finds; the two warn of the same,
and the other macros of the table are those of that scan, in the same order. -/
theorem ofSources_factored (group : Text) (options : Options) (sources : List Text)
    (hgroup : '#' ∉ group)
    (hsizes : ∀ sizing ∈ sizings group { options with formulaMacros := false } sources,
      '#' ∉ sizing.size ∧
        ∀ n ∈ sizing.mentions, ∀ number, n ≠ Collector.generatedName (trim group) number)
    (hdefinitions : ∀ d ∈ (ofSources group { options with formulaMacros := false }
        sources).collector.definitions,
      ∀ n ∈ d.mentions, ∀ number, n ≠ Collector.generatedName (trim group) number) :
    let plain := ofSources group { options with formulaMacros := false } sources
    let factored := ofSources group { options with formulaMacros := true } sources
    let macros := factored.table.restrict (isGenerated (trim group))
    plain.structures = factored.structures.map (Structure.expand macros) ∧
      plain.warnings = factored.warnings ∧
      plain.table = factored.table.restrict (! isGenerated (trim group) ·) := by
  intro plain factored macros
  have hungenerated : ∀ n, (∀ number, n ≠ Collector.generatedName (trim group) number) →
      isGenerated (trim group) n = false := by
    intro n hn
    refine Bool.eq_false_iff.mpr fun h => ?_
    obtain ⟨number, heq⟩ := isGenerated_iff.mp h
    exact hn number heq
  obtain ⟨formulas, hfactored⟩ :=
    (factors_ofSources options sources (fun hmem => hgroup (mem_of_mem_trim hmem))
      fun sizing hs => ⟨(hsizes sizing hs).1, fun n hn =>
        hungenerated n ((hsizes sizing hs).2 n hn)⟩).factored
      fun d hd n hn => hungenerated n (hdefinitions d hd n hn)
  refine ⟨hfactored.structures _ hfactored.collector.extends, ?_, hfactored.collector.kept.symm⟩
  exact congrArg StructTables.warnings hfactored.log

/-- Two formulas become macros; the dimension beside the first of them stays, and so does the
definition that it mentions. -/
theorem ofSources_factored_twice :
    let options : Options := { captureDefines := true }
    let sources :=
      ["#define A B\nstruct S \x7b\nint x[A+1][3];\nint y[(N)*2];\nint z[A];\n\x7d;\n".toList]
    let plain := ofSources "g".toList { options with formulaMacros := false } sources
    let factored := ofSources "g".toList { options with formulaMacros := true } sources
    factored.structures.flatMap Structure.sizes =
        ["##g_CCDD_MACRO_1##,3".toList, [], "##g_CCDD_MACRO_2##".toList, [], "##A##".toList, []] ∧
      plain.structures.flatMap Structure.sizes =
        ["##A##+1,3".toList, [], "(##N##)*2".toList, [], "##A##".toList, []] ∧
      plain.structures = factored.structures.map
        (Structure.expand (factored.table.restrict (isGenerated (trim "g".toList)))) := by
  intro options sources plain factored
  have hsizes : ∀ sizing ∈ sizings "g".toList { options with formulaMacros := false } sources,
      '#' ∉ sizing.size ∧ ∀ n ∈ sizing.mentions, n ∈ ["A".toList, "B".toList, "N".toList] := by
    decide +kernel
  have hdefinitions : ∀ d ∈ plain.collector.definitions, ∀ n ∈ d.mentions,
      n ∈ ["A".toList, "B".toList, "N".toList] := by
    decide +kernel
  have hfree : ∀ n ∈ ["A".toList, "B".toList, "N".toList],
      ∀ number, n ≠ Collector.generatedName (trim "g".toList) number := by
    intro n hn number heq
    have hother : ∀ n ∈ ["A".toList, "B".toList, "N".toList], n.head? ≠ some 'g' := by decide
    exact hother n hn (congrArg List.head? heq)
  refine ⟨by decide +kernel, by decide +kernel,
    (ofSources_factored "g".toList options sources (by decide) ?_ ?_).1⟩
  · exact fun sizing hs => ⟨(hsizes sizing hs).1, fun n hn => hfree n ((hsizes sizing hs).2 n hn)⟩
  · exact fun d hd n hn => hfree n (hdefinitions d hd n hn)

end Scan
end StructTables

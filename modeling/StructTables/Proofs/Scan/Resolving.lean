import StructTables.Proofs.Macro.Resolving
import StructTables.Proofs.Scan.Collecting

/-! # Resolving the sizes of a scan

A table holds its macros in the order in which they were first come upon, and that order decides whether
one pass over it resolves a size. A captured value registers its own name ahead of the names in it; but
these may be there already, and the macro of a formula always comes behind the names of the formula. -/

namespace StructTables
open Text Macro

namespace Scan

variable {group : Text} {options : Options} {sources : List Text}

theorem hash_not_mem_formulaGroup (h : '#' ∉ group) :
    ∀ g, (start group options).collector.formulaGroup = some g → '#' ∉ g := by
  intro g hg
  rw [formulaGroup_start] at hg
  split at hg
  · obtain rfl := Option.some.inj hg
    exact fun hmem => h (mem_of_mem_trim hmem)
  · cases hg

/-- Without a delimiter in the sources, all that is registered can be put into sizes. -/
theorem holds_table (hgroup : '#' ∉ group)
    (hsizes : ∀ sizing ∈ sizings group options sources, IsPlain sizing.size)
    (hdefinitions : ∀ d ∈ (ofSources group options sources).collector.definitions,
      ∃ value, '#' ∉ value ∧ d = .ofText d.name value) :
    (ofSources group options sources).table.Holds IsFindable IsBounded := by
  refine table_keeps Table.Holds.register (fun m hm => nomatch hm) ⟨?_, ?_, ?_, ?_⟩ ?_
  · exact isBounded_placeholder
  · intro d hd
    obtain ⟨value, hvalue, heq⟩ := hdefinitions d hd
    exact heq ▸ Definition.isBounded_ofText d.name hvalue
  · intro d hd n hn
    obtain ⟨value, -, heq⟩ := hdefinitions d hd
    rw [heq, ← mentions_value_ofText] at hn
    exact isFindable_of_mem_mentions hn
  · intro g hg number
    rw [(registers_ofSources group options sources).formulaGroup] at hg
    exact ⟨Collector.hash_not_mem_generatedName (hash_not_mem_formulaGroup hgroup g hg) number,
      Collector.endsApart_generatedName g number true⟩
  · intro sizing hs component hc
    obtain ⟨hhash, hregular⟩ := hsizes sizing hs
    exact ⟨fun n hn => isFindable_of_mem_mentionsOf (hregular component hc) hn,
      fun _ => ⟨component, sizing.not_mem_component hhash hc, rfl⟩⟩

/-- Whether the values of macros can be put for all names of a size: one pass over the table leaves no
delimiter, exactly if every macro that the size leads to is registered ahead of those in its value. -/
theorem substitute_sizes (group : Text) (options : Options) (sources : List Text) (hgroup : '#' ∉ group)
    (hsizes : ∀ sizing ∈ sizings group options sources,
      '#' ∉ sizing.size ∧ ∀ component ∈ sizing.components, isRegular component = true)
    (hdefinitions : ∀ d ∈ (ofSources group options sources).collector.definitions,
      ∃ value, '#' ∉ value ∧ d = .ofText d.name value) :
    let scan := ofSources group options sources
    scan.structures.flatMap Structure.sizes = (sizings group options sources).map Sizing.written ∧
      ∀ sizing ∈ sizings group options sources,
        ¬ delimiter <:+: scan.table.substitute sizing.written ↔
          ∀ n ∈ sizing.names, scan.table.Resolves n := by
  intro scan
  refine ⟨(sized_ofSources group options sources).written, fun sizing hs => ?_⟩
  obtain ⟨hformula, hnames⟩ := (registers_ofSources group options sources).sizings sizing hs
  have htable : scan.table.Holds IsFindable IsBounded :=
    holds_table hgroup (fun sizing hs => ⟨(hsizes sizing hs).1, (hsizes sizing hs).2⟩) hdefinitions
  have hparted : Mark.Parted true (joined sizing.marks) := by
    refine sizing.parted_joined (hsizes sizing hs).1 ?_
    rw [hformula]
    exact hash_not_mem_formulaGroup hgroup
  have hjoined : (joined sizing.marks).filterMap Mark.name? = sizing.names := names_joined _
  rw [sizing.written_joined, ← hjoined]
  refine not_delimiter_infix_substitute_iff (nodup_names_ofSources group options sources) htable
    hparted ?_
  rw [hjoined]
  exact hnames

/-- The value of a definition is resolved behind its name; a formula is not, behind the names in it. -/
theorem substitute_sizes_of_formula :
    let options : Options := { formulaMacros := true, captureDefines := true }
    let sources := ["#define A B\n#define B 3\nstruct S \x7b\nint x[A][4];\nint y[N+1];\n\x7d;\n".toList]
    let scan := ofSources "G".toList options sources
    scan.structures.flatMap Structure.sizes =
        ["##A##,4".toList, [], "##G_CCDD_MACRO_1##".toList, []] ∧
      scan.table.Resolves "A".toList ∧ ¬ scan.table.Resolves "G_CCDD_MACRO_1".toList := by
  intro options sources scan
  have hdefinitions : ∀ d ∈ scan.collector.definitions,
      ∃ value, '#' ∉ value ∧ d = .ofText d.name value := by
    have hall : scan.collector.definitions =
        [.ofText "A".toList "B".toList, .ofText "B".toList "3".toList] := by decide +kernel
    rw [hall]
    exact List.forall_mem_cons.mpr ⟨⟨"B".toList, by decide, rfl⟩,
      List.forall_mem_singleton.mpr ⟨"3".toList, by decide, rfl⟩⟩
  obtain ⟨hwritten, hresolves⟩ := substitute_sizes "G".toList options sources (by decide)
    (by decide +kernel) hdefinitions
  have hfirst : ∃ sizing ∈ sizings "G".toList options sources,
      sizing.names = ["A".toList] ∧ ¬ delimiter <:+: scan.table.substitute sizing.written := by
    decide +kernel
  have hsecond : ∃ sizing ∈ sizings "G".toList options sources,
      sizing.names = ["G_CCDD_MACRO_1".toList] ∧
        delimiter <:+: scan.table.substitute sizing.written := by
    decide +kernel
  refine ⟨hwritten.trans (by decide +kernel), ?_, fun hformula => ?_⟩
  · obtain ⟨sizing, hs, hnames, hnone⟩ := hfirst
    exact (hresolves sizing hs).mp hnone _ (hnames ▸ List.mem_cons_self)
  · obtain ⟨sizing, hs, hnames, hdelimiter⟩ := hsecond
    refine (hresolves sizing hs).mpr (fun n hn => ?_) hdelimiter
    rw [hnames] at hn
    exact List.mem_singleton.mp hn ▸ hformula

/-- Names are left where a value comes behind the names in it: the value of a macro whose own name was
come upon later, and the formula of a generated macro. -/
theorem substitute_leaves_names :
    (let options : Options := { captureDefines := true }
      let sources := ["#define A B\n#define B 3\nstruct S \x7b\nint x[B];\nint y[A];\n\x7d;\n".toList]
      let scan := ofSources "G".toList options sources
      scan.collector.definitions.map (fun d => (d.name, d.mentions)) =
          [("A".toList, ["B".toList]), ("B".toList, [])] ∧
        (sizings "G".toList options sources).map Sizing.size =
          ["B".toList, [], "A".toList, []] ∧
        (scan.structures.flatMap Structure.sizes).map scan.table.substitute =
          ["3".toList, [], "##B##".toList, []]) ∧
      (let options : Options := { formulaMacros := true }
      let sources := ["struct S \x7b\nint x[N+1];\n\x7d;\n".toList]
      let scan := ofSources "G".toList options sources
      (sizings "G".toList options sources).map Sizing.size = ["N+1".toList, []] ∧
        (scan.structures.flatMap Structure.sizes).map scan.table.substitute =
          ["##N##+1".toList, []]) := by
  decide +kernel

end Scan
end StructTables

import Mathlib.Data.List.SplitBy
import StructTables.Proofs.Macro.Registering
import StructTables.Proofs.Macro.Resolving

/-! # Placeholders

Where nothing is captured and formulas stay, every macro has the value of an unknown one. Substituting
then undoes what collecting did to a size, but for that value in the place of every name. -/

namespace StructTables.Macro
open Text

namespace Formula

/-- The words of a formula and the characters between them, each as a text of its own. -/
def tokens (t : Text) : List Text :=
  t.splitBy fun c d => isIdentifierCharacter c && isIdentifierCharacter d

theorem tokens_other {c : Char} (h : isIdentifierCharacter c = false) (r : Text) :
    tokens (c :: r) = [c] :: tokens r := by
  have hsplit := List.splitBy_append (l := [c]) (m := r)
    (r := fun c d => isIdentifierCharacter c && isIdentifierCharacter d) (by simp [h])
  rwa [List.splitBy_of_isChain (List.cons_ne_nil c []) (List.isChain_singleton c)] at hsplit

theorem tokens_word {w r : Text} (hne : w ≠ []) (hw : w.all isIdentifierCharacter = true)
    (hr : startsApart r = true) : tokens (w ++ r) = w :: tokens r := by
  have hsplit := List.splitBy_append (l := w) (m := r)
    (r := fun c d => isIdentifierCharacter c && isIdentifierCharacter d) (by
      intro c _ d hd
      cases r with
      | nil => cases hd
      | cons e r =>
        obtain rfl : e = d := Option.some.inj hd
        have he : isIdentifierCharacter e = false := by simpa [startsApart] using hr
        simp [he])
  have hword : w.splitBy (fun c d => isIdentifierCharacter c && isIdentifierCharacter d) = [w] := by
    refine List.splitBy_of_isChain hne ?_
    clear hne hr hsplit
    induction w with
    | nil => exact List.isChain_nil
    | cons c w ih =>
      obtain ⟨hc, hw⟩ := Bool.and_eq_true_iff.mp hw
      refine (ih hw).cons fun d hd => ?_
      simp [hc, List.all_eq_true.mp hw d (List.mem_of_mem_head? hd)]
  rwa [hword] at hsplit

theorem isIdentifier_singleton {c : Char} (h : isIdentifierCharacter c = false) :
    isIdentifier [c] = false := by
  refine Bool.eq_false_iff.mpr fun hidentifier => ?_
  obtain ⟨d, s, hcons, -, hall⟩ := exists_of_isIdentifier hidentifier
  rw [List.all_cons, h] at hall
  cases hall

theorem isMention_eq {w : Text} (hne : w ≠ []) (hw : w.all isIdentifierCharacter = true) :
    isMention w = (isIdentifier w && w != "sizeof".toList) := by
  obtain ⟨c, w, rfl⟩ := List.exists_cons_of_ne_nil hne
  obtain ⟨hc, hrest⟩ := Bool.and_eq_true_iff.mp hw
  have hstart : isIdentifierStart c = !c.isDigit := by
    rw [isIdentifierCharacter_iff, isIdentifierStart_iff, isDigit_iff] at hc
    rw [Bool.eq_iff_iff, isIdentifierStart_iff, Bool.not_eq_true', Bool.eq_false_iff, ne_eq,
      isDigit_iff]
    omega
  rw [isMention, isIdentifier, hrest, hstart, Bool.and_true]

/-- Whether a token of a formula is the name of a macro. -/
def isName (token : Text) : Bool := isIdentifier token && token != "sizeof".toList

/-- A token of a formula as a stretch of what is written. -/
def tokenMark (token : Text) : Mark := if isName token then .name token else .plain token

theorem marks_eq_map_tokens (t : Text) : marks t = (tokens t).map tokenMark := by
  induction t using wordInduction with
  | nil => rfl
  | other c r hc ih =>
    have hname : isName [c] = false := by rw [isName, isIdentifier_singleton hc, Bool.false_and]
    rw [marks_other hc, tokens_other hc, List.map_cons, ih, tokenMark, hname]
    rfl
  | word w r hne hw hr ih =>
    rw [marks_word hne hw hr, tokens_word hne hw hr, List.map_cons, ih, isMention_eq hne hw]
    rfl

end Formula

/-! ## Components -/

/-- A component with the placeholder for the macro that it is, or for those that it mentions as a
formula. -/
def withPlaceholders (component : Text) : Text :=
  if isIdentifier component then placeholder
  else (Formula.tokens component).flatMap fun token =>
    if isIdentifier token && token != "sizeof".toList then placeholder else token

/-- A stretch with the placeholder in the place of its name. -/
def Mark.unnamed : Mark → Mark
  | .plain t => .plain t
  | .name _ => .plain placeholder

theorem Formula.written_unnamed_marks (t : Text) :
    ((marks t).map Mark.unnamed).flatMap Mark.written =
      (tokens t).flatMap fun token =>
        if isIdentifier token && token != "sizeof".toList then placeholder else token := by
  rw [marks_eq_map_tokens, List.map_map, List.flatMap_map]
  refine List.flatMap_congr fun token _ => ?_
  rw [Function.comp_apply, tokenMark, isName]
  split <;> rfl

theorem withPlaceholders_of_word {w : Text} (hw : w.all isIdentifierCharacter = true)
    (hidentifier : isIdentifier w = false) : withPlaceholders w = w := by
  rw [withPlaceholders, hidentifier, if_neg Bool.false_ne_true]
  by_cases hne : w = []
  · subst hne
    rfl
  · have htokens := Formula.tokens_word hne hw (r := []) rfl
    have hnone : Formula.tokens [] = [] := rfl
    rw [List.append_nil, hnone] at htokens
    rw [htokens, List.flatMap_singleton, hidentifier, Bool.false_and, if_neg Bool.false_ne_true]

theorem any_isOperator_eq_false {w : Text} (hw : w.all isIdentifierCharacter = true) :
    w.any Formula.isOperator = false := by
  refine List.any_eq_false.mpr fun c hc hoperator => ?_
  have hword := List.all_eq_true.mp hw c hc
  simp only [Formula.isOperator, Bool.or_eq_true, beq_iff_eq] at hoperator
  rcases hoperator with ((((rfl | rfl) | rfl) | rfl) | rfl) | rfl <;> cases hword

/-- The collector writes each component with a name in every place where its value may stand. -/
theorem Collector.written_unnamed_marks {collector : Collector}
    (hgroup : collector.formulaGroup = none) {component : Text} (h : isRegular component = true) :
    ((collector.marks component).map Mark.unnamed).flatMap Mark.written =
      withPlaceholders component := by
  unfold marks
  split
  case isTrue hplain =>
    have hword : component.all isIdentifierCharacter = true ∧ isIdentifier component = false := by
      rcases Bool.or_eq_true_iff.mp hplain with hnil | hnumeric
      · rw [List.isEmpty_iff.mp hnil]
        exact ⟨rfl, rfl⟩
      · obtain ⟨c, r, rfl, -, hall⟩ := exists_of_isNumeric hnumeric
        refine ⟨hall, Bool.eq_false_iff.mpr fun hidentifier => ?_⟩
        rw [isNumeric_eq_false hidentifier] at hnumeric
        cases hnumeric
    rw [withPlaceholders_of_word hword.1 hword.2]
    simp [Mark.unnamed, Mark.written]
  case isFalse hplain =>
    split
    case isTrue hbare =>
      rw [Bool.not_eq_true'] at hbare
      have hidentifier : isIdentifier component = true := by
        simpa [isRegular, hbare, hplain] using h
      rw [withPlaceholders, hidentifier, if_pos rfl]
      rfl
    case isFalse hformula =>
      have hidentifier : isIdentifier component = false := by
        refine Bool.eq_false_iff.mpr fun hidentifier => hformula ?_
        obtain ⟨c, r, rfl, -, hall⟩ := exists_of_isIdentifier hidentifier
        rw [any_isOperator_eq_false hall]
        rfl
      rw [hgroup, withPlaceholders, hidentifier, if_neg Bool.false_ne_true]
      exact Formula.written_unnamed_marks component

/-! ## Substituting placeholders -/

section
variable {macros : List Macro} {marks : List Mark}

theorem unnamed_filled (h : ∀ m ∈ macros, m.value = placeholder) (marks : List Mark) :
    (filled macros marks).map Mark.unnamed = marks.map Mark.unnamed := by
  induction macros generalizing marks with
  | nil => rfl
  | cons m more ih =>
    obtain ⟨hm, hmore⟩ := List.forall_mem_cons.mp h
    have hmarks : valueMarks m.value = [.plain placeholder] := by
      rw [hm]
      rfl
    rw [filled, List.foldl_cons, ← filled, ih hmore, hmarks, List.map_flatMap, List.map_eq_flatMap]
    refine congrArg (List.flatMap · marks) (funext fun mark => ?_)
    cases mark with
    | plain t => rfl
    | name n => by_cases hn : n = m.name <;> simp [Mark.fill, Mark.unnamed, hn]

theorem left_eq_nil_of_placeholder (h : ∀ m ∈ macros, m.value = placeholder) {n : Text}
    (hn : n ∈ macros.map Macro.name) : left macros n = [] := by
  induction macros with
  | nil => cases hn
  | cons m more ih =>
    obtain ⟨hm, hmore⟩ := List.forall_mem_cons.mp h
    rw [left]
    split
    case isTrue =>
      rw [hm, show Formula.mentions placeholder = [] by decide]
      rfl
    case isFalse hne => exact ih hmore ((List.mem_cons.mp hn).resolve_left hne)

theorem map_unnamed_of_no_names (h : marks.filterMap Mark.name? = []) :
    marks.map Mark.unnamed = marks := by
  induction marks with
  | nil => rfl
  | cons mark more ih =>
    cases mark with
    | plain t => rw [List.map_cons, ih h, Mark.unnamed]
    | name n => cases h

/-- All names of a text that the table holds give way to the placeholder. -/
theorem substitute_placeholders {table : Table} (h : table.Holds IsFindable (· = placeholder))
    (hparted : Mark.Parted true marks) (hnames : marks.filterMap Mark.name? ⊆ table.names) :
    table.substitute (marks.flatMap Mark.written) =
      (marks.map Mark.unnamed).flatMap Mark.written := by
  have hvalues : ∀ m ∈ table.entries, m.value = placeholder := fun m hm => (h m hm).2
  have hbounded : ∀ m ∈ table.entries, IsFindable m.name ∧ IsBounded m.value := fun m hm =>
    ⟨(h m hm).1, hvalues m hm ▸ isBounded_placeholder⟩
  have hnone : (filled table.entries marks).filterMap Mark.name? = [] := by
    rw [names_filled fun m hm => (hbounded m hm).2]
    exact List.flatMap_eq_nil_iff.mpr fun n hn => left_eq_nil_of_placeholder hvalues (hnames hn)
  rw [(substitute_written hbounded hparted).1, ← unnamed_filled hvalues marks,
    map_unnamed_of_no_names hnone]

end

/-! ## Sizes one after the other -/

/-- The sizes as they are written out one after the other, and the collector behind them. -/
def Collector.collectAll (collector : Collector) : List Text → List Text × Collector
  | [] => ([], collector)
  | size :: more =>
    let (written, collector) := collector.collect size
    let (rest, collector) := collector.collectAll more
    (written :: rest, collector)

/-- A size with its components trimmed, and placeholders in them. -/
def sizeWithPlaceholders (size : Text) : Text :=
  join [','] (((splitOn ',' size).map trim).map withPlaceholders)

/-- A collector that knows no value and leaves formulas. -/
structure Collector.Valueless (collector : Collector) : Prop where
  definitions : collector.definitions = []
  formulaGroup : collector.formulaGroup = none
  table : collector.table.Holds IsFindable (· = placeholder)

variable {collector : Collector} {size : Text}

theorem Collector.Valueless.collect (h : collector.Valueless) (hsize : IsPlain size) :
    (collector.collect size).2.Valueless := by
  have hadmits : collector.Admits IsFindable (· = placeholder) := by
    refine ⟨rfl, ?_, ?_, ?_⟩
    · simp [h.definitions]
    · simp [h.definitions]
    · simp [h.formulaGroup]
  refine ⟨(definitions_collect collector size).trans h.definitions,
    (formulaGroup_collect collector size).trans h.formulaGroup,
    collect_keeps Table.Holds.register hadmits (fun component hc => ⟨?_, ?_⟩) h.table⟩
  · exact fun n hn => isFindable_of_mem_mentionsOf (hsize.regular component hc) hn
  · exact fun hgroup => absurd h.formulaGroup hgroup

/-- Where formulas stay, a component is written in the same way whatever else the collector holds. -/
theorem Collector.marksOf_of_plain (h : collector.formulaGroup = none) (components : List Text) :
    collector.marksOf components = components.map plain.marks := by
  induction components generalizing collector with
  | nil => rfl
  | cons component more ih =>
    have hmarks : collector.marks component = plain.marks component := by
      rw [marks, marks, h]
      rfl
    rw [marksOf, hmarks, ih ((formulaGroup_next collector component).trans h), List.map_cons]

theorem Collector.unnamed_marksOf (h : collector.formulaGroup = none)
    {components : List Text} (hregular : ∀ component ∈ components, isRegular component = true) :
    (collector.marksOf components).map (·.flatMap (Mark.written ∘ Mark.unnamed)) =
      components.map withPlaceholders := by
  rw [marksOf_of_plain h, List.map_map]
  refine List.map_congr_left fun component hc => ?_
  rw [← plain.written_unnamed_marks rfl (hregular component hc), List.flatMap_map]
  rfl

/-- A size that is written out comes back with placeholders from every table that holds its names. -/
theorem Collector.Valueless.substitute_collect (h : collector.Valueless) (hsize : IsPlain size)
    {table : Table} (htable : table.Holds IsFindable (· = placeholder))
    (hnames : (collector.collect size).2.table.names ⊆ table.names) :
    table.substitute (collector.collect size).1 = sizeWithPlaceholders size := by
  have hgroup : ∀ group, collector.formulaGroup = some group → '#' ∉ group := by
    simp [h.formulaGroup]
  let sizing : Sizing := ⟨collector, size⟩
  have hjoined : (joined sizing.marks).filterMap Mark.name? ⊆ table.names := by
    rw [names_joined]
    exact List.Subset.trans sizing.names_subset_collect hnames
  calc
    table.substitute (collector.collect size).1
    _ = table.substitute ((joined sizing.marks).flatMap Mark.written) := by
      rw [← sizing.written_joined, sizing.written_eq]
    _ = (joined sizing.marks).flatMap (Mark.written ∘ Mark.unnamed) := by
      rw [substitute_placeholders htable (sizing.parted_joined hsize.hash hgroup) hjoined,
        List.flatMap_map]
      rfl
    _ = sizeWithPlaceholders size := by
      rw [flatMap_joined rfl]
      exact congrArg (join [',']) (unnamed_marksOf h.formulaGroup hsize.regular)

/-- The table behind all sizes holds the names of each of them. -/
theorem Collector.Valueless.substitute_collectAll (h : collector.Valueless) {sizes : List Text}
    (hsizes : ∀ size ∈ sizes, IsPlain size) :
    let (written, last) := collector.collectAll sizes
    last.Valueless ∧ collector.table.names ⊆ last.table.names ∧
      written.map last.table.substitute = sizes.map sizeWithPlaceholders := by
  induction sizes generalizing collector with
  | nil => exact ⟨h, List.Subset.refl _, rfl⟩
  | cons size more ih =>
    obtain ⟨hfirst, hmore⟩ := List.forall_mem_cons.mp hsizes
    obtain ⟨hlast, hnames, hwritten⟩ := ih (h.collect hfirst) hmore
    refine ⟨hlast, ?_, ?_⟩
    · exact List.Subset.trans (List.map_subset _ (collector.entries_subset_collect size)) hnames
    · exact congrArg₂ List.cons (h.substitute_collect hfirst hlast.table hnames) hwritten

theorem hash_not_mem_sizeWithPlaceholders (h : '#' ∉ size) : '#' ∉ sizeWithPlaceholders size := by
  have hplaceholder : '#' ∉ placeholder := by decide
  intro hmem
  rcases mem_of_mem_join hmem with hcomma | ⟨text, htext, hmem⟩
  · exact absurd hcomma (by decide)
  · obtain ⟨component, hcomponent, rfl⟩ := List.mem_map.mp htext
    obtain ⟨piece, hpiece, rfl⟩ := List.mem_map.mp hcomponent
    unfold withPlaceholders at hmem
    split at hmem
    · exact hplaceholder hmem
    · obtain ⟨token, htoken, hmem⟩ := List.mem_flatMap.mp hmem
      split at hmem
      · exact hplaceholder hmem
      · have hflatten := List.flatten_splitBy
          (fun c d => isIdentifierCharacter c && isIdentifierCharacter d) (trim piece)
        have htrim : '#' ∈ trim piece := hflatten ▸ List.mem_flatten_of_mem htoken hmem
        exact h (mem_of_mem_piecesBetween hpiece (mem_of_mem_trim htrim))

/-- Putting values for the names of sizes that were collected, without a definition and with formulas
left in place, gives the sizes again but for placeholders in the place of the names. -/
theorem substitute_collected (sizes : List Text) (hhash : ∀ size ∈ sizes, '#' ∉ size)
    (hregular : ∀ size ∈ sizes, ∀ component ∈ (splitOn ',' size).map trim,
      isRegular component = true) :
    let collected := Collector.plain.collectAll sizes
    collected.1.map collected.2.table.substitute =
        sizes.map (fun size => join [','] (((splitOn ',' size).map trim).map withPlaceholders)) ∧
      ∀ text ∈ collected.1, ¬ delimiter <:+: collected.2.table.substitute text := by
  intro collected
  have hstart : Collector.plain.Valueless := ⟨rfl, rfl, fun m hm => nomatch hm⟩
  obtain ⟨-, -, hwritten⟩ := hstart.substitute_collectAll fun size hsize =>
    ⟨hhash size hsize, hregular size hsize⟩
  refine ⟨hwritten, fun text htext hdelimiter => ?_⟩
  obtain ⟨size, hsize, heq⟩ := List.mem_map.mp (hwritten ▸ List.mem_map_of_mem htext)
  refine hash_not_mem_sizeWithPlaceholders (hhash size hsize) ?_
  exact heq ▸ hdelimiter.subset List.mem_cons_self

/-- Names that begin another name, a number beside a name and `sizeof` are told apart. -/
theorem substitute_collected_lengths :
    let sizes := ["ROWS,(COLS - 1)".toList, "LEN*LEN_MAX, 4".toList, "sizeof(HDR)/2".toList,
      "LEN_MAX".toList, "".toList]
    let collected := Collector.plain.collectAll sizes
    collected.2.table.names = ["ROWS".toList, "COLS".toList, "LEN".toList, "LEN_MAX".toList,
        "HDR".toList] ∧
      collected.1.map collected.2.table.substitute =
        ["2,(2 - 1)".toList, "2*2,4".toList, "sizeof(2)/2".toList, "2".toList, "".toList] := by
  intro sizes collected
  have hsizes := (substitute_collected sizes (by decide) (by decide +kernel)).1
  refine ⟨by decide +kernel, hsizes.trans ?_⟩
  decide +kernel

end StructTables.Macro

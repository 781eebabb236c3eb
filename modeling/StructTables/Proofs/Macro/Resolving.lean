import Mathlib.Data.List.Nodup
import StructTables.Proofs.Macro.Generated

/-! # Resolving bound names

Substituting passes over the macros of a table once, and each of them puts its value where its name is
bound by then. A name that a value brings in is therefore met again only if its macro comes later. -/

namespace StructTables.Macro
open Text

/-! ## Values as stretches -/

namespace Formula

theorem filter_written {t : Text} (h : '#' ∉ t) : (written t).filter (· != '#') = t := by
  have hkeep : ∀ {t : Text}, '#' ∉ t → t.filter (· != '#') = t := by
    intro t h
    exact List.filter_eq_self.mpr fun c hc => bne_iff_ne.mpr fun heq => h (heq ▸ hc)
  induction t using wordInduction with
  | nil => rfl
  | other c r hc ih =>
    obtain ⟨hne, hr⟩ := List.ne_and_not_mem_of_not_mem_cons h
    rw [written_other hc, List.filter_cons_of_pos (by simpa using Ne.symm hne), ih hr]
  | word w r hne hw hr ih =>
    rw [List.mem_append, not_or] at h
    rw [written_word hne hw hr, List.filter_append, ih h.2]
    split
    · simp [bound, delimiter, List.filter_append, hkeep h.1]
    · rw [hkeep h.1]

end Formula

/-- The stretches of a value. What is left of it without the delimiters tells which are names. -/
def valueMarks (value : Text) : List Mark := Formula.marks (value.filter (· != '#'))

/-- A value without delimiters but those around the names that it mentions. -/
def IsBounded (value : Text) : Prop := ∃ t, '#' ∉ t ∧ value = Formula.written t

theorem isBounded_placeholder : IsBounded placeholder := ⟨placeholder, by decide, by decide⟩

section
variable {value : Text}

theorem IsBounded.written_valueMarks (h : IsBounded value) :
    (valueMarks value).flatMap Mark.written = value := by
  obtain ⟨t, ht, rfl⟩ := h
  rw [valueMarks, Formula.filter_written ht, Formula.written_marks]

theorem IsBounded.names_valueMarks (h : IsBounded value) :
    (valueMarks value).filterMap Mark.name? = Formula.mentions value := by
  obtain ⟨t, ht, rfl⟩ := h
  rw [valueMarks, Formula.filter_written ht, Formula.names_marks, Formula.mentions_written]

theorem parted_valueMarks (value : Text) : Mark.Parted true (valueMarks value) :=
  Formula.parted_marks (by simp)

end

/-! ## One macro -/

namespace Mark

/-- The stretches of a value in the place of a name. -/
def fill (n : Text) (value : List Mark) : Mark → List Mark
  | .plain t => [.plain t]
  | .name m => if m = n then value else [.name m]

variable {apart : Bool} {marks value : List Mark} {n : Text}

theorem flatMap_fill_written (n : Text) (value marks : List Mark) :
    (marks.flatMap (fill n value)).flatMap written =
      marks.flatMap (replaced n (value.flatMap written)) := by
  rw [List.flatMap_assoc]
  refine congrArg (List.flatMap · marks) (funext fun mark => ?_)
  cases mark with
  | plain t => simp [fill, written, replaced]
  | name m => by_cases h : m = n <;> simp [fill, written, replaced, h]

theorem Parted.fill (h : Parted apart marks) (hvalue : Parted true value) (n : Text) :
    Parted apart (marks.flatMap (fill n value)) := by
  induction marks generalizing apart with
  | nil => trivial
  | cons mark more ih =>
    rw [List.flatMap_cons]
    cases mark with
    | plain t => exact ⟨h.1, ih h.2⟩
    | name m =>
      obtain ⟨rfl, hm, hmore⟩ := h
      rw [Mark.fill]
      split
      · exact hvalue.append (ih hmore)
      · exact ⟨rfl, hm, ih hmore⟩

theorem names_fill (n : Text) (value marks : List Mark) :
    (marks.flatMap (fill n value)).filterMap name? =
      (marks.filterMap name?).flatMap fun m => if m = n then value.filterMap name? else [m] := by
  induction marks with
  | nil => rfl
  | cons mark more ih =>
    rw [List.flatMap_cons, List.filterMap_append, ih]
    cases mark with
    | plain t => rfl
    | name m =>
      rw [List.filterMap_cons_some (show name? (.name m) = some m from rfl), List.flatMap_cons, fill]
      split <;> rfl

/-- A text has a delimiter in it as long as there is a name left. -/
theorem delimiter_infix_iff (h : Parted apart marks) :
    delimiter <:+: marks.flatMap written ↔ marks.filterMap name? ≠ [] := by
  constructor
  · intro hdelimiter hnames
    -- without names, no stretch has a character of a delimiter
    have hhash : '#' ∉ marks.flatMap written := by
      clear hdelimiter
      induction marks generalizing apart with
      | nil => exact List.not_mem_nil
      | cons mark more ih =>
        cases mark with
        | plain t =>
          rw [List.flatMap_cons, List.mem_append, not_or]
          exact ⟨h.1, ih h.2 hnames⟩
        | name n => cases hnames
    exact hhash (hdelimiter.subset List.mem_cons_self)
  · intro hnames
    obtain ⟨n, hn⟩ := List.exists_mem_of_ne_nil _ hnames
    obtain ⟨mark, hmark, hname⟩ := List.mem_filterMap.mp hn
    cases mark with
    | plain t => cases hname
    | name m =>
      have hbound : delimiter <:+: (Mark.name m).written := ⟨[], m ++ delimiter, by
        rw [List.nil_append, written, bound, List.append_assoc]⟩
      exact hbound.trans (List.infix_of_mem_flatten (List.mem_map_of_mem hmark))

end Mark

/-! ## All macros of a table -/

/-- A name that is found wherever it is bound, and nowhere else. -/
def IsFindable (n : Text) : Prop := '#' ∉ n ∧ endsApart true n = false

theorem isFindable_of_all {n : Text} (hne : n ≠ []) (h : n.all isIdentifierCharacter = true) :
    IsFindable n :=
  ⟨not_mem_of_all h rfl, endsApart_of_all hne h true⟩

/-- Stretches with the values of the macros in the place of their names, one after the other. -/
def filled (macros : List Macro) (marks : List Mark) : List Mark :=
  macros.foldl (fun marks m => marks.flatMap (Mark.fill m.name (valueMarks m.value))) marks

theorem substitute_written {macros : List Macro}
    (hmacros : ∀ m ∈ macros, IsFindable m.name ∧ IsBounded m.value) {marks : List Mark}
    (h : Mark.Parted true marks) :
    Table.substitute ⟨macros⟩ (marks.flatMap Mark.written) =
        (filled macros marks).flatMap Mark.written ∧
      Mark.Parted true (filled macros marks) := by
  induction macros generalizing marks with
  | nil => exact ⟨rfl, h⟩
  | cons m more ih =>
    obtain ⟨⟨⟨hhash, hword⟩, hvalue⟩, hmore⟩ := List.forall_mem_cons.mp hmacros
    have hone : replaceAll (bound m.name) m.value (marks.flatMap Mark.written) =
        (marks.flatMap (Mark.fill m.name (valueMarks m.value))).flatMap Mark.written := by
      rw [replaceAll, Mark.replaceFrom_written h.spaced hhash hword, Mark.flatMap_fill_written,
        hvalue.written_valueMarks]
    rw [Table.substitute, List.foldl_cons, hone]
    exact ih hmore (h.fill (parted_valueMarks m.value) m.name)

/-- The names that are left of a name behind the given macros. -/
def left : List Macro → Text → List Text
  | [], n => [n]
  | m :: more, n =>
    if n = m.name then (Formula.mentions m.value).flatMap (left more) else left more n

theorem names_filled {macros : List Macro} (hmacros : ∀ m ∈ macros, IsBounded m.value)
    (marks : List Mark) :
    (filled macros marks).filterMap Mark.name? =
      (marks.filterMap Mark.name?).flatMap (left macros) := by
  induction macros generalizing marks with
  | nil => exact (List.flatMap_singleton' _).symm
  | cons m more ih =>
    obtain ⟨hm, hmore⟩ := List.forall_mem_cons.mp hmacros
    rw [filled, List.foldl_cons, ← filled, ih hmore, Mark.names_fill, List.flatMap_assoc,
      hm.names_valueMarks]
    refine congrArg (List.flatMap · _) (funext fun n => ?_)
    rw [left]
    split
    · rfl
    · rw [List.flatMap_singleton]

/-- In a list without repetitions, what stands behind a name is the part of the list that follows. -/
theorem pair_sublist_iff {before after : List Text} {n m : Text} (h : (before ++ n :: after).Nodup) :
    [n, m].Sublist (before ++ n :: after) ↔ m ∈ after := by
  constructor
  · intro hpair
    induction before with
    | nil => exact List.singleton_sublist.mp (List.cons_sublist_cons.mp hpair)
    | cons k before ih =>
      obtain ⟨hk, hnodup⟩ := List.nodup_cons.mp h
      cases hpair with
      | cons _ hpair => exact ih hnodup hpair
      | cons_cons _ hpair => exact absurd (by simp) hk
  · intro hm
    exact ((List.singleton_sublist.mpr hm).cons_cons n).trans (List.sublist_append_right _ _)

/-- Every name that can be reached from the name is registered ahead of the names that its value
mentions. -/
def Table.Resolves (table : Table) (n : Text) : Prop :=
  ∀ m, table.Reaches n m → ∀ k, table.Leads m k → [m, k].Sublist table.names

theorem left_eq_nil_iff_of_append {table : Table} (hnodup : table.names.Nodup)
    (before after : List Macro) (h : table.entries = before ++ after) (n : Text) :
    left after n = [] ↔ n ∈ after.map Macro.name ∧ table.Resolves n := by
  induction after generalizing before n with
  | nil => simp [left]
  | cons m after ih =>
    have hnames : table.names = before.map Macro.name ++ m.name :: after.map Macro.name := by
      rw [Table.names, h, List.map_append, List.map_cons]
    have hm : m ∈ table.entries := by simp [h]
    have hbehind : ∀ k, left after k = [] ↔ k ∈ after.map Macro.name ∧ table.Resolves k :=
      ih (before ++ [m]) (by simp [h])
    rw [left]
    split
    case isTrue heq =>
      subst heq
      -- the macro is the only one of its name, so it leads to what its value mentions
      have hleads : ∀ k, table.Leads m.name k ↔ k ∈ Formula.mentions m.value := by
        intro k
        refine ⟨?_, fun hk => ⟨m, hm, rfl, hk⟩⟩
        rintro ⟨entry, hentry, hname, hk⟩
        rwa [List.inj_on_of_nodup_map hnodup hentry hm hname] at hk
      have hpair : ∀ k, [m.name, k].Sublist table.names ↔ k ∈ after.map Macro.name := by
        rw [hnames] at hnodup ⊢
        exact fun k => pair_sublist_iff hnodup
      rw [List.flatMap_eq_nil_iff]
      constructor
      · refine fun hleft => ⟨List.mem_cons_self, fun k hreach j hj => ?_⟩
        rcases hreach.cases_head with rfl | ⟨i, hi, hreach⟩
        · exact (hpair j).mpr ((hbehind j).mp (hleft j ((hleads j).mp hj))).1
        · exact ((hbehind i).mp (hleft i ((hleads i).mp hi))).2 k hreach j hj
      · rintro ⟨-, hresolves⟩ k hk
        have hlead := (hleads k).mpr hk
        refine (hbehind k).mpr ⟨(hpair k).mp (hresolves _ .refl k hlead), ?_⟩
        exact fun j hreach => hresolves j (.head hlead hreach)
    case isFalse hne =>
      rw [hbehind, List.map_cons, List.mem_cons, or_iff_right hne]

/-- What substituting leaves of a text whose names the table holds: no delimiter, exactly if every
macro that the names reach comes ahead of those in its own value. -/
theorem not_delimiter_infix_substitute_iff {table : Table} (hnodup : table.names.Nodup)
    (hmacros : ∀ m ∈ table.entries, IsFindable m.name ∧ IsBounded m.value) {marks : List Mark}
    (h : Mark.Parted true marks) (hnames : marks.filterMap Mark.name? ⊆ table.names) :
    ¬ delimiter <:+: table.substitute (marks.flatMap Mark.written) ↔
      ∀ n ∈ marks.filterMap Mark.name?, table.Resolves n := by
  obtain ⟨hwritten, hparted⟩ := substitute_written hmacros h
  rw [hwritten, Mark.delimiter_infix_iff hparted, not_not, names_filled fun m hm => (hmacros m hm).2,
    List.flatMap_eq_nil_iff]
  refine forall₂_congr fun n hn => ?_
  rw [left_eq_nil_iff_of_append hnodup [] table.entries rfl]
  exact and_iff_right (hnames hn)

/-! ## Sizes -/

theorem parted_joined {components : List (List Mark)}
    (h : ∀ component ∈ components, Mark.Parted true component) :
    Mark.Parted true (joined components) := by
  have hbehind : ∀ more : List (List Mark), (∀ component ∈ more, Mark.Parted true component) →
      Mark.Parted false (more.flatMap (.plain [','] :: ·)) := by
    intro more
    induction more with
    | nil => exact fun _ => trivial
    | cons component more ih =>
      intro h
      obtain ⟨hfirst, hmore⟩ := List.forall_mem_cons.mp h
      rw [List.flatMap_cons, List.cons_append]
      exact ⟨by decide, hfirst.append (ih hmore)⟩
  cases components with
  | nil => trivial
  | cons component more =>
    obtain ⟨hfirst, hmore⟩ := List.forall_mem_cons.mp h
    exact hfirst.append (hbehind more hmore)

theorem names_joined (components : List (List Mark)) :
    (joined components).filterMap Mark.name? = components.flatten.filterMap Mark.name? := by
  have hbehind : ∀ more : List (List Mark),
      (more.flatMap (.plain [','] :: ·)).filterMap Mark.name? =
        more.flatten.filterMap Mark.name? := by
    intro more
    induction more with
    | nil => rfl
    | cons component more ih =>
      rw [List.flatMap_cons, List.flatten_cons, List.filterMap_append, List.filterMap_append, ih]
      rfl
  cases components with
  | nil => rfl
  | cons component more =>
    rw [joined, List.filterMap_append, hbehind, List.flatten_cons, List.filterMap_append]

namespace Collector

theorem parted_marks (collector : Collector) {component : Text} (h : '#' ∉ component)
    (hgroup : ∀ group, collector.formulaGroup = some group → '#' ∉ group) :
    Mark.Parted true (collector.marks component) := by
  unfold marks
  split
  · exact ⟨h, trivial⟩
  · split
    · exact ⟨rfl, h, trivial⟩
    · cases hg : collector.formulaGroup with
      | none => exact Formula.parted_marks h
      | some group => exact ⟨rfl, hash_not_mem_generatedName (hgroup group hg) _, trivial⟩

theorem parted_marksOf (collector : Collector) {components : List Text}
    (h : ∀ component ∈ components, '#' ∉ component)
    (hgroup : ∀ group, collector.formulaGroup = some group → '#' ∉ group) :
    ∀ marks ∈ collector.marksOf components, Mark.Parted true marks := by
  induction components generalizing collector with
  | nil => simp [marksOf]
  | cons component more ih =>
    obtain ⟨hfirst, hmore⟩ := List.forall_mem_cons.mp h
    rw [marksOf]
    refine List.forall_mem_cons.mpr ⟨collector.parted_marks hfirst hgroup, ih _ hmore ?_⟩
    rwa [formulaGroup_next]

end Collector

namespace Sizing

theorem written_joined (sizing : Sizing) :
    sizing.written = (joined sizing.marks).flatMap Mark.written :=
  (flatMap_joined rfl).symm

theorem not_mem_component {sizing : Sizing} {c : Char} (h : c ∉ sizing.size) {component : Text}
    (hc : component ∈ sizing.components) : c ∉ component := by
  obtain ⟨piece, hpiece, rfl⟩ := List.mem_map.mp hc
  exact fun hmem => h (mem_of_mem_piecesBetween hpiece (mem_of_mem_trim hmem))

theorem parted_joined (sizing : Sizing) (h : '#' ∉ sizing.size)
    (hgroup : ∀ group, sizing.collector.formulaGroup = some group → '#' ∉ group) :
    Mark.Parted true (joined sizing.marks) :=
  Macro.parted_joined
    (sizing.collector.parted_marksOf (fun _ hc => sizing.not_mem_component h hc) hgroup)

end Sizing

/-! ## Texts of a source -/

theorem Formula.written_of_mentions_eq_nil {t : Text} (h : mentions t = []) : written t = t := by
  induction t using wordInduction with
  | nil => rfl
  | other c r hc ih =>
    rw [mentions_other hc] at h
    rw [written_other hc, ih h]
  | word w r hne hw hr ih =>
    rw [mentions_word hne hw hr] at h
    obtain ⟨hword, hrest⟩ := List.append_eq_nil_iff.mp h
    have hmention : isMention w = false := by
      cases hm : isMention w with
      | true => simp [hm] at hword
      | false => rfl
    rw [written_word hne hw hr, hmention, if_neg Bool.false_ne_true, ih hrest]

theorem Definition.isBounded_ofText (name : Text) {value : Text} (h : '#' ∉ value) :
    IsBounded (ofText name value).value := by
  refine ⟨trim value, fun hmem => h (mem_of_mem_trim hmem), ?_⟩
  cases hn : isNumeric (trim value) with
  | true =>
    simpa [ofText, hn] using (Formula.written_of_mentions_eq_nil (mentions_of_isNumeric hn)).symm
  | false => simp [ofText, hn]

/-- A component that is nothing, a number, an identifier or a formula. -/
def isRegular (component : Text) : Bool :=
  component.isEmpty || isNumeric component || isIdentifier component ||
    component.any Formula.isOperator

/-- A size without delimiters whose components are of these kinds. -/
structure IsPlain (size : Text) : Prop where
  hash : '#' ∉ size
  regular : ∀ component ∈ (splitOn ',' size).map trim, isRegular component = true

theorem all_of_mem_mentions {t n : Text} (h : n ∈ Formula.mentions t) :
    n ≠ [] ∧ n.all isIdentifierCharacter = true := by
  induction t using Formula.wordInduction with
  | nil => cases h
  | other c r hc ih => exact ih (Formula.mentions_other hc r ▸ h)
  | word w r hne hw hr ih =>
    rw [Formula.mentions_word hne hw hr] at h
    rcases List.mem_append.mp h with h | h
    · split at h
      · rw [List.mem_singleton.mp h]
        exact ⟨hne, hw⟩
      · cases h
    · exact ih h

theorem isFindable_of_mem_mentions {t n : Text} (h : n ∈ Formula.mentions t) : IsFindable n :=
  isFindable_of_all (all_of_mem_mentions h).1 (all_of_mem_mentions h).2

theorem isFindable_of_mem_mentionsOf {component n : Text} (h : isRegular component = true)
    (hn : n ∈ mentionsOf component) : IsFindable n := by
  unfold mentionsOf at hn
  split at hn
  case isTrue => cases hn
  case isFalse hplain =>
    split at hn
    case isTrue hbare =>
      rw [List.mem_singleton.mp hn]
      have hidentifier : isIdentifier component = true := by
        rw [Bool.not_eq_true'] at hbare
        simpa [isRegular, hbare, hplain] using h
      obtain ⟨c, r, rfl, -, hall⟩ := exists_of_isIdentifier hidentifier
      exact isFindable_of_all (List.cons_ne_nil c r) hall
    case isFalse => exact isFindable_of_mem_mentions hn

end StructTables.Macro

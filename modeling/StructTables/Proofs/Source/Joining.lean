import Mathlib.Data.List.Infix
import Mathlib.Data.List.SplitBy
import StructTables.Proofs.Source

/-! # Joining lines

Whether a logical line goes on is asked of what has been joined so far. To ask it of the last physical
line instead gives the same lines, but for an empty line that is joined to a text with one more backslash:
the empty line does not go on, and what has been joined does. -/

namespace StructTables.Source
open Text

variable {lead line : Text} {ls more : List Text}

theorem exists_of_continues (h : continues line = true) : ∃ front, line = front ++ ['\\'] := by
  obtain ⟨front, hfront⟩ := List.isSuffixOf_iff_suffix.mp h
  exact ⟨front, hfront.symm⟩

theorem continues_concat (t : Text) : continues (t ++ ['\\']) = true :=
  endsWith_append_singleton t '\\' '\\'

theorem continues_append (lead : Text) (h : line ≠ []) :
    continues (lead ++ line) = continues line := by
  rcases line.eq_nil_or_concat with rfl | ⟨front, last, rfl⟩
  · exact absurd rfl h
  · rw [List.concat_eq_append, ← List.append_assoc, continues, continues, endsWith_append_singleton,
      endsWith_append_singleton]

/-! ## Logical lines -/

theorem joinedFrom_ne_nil (pending : Text) (more : List Text) : joinedFrom pending more ≠ [] := by
  induction more generalizing pending with
  | nil => exact List.cons_ne_nil _ _
  | cons next more ih =>
    rw [joinedFrom]
    split
    · exact ih _
    · exact List.cons_ne_nil _ _

/-- No logical line but the last goes on. -/
theorem continues_of_mem_joined : ∀ line ∈ (joined ls).dropLast, continues line = false := by
  have hfrom : ∀ (more : List Text) (pending : Text),
      ∀ line ∈ (joinedFrom pending more).dropLast, continues line = false := by
    intro more
    induction more with
    | nil => exact fun _ _ hline => (List.not_mem_nil hline).elim
    | cons next more ih =>
      intro pending
      rw [joinedFrom]
      split
      case isTrue => exact ih _
      case isFalse hends =>
        rw [List.dropLast_cons_of_ne_nil (joinedFrom_ne_nil next more)]
        exact List.forall_mem_cons.mpr ⟨by simpa using hends, ih next⟩
  cases ls with
  | nil => exact fun _ hline => (List.not_mem_nil hline).elim
  | cons line more => exact hfrom more line

/-! ## Groups of physical lines -/

/-- Lines in groups, each of which goes on behind a line that ends in a backslash and nowhere else. -/
def groups (ls : List Text) : List (List Text) := ls.splitBy fun line _ => continues line

/-- The line that a group makes: all its lines but the last lose the backslash at their end. -/
def groupLine : List Text → Text
  | [] => []
  | [line] => line
  | line :: more => line.dropLast ++ groupLine more

/-- Lines that are joined by what each of them ends in. -/
def groupedLines (ls : List Text) : List Text := (groups ls).map groupLine

theorem groupedLines_cons (h : continues line = false) (more : List Text) :
    groupedLines (line :: more) = line :: groupedLines more := by
  have hgroups : groups (line :: more) = [line] :: groups more :=
    List.splitBy_append (l := [line]) (by simp [h])
  rw [groupedLines, hgroups]
  rfl

theorem groups_cons_of_continues (h : continues line = true) (hmore : more ≠ []) :
    ∃ group rest, group ≠ [] ∧ groups more = group :: rest ∧
      groups (line :: more) = (line :: group) :: rest := by
  obtain ⟨group, rest, hgroups⟩ := List.exists_cons_of_ne_nil (List.splitBy_ne_nil.mpr hmore)
  obtain ⟨hflatten, hnil, hchain, hparted⟩ := List.splitBy_eq_iff.mp hgroups
  have hgroup : group ≠ [] := fun hempty => hnil (hempty ▸ List.mem_cons_self)
  refine ⟨group, rest, hgroup, hgroups, List.splitBy_eq_iff.mpr ⟨?_, ?_, ?_, ?_⟩⟩
  · rw [hflatten]
    rfl
  · simpa using fun hempty => hnil (List.mem_cons_of_mem _ hempty)
  · obtain ⟨hfirst, hrest⟩ := List.forall_mem_cons.mp hchain
    exact List.forall_mem_cons.mpr ⟨hfirst.cons fun _ _ => h, hrest⟩
  · refine hparted.tail.cons fun second hsecond => ?_
    obtain ⟨_, hhead, hends⟩ := (List.isChain_cons.mp hparted).1 second hsecond
    refine ⟨List.cons_ne_nil _ _, hhead, ?_⟩
    rw [List.getLast_cons hgroup]
    exact hends

theorem groupedLines_cons_of_continues (h : continues line = true) (hmore : more ≠ []) :
    groupedLines (line :: more) = (groupedLines more).modifyHead (line.dropLast ++ ·) := by
  obtain ⟨group, rest, hgroup, hgroups, hwith⟩ := groups_cons_of_continues h hmore
  obtain ⟨second, others, rfl⟩ := List.exists_cons_of_ne_nil hgroup
  rw [groupedLines, groupedLines, hgroups, hwith]
  rfl

theorem groupedLines_ne_nil (hmore : more ≠ []) : groupedLines more ≠ [] := by
  rw [groupedLines, ne_eq, List.map_eq_nil_iff]
  exact List.splitBy_ne_nil.mpr hmore

/-! ## One way of joining and the other -/

/-- The lines of groups, with a text ahead of the first. -/
def groupedBehind (lead : Text) (ls : List Text) : List Text :=
  (groupedLines ls).modifyHead (lead ++ ·)

theorem groupedBehind_nil (ls : List Text) : groupedBehind [] ls = groupedLines ls :=
  congrFun List.modifyHead_id _

theorem groupedBehind_singleton (lead line : Text) : groupedBehind lead [line] = [lead ++ line] := rfl

theorem groupedBehind_cons (lead : Text) (h : continues line = false) (more : List Text) :
    groupedBehind lead (line :: more) = (lead ++ line) :: groupedLines more := by
  rw [groupedBehind, groupedLines_cons h]
  rfl

theorem groupedBehind_cons_of_continues (lead : Text) (h : continues line = true) (hmore : more ≠ []) :
    groupedBehind lead (line :: more) = groupedBehind (lead ++ line.dropLast) more := by
  rw [groupedBehind, groupedLines_cons_of_continues h hmore, List.modifyHead_modifyHead, groupedBehind]
  simp only [Function.comp_def, List.append_assoc]

/-- The two agree as long as no group but the last makes a line that would go on. -/
theorem joinedFrom_eq_groupedBehind
    (h : ∀ l ∈ (groupedBehind lead (line :: more)).dropLast, continues l = false) :
    joinedFrom (lead ++ line) more = groupedBehind lead (line :: more) := by
  induction more generalizing lead line with
  | nil => rfl
  | cons next more ih =>
    have hmore : next :: more ≠ [] := List.cons_ne_nil _ _
    rw [joinedFrom]
    cases hline : continues line with
    | true =>
      obtain ⟨front, rfl⟩ := exists_of_continues hline
      have hne : front ++ ['\\'] ≠ [] := List.append_ne_nil_of_right_ne_nil _ (List.cons_ne_nil _ _)
      rw [groupedBehind_cons_of_continues lead hline hmore] at h ⊢
      rw [if_pos (by rw [continues_append lead hne, hline]), List.dropLast_append_of_ne_nil hne]
      exact ih h
    | false =>
      rw [groupedBehind_cons lead hline, List.dropLast_cons_of_ne_nil (groupedLines_ne_nil hmore)] at h
      obtain ⟨hends, hrest⟩ := List.forall_mem_cons.mp h
      have hbehind := @ih [] next (by rwa [groupedBehind_nil])
      rw [List.nil_append, groupedBehind_nil] at hbehind
      rw [groupedBehind_cons lead hline, if_neg (by simp [hends]), hbehind]

theorem joined_eq_groupedLines_iff_ends :
    joined ls = groupedLines ls ↔ ∀ line ∈ (groupedLines ls).dropLast, continues line = false := by
  constructor
  · intro h
    rw [← h]
    exact continues_of_mem_joined
  · intro h
    cases ls with
    | nil => rfl
    | cons line more =>
      rw [← groupedBehind_nil] at h ⊢
      exact joinedFrom_eq_groupedBehind h

/-! ## Empty lines that go on -/

/-- An empty line and another one behind it, with no lines ahead of them but single backslashes. -/
def ReachesEmpty (ls : List Text) : Prop :=
  ∃ next behind, ls.dropWhile (· == ['\\']) = [] :: next :: behind

/-- A line with a second backslash ahead of the one that it loses, and behind it, once lines that have
nothing to leave are joined, an empty line that is not the last. -/
def JoinsEmpty (line : Text) (more : List Text) : Prop :=
  endsWith line ['\\', '\\'] = true ∧ ReachesEmpty more

theorem reachesEmpty_marker : ReachesEmpty (['\\'] :: ls) ↔ ReachesEmpty ls := by
  rw [ReachesEmpty, List.dropWhile_cons_of_pos rfl, ReachesEmpty]

theorem reachesEmpty_cons (h : line ≠ ['\\']) :
    ReachesEmpty (line :: ls) ↔ line = [] ∧ ls ≠ [] := by
  rw [ReachesEmpty, List.dropWhile_cons_of_neg (by simpa using h)]
  cases ls <;> simp

theorem reachesEmpty_of_continues (h : continues line = true) :
    ReachesEmpty (line :: ls) ↔ line = ['\\'] ∧ ReachesEmpty ls := by
  by_cases hmarker : line = ['\\']
  · rw [hmarker, reachesEmpty_marker]
    simp
  · have hempty : line ≠ [] := by
      rintro rfl
      cases h
    simp [reachesEmpty_cons hmarker, hempty, hmarker]

theorem not_reachesEmpty_singleton (line : Text) : ¬ ReachesEmpty [line] := by
  rintro ⟨next, behind, hdrop⟩
  have hlength := (List.dropWhile_sublist (l := [line]) (p := (· == ['\\']))).length_le
  simp [hdrop] at hlength

/-- Behind which line of a list something holds of it and of the lines that follow. -/
theorem exists_suffix_cons_iff (line : Text) (more : List Text) {P : Text → List Text → Prop} :
    (∃ l rest, l :: rest <:+ line :: more ∧ P l rest) ↔
      P line more ∨ ∃ l rest, l :: rest <:+ more ∧ P l rest := by
  constructor
  · rintro ⟨l, rest, hsuffix, hP⟩
    rcases List.suffix_cons_iff.mp hsuffix with hsame | hsuffix
    · obtain ⟨rfl, rfl⟩ := List.cons.inj hsame
      exact .inl hP
    · exact .inr ⟨l, rest, hsuffix, hP⟩
  · rintro (hP | ⟨l, rest, hsuffix, hP⟩)
    · exact ⟨line, more, List.suffix_refl _, hP⟩
    · exact ⟨l, rest, List.suffix_cons_iff.mpr (.inr hsuffix), hP⟩

theorem continues_of_endsWith (h : endsWith line ['\\', '\\'] = true) : continues line = true := by
  have hmarker : ['\\'] <:+ ['\\', '\\'] := List.suffix_cons _ _
  exact List.isSuffixOf_iff_suffix.mpr (hmarker.trans (List.isSuffixOf_iff_suffix.mp h))

theorem not_joinsEmpty_of_ends (h : continues line = false) (more : List Text) :
    ¬ JoinsEmpty line more := fun hjoins => by
  rw [continues_of_endsWith hjoins.1] at h
  cases h

/-- What a line leaves to the next one goes on if a second backslash stands ahead of the one it loses, or
if it leaves nothing. -/
theorem continues_append_dropLast (lead : Text) (h : continues line = true) :
    continues (lead ++ line.dropLast) = true ↔
      endsWith line ['\\', '\\'] = true ∨ line = ['\\'] ∧ continues lead = true := by
  obtain ⟨front, rfl⟩ := exists_of_continues h
  rw [List.dropLast_concat]
  rcases front.eq_nil_or_concat with rfl | ⟨start, last, rfl⟩
  · simp [endsWith, List.isSuffixOf, List.isPrefixOf]
  · have hlong : start ++ [last] ++ ['\\'] ≠ ['\\'] := fun h => by
      simpa using congrArg List.length h
    rw [List.concat_eq_append, continues_append lead (by simp), continues, endsWith_append_singleton,
      or_iff_left fun hshort => hlong hshort.1]
    simp [endsWith, List.isSuffixOf, List.isPrefixOf]

theorem continues_append_of_ends (lead : Text) (h : continues line = false) :
    continues (lead ++ line) = true ↔ line = [] ∧ continues lead = true := by
  by_cases hempty : line = []
  · simp [hempty]
  · rw [continues_append lead hempty, h]
    simp [hempty]

/-- A group makes a line that would go on where an empty line is joined behind a second backslash: in the
group itself, or ahead of it in a text that it is joined to. -/
theorem exists_continues_groupedBehind_iff (lead line : Text) (more : List Text) :
    (∃ l ∈ (groupedBehind lead (line :: more)).dropLast, continues l = true) ↔
      (∃ l rest, l :: rest <:+ line :: more ∧ JoinsEmpty l rest) ∨
        continues lead = true ∧ ReachesEmpty (line :: more) := by
  induction more generalizing lead line with
  | nil =>
    have hjoins : ¬ JoinsEmpty line [] := fun ⟨_, _, _, hdrop⟩ => by cases hdrop
    rw [groupedBehind_singleton, exists_suffix_cons_iff]
    simp [not_reachesEmpty_singleton, hjoins]
  | cons next more ih =>
    have hmore : next :: more ≠ [] := List.cons_ne_nil _ _
    cases hline : continues line with
    | true =>
      -- what the line leaves becomes part of the text ahead, which then may have the backslash
      rw [groupedBehind_cons_of_continues lead hline hmore, ih, continues_append_dropLast lead hline,
        reachesEmpty_of_continues hline, exists_suffix_cons_iff line (next :: more), or_and_right,
        JoinsEmpty]
      rw [or_left_comm, or_assoc, and_assoc, and_left_comm]
    | false =>
      -- a new group begins behind the line, with nothing ahead of it
      have hmarker : line ≠ ['\\'] := by
        rintro rfl
        cases hline
      have hbehind := ih [] next
      rw [groupedBehind_nil] at hbehind
      rw [groupedBehind_cons lead hline, List.dropLast_cons_of_ne_nil (groupedLines_ne_nil hmore),
        List.exists_mem_cons_iff, hbehind, continues_append_of_ends lead hline,
        exists_suffix_cons_iff line (next :: more), reachesEmpty_cons hmarker]
      simp only [not_joinsEmpty_of_ends hline, hmore, false_or, ne_eq, not_false_eq_true, and_true,
        show continues [] = false from rfl, Bool.false_eq_true, false_and, or_false]
      rw [or_comm, and_comm]

/-- Lines are joined as each of them says, unless an empty one that is not the last is joined to a text
with another backslash at its end. Otherwise they stay as they are. -/
theorem logicalLines_eq_groupedLines_iff (content : Text) :
    let physical := (lines content).map trim
    (logicalLines true content = groupedLines physical ↔
        ¬ ∃ line more, line :: more <:+ physical ∧ JoinsEmpty line more) ∧
      logicalLines false content = physical := by
  intro physical
  refine ⟨?_, rfl⟩
  show joined physical = groupedLines physical ↔ _
  rw [joined_eq_groupedLines_iff_ends, ← not_iff_not, not_not]
  cases physical with
  | nil => simp [groupedLines, groups]
  | cons line more =>
    have hexists := exists_continues_groupedBehind_iff [] line more
    rw [groupedBehind_nil, show continues [] = false from rfl] at hexists
    simpa using hexists

/-- The first of two backslashes takes an empty line on to the next. -/
theorem logicalLines_ne_groupedLines :
    let content := "a\\\\\n\nb".toList
    logicalLines true content = ["ab".toList] ∧
      groupedLines ((lines content).map trim) = ["a\\".toList, "b".toList] := by
  decide +kernel

end StructTables.Source

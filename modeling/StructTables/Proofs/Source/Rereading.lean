import StructTables.Proofs.Source.Joining

/-! # Logical lines read again

Lines are trimmed before they are joined and not behind that. One that ends in a blank once it has lost
its backslash leaves the blank to the logical line, unless more than empty lines are joined to it. All other
logical lines are trimmed, and they are read again as they are. -/

namespace StructTables.Source
open Text

variable {pending line : Text} {ls more : List Text}

/-! ## Numbers of lines -/

theorem length_joinedFrom_le (pending : Text) (more : List Text) :
    (joinedFrom pending more).length ≤ more.length + 1 := by
  induction more generalizing pending with
  | nil => exact Nat.le_refl _
  | cons next more ih =>
    rw [joinedFrom]
    split
    · exact Nat.le_succ_of_le (ih _)
    · exact Nat.succ_le_succ (ih next)

/-- Where no line is lost, none has been joined. -/
theorem joined_of_length (h : (joined ls).length = ls.length) : joined ls = ls := by
  cases ls with
  | nil => rfl
  | cons line more =>
    rw [joined] at h ⊢
    induction more generalizing line with
    | nil => rfl
    | cons next more ih =>
      rw [joinedFrom] at h ⊢
      split at h
      case isTrue hline =>
        have hle := length_joinedFrom_le (line.dropLast ++ next) more
        simp only [List.length_cons] at h
        omega
      case isFalse hline => rw [if_neg hline, ih next (Nat.succ.inj h)]

/-- Logical lines are read again as they are if they are trimmed, and not otherwise. -/
theorem logicalLines_again_iff (joining : Bool) (content : Text) :
    logicalLines joining ((logicalLines joining content).flatMap (· ++ ['\n'])) =
        logicalLines joining content ↔
      ∀ line ∈ logicalLines joining content, trim line = line := by
  have hlines := lines_flatMap_newline (oneLine_logicalLines joining content)
  generalize hlogical : logicalLines joining content = logical at hlines ⊢
  have htrimmed : logical.map trim = logical ↔ ∀ line ∈ logical, trim line = line := by
    simpa using List.map_inj_left (l := logical) (f := trim) (g := id)
  rw [← htrimmed, logicalLines, hlines]
  cases joining with
  | false => rfl
  | true =>
    show joined (logical.map trim) = logical ↔ _
    constructor
    · intro hagain
      -- as many lines come back as there are, so no two of them have been joined
      have hlength : (joined (logical.map trim)).length = (logical.map trim).length := by
        rw [hagain, List.length_map]
      rwa [joined_of_length hlength] at hagain
    · intro hmap
      rw [hmap]
      exact joined_eq_self (hlogical ▸ continues_of_mem_joined)

/-! ## The front of a line -/

theorem trimStart_dropLast {t : Text} (h : trimStart t = t) : trimStart t.dropLast = t.dropLast := by
  rcases t.eq_nil_or_concat with rfl | ⟨front, last, rfl⟩
  · rfl
  · rw [List.concat_eq_append] at h ⊢
    rw [List.dropLast_concat]
    cases front with
    | nil => rfl
    | cons c r => exact trimStart_eq_self_iff.mpr fun d hd => trimStart_eq_self_iff.mp h d hd

theorem trimStart_of_mem_logicalLines (joining : Bool) (content : Text) :
    ∀ line ∈ logicalLines joining content, trimStart line = line := by
  have hphysical : ∀ line ∈ (lines content).map trim, trimStart line = line := by
    intro line hline
    obtain ⟨physical, -, rfl⟩ := List.mem_map.mp hline
    exact trimStart_trim physical
  cases joining with
  | true =>
    exact forall_mem_joined
      (fun _ _ hpending hline => trimStart_append (trimStart_dropLast hpending) hline) hphysical
  | false => exact hphysical

/-! ## The end of a line -/

/-- The first of the lines are nothing but backslashes and use up so many ahead of them: each line takes one
away when it is joined and adds those of its own. -/
def UsesUp (count : Nat) (ls : List Text) : Prop :=
  ∃ taken, taken <+: ls ∧ (∀ line ∈ taken, ∀ c ∈ line, c = '\\') ∧
    taken.length = count + taken.flatten.length

/-- A line with a blank ahead of the backslashes at its end, and lines that use these up. -/
def LeavesBlank (line : Text) (more : List Text) : Prop :=
  ∃ front c count, line = front ++ c :: List.replicate count '\\' ∧ isBlank c = true ∧
    UsesUp count more

theorem usesUp_zero (ls : List Text) : UsesUp 0 ls :=
  ⟨[], List.nil_prefix, fun _ h => (List.not_mem_nil h).elim, rfl⟩

theorem not_usesUp_nil (count : Nat) : ¬ UsesUp (count + 1) [] := by
  rintro ⟨taken, htaken, -, hlength⟩
  rw [List.prefix_nil.mp htaken] at hlength
  simp at hlength

theorem usesUp_cons {count : Nat} :
    UsesUp (count + 1) (line :: more) ↔
      (∀ c ∈ line, c = '\\') ∧ UsesUp (count + line.length) more := by
  constructor
  · rintro ⟨taken, htaken, hmarkers, hlength⟩
    rcases List.prefix_cons_iff.mp htaken with rfl | ⟨rest, rfl, hrest⟩
    · simp at hlength
    · obtain ⟨hline, hmarkers⟩ := List.forall_mem_cons.mp hmarkers
      refine ⟨hline, rest, hrest, hmarkers, ?_⟩
      simp only [List.length_cons, List.flatten_cons, List.length_append] at hlength
      omega
  · rintro ⟨hline, taken, htaken, hmarkers, hlength⟩
    refine ⟨line :: taken, List.cons_prefix_cons.mpr ⟨rfl, htaken⟩,
      List.forall_mem_cons.mpr ⟨hline, hmarkers⟩, ?_⟩
    simp only [List.length_cons, List.flatten_cons, List.length_append]
    omega

theorem trimEnd_ne_self_iff {t : Text} :
    trimEnd t ≠ t ↔ ∃ front c, t = front ++ [c] ∧ isBlank c = true := by
  rcases t.eq_nil_or_concat with rfl | ⟨start, last, rfl⟩
  · simp [trimEnd]
  · simp [trimEnd_eq_self_iff]

theorem leavesBlank_nil : LeavesBlank line [] ↔ trimEnd line ≠ line := by
  rw [trimEnd_ne_self_iff]
  constructor
  · rintro ⟨front, c, count, rfl, hc, huses⟩
    cases count with
    | zero => exact ⟨front, c, rfl, hc⟩
    | succ count => exact absurd huses (not_usesUp_nil count)
  · rintro ⟨front, c, rfl, hc⟩
    exact ⟨front, c, 0, rfl, hc, usesUp_zero []⟩

theorem leavesBlank_of_ends (h : continues line = false) (more : List Text) :
    LeavesBlank line more ↔ trimEnd line ≠ line := by
  rw [trimEnd_ne_self_iff]
  constructor
  · rintro ⟨front, c, count, rfl, hc, huses⟩
    cases count with
    | zero => exact ⟨front, c, rfl, hc⟩
    | succ count =>
      rw [List.replicate_succ', ← List.cons_append, ← List.append_assoc, continues_concat] at h
      cases h
  · rintro ⟨front, c, rfl, hc⟩
    exact ⟨front, c, 0, rfl, hc, usesUp_zero more⟩

/-- Where the last character that is no backslash stands, of one text behind another. -/
theorem append_eq_marked_iff {s t front : Text} {c : Char} {count : Nat} :
    s ++ t = front ++ c :: List.replicate count '\\' ↔
      (∃ r, t = r ++ c :: List.replicate count '\\' ∧ front = s ++ r) ∨
        (∀ d ∈ t, d = '\\') ∧ ∃ n, s = front ++ c :: List.replicate n '\\' ∧
          count = n + t.length := by
  rw [List.append_eq_append_iff]
  constructor
  · rintro (⟨r, hfront, ht⟩ | ⟨r, hs, hmarked⟩)
    · exact .inl ⟨r, ht, hfront⟩
    · cases r with
      | nil => exact .inl ⟨[], hmarked.symm, by simpa using hs.symm⟩
      | cons d r =>
        obtain ⟨rfl, hreplicate⟩ := List.cons.inj hmarked
        obtain ⟨hlength, hr, ht⟩ := List.append_eq_replicate_iff.mp hreplicate.symm
        refine .inr ⟨List.eq_replicate_iff.mp ht |>.2, r.length, ?_, hlength.symm⟩
        rw [← hr]
        exact hs
  · rintro (⟨r, ht, hfront⟩ | ⟨ht, n, hs, hcount⟩)
    · exact .inl ⟨r, hfront, ht⟩
    · refine .inr ⟨c :: List.replicate n '\\', hs, ?_⟩
      rw [List.cons_append, hcount, List.replicate_add, ← List.eq_replicate_iff.mpr ⟨rfl, ht⟩]

/-- A line that is joined to another leaves a blank if one of the two does. -/
theorem leavesBlank_joined (h : continues pending = true) :
    LeavesBlank (pending.dropLast ++ line) more ↔
      LeavesBlank pending (line :: more) ∨ LeavesBlank line more := by
  obtain ⟨start, rfl⟩ := exists_of_continues h
  rw [List.dropLast_concat]
  constructor
  · rintro ⟨front, c, count, hmarked, hc, huses⟩
    rcases append_eq_marked_iff.mp hmarked with ⟨r, hline, -⟩ | ⟨hline, n, hstart, rfl⟩
    · exact .inr ⟨r, c, count, hline, hc, huses⟩
    · refine .inl ⟨front, c, n + 1, ?_, hc, usesUp_cons.mpr ⟨hline, huses⟩⟩
      rw [hstart, List.replicate_succ', List.append_assoc, List.cons_append]
  · rintro (⟨front, c, count, hpending, hc, huses⟩ | ⟨front, c, count, hline, hc, huses⟩)
    · cases count with
      | zero =>
        have hmarker : '\\' = c := by simpa using congrArg List.getLast? hpending
        rw [← hmarker] at hc
        cases hc
      | succ n =>
        obtain ⟨hline, huses⟩ := usesUp_cons.mp huses
        refine ⟨front, c, n + line.length, append_eq_marked_iff.mpr (.inr ⟨hline, n, ?_, rfl⟩), hc, huses⟩
        rw [List.replicate_succ', ← List.cons_append, ← List.append_assoc] at hpending
        exact List.append_cancel_right hpending
    · exact ⟨start ++ front, c, count, by rw [hline, List.append_assoc], hc, huses⟩

theorem exists_untrimmed_joinedFrom_iff :
    (∃ l ∈ joinedFrom pending more, trimEnd l ≠ l) ↔
      ∃ l rest, l :: rest <:+ pending :: more ∧ LeavesBlank l rest := by
  induction more generalizing pending with
  | nil =>
    rw [joinedFrom, exists_suffix_cons_iff, leavesBlank_nil]
    simp
  | cons next more ih =>
    rw [joinedFrom, exists_suffix_cons_iff pending]
    split
    case isTrue hpending =>
      rw [ih, exists_suffix_cons_iff, exists_suffix_cons_iff, leavesBlank_joined hpending, or_assoc]
    case isFalse hpending =>
      rw [Bool.not_eq_true] at hpending
      rw [List.exists_mem_cons_iff, ih, leavesBlank_of_ends hpending]

theorem trim_logicalLines_iff (joining : Bool) (content : Text) :
    (∀ line ∈ logicalLines joining content, trim line = line) ↔
      ¬ (joining = true ∧ ∃ line more, line :: more <:+ (lines content).map trim ∧
        LeavesBlank line more) := by
  cases joining with
  | false =>
    have hphysical : ∀ line ∈ (lines content).map trim, trim line = line := by
      intro line hline
      obtain ⟨physical, -, rfl⟩ := List.mem_map.mp hline
      exact trim_trim physical
    exact iff_of_true hphysical (by simp)
  | true =>
    have hfront := trimStart_of_mem_logicalLines true content
    have hend : (∀ line ∈ logicalLines true content, trim line = line) ↔
        ¬ ∃ line ∈ logicalLines true content, trimEnd line ≠ line := by
      simp only [ne_eq, not_exists, not_and, not_not]
      refine forall₂_congr fun line hline => ?_
      rw [trim, hfront line hline]
    rw [hend, not_iff_not, eq_self, true_and]
    show (∃ line ∈ joined ((lines content).map trim), _) ↔ _
    cases (lines content).map trim with
    | nil => simp [joined]
    | cons line more => exact exists_untrimmed_joinedFrom_iff

/-- Logical lines begin with no blank, and none but the last goes on. They are trimmed, and are read again
as they are, unless a line that loses its backslash leaves a blank behind. -/
theorem logicalLines_settled (joining : Bool) (content : Text) :
    let logical := logicalLines joining content
    (∀ line ∈ logical, trimStart line = line) ∧
      (∀ line ∈ logical.dropLast, (joining && continues line) = false) ∧
      ((∀ line ∈ logical, trim line = line) ↔
        ¬ (joining = true ∧ ∃ line more, line :: more <:+ (lines content).map trim ∧
          LeavesBlank line more)) ∧
      (logicalLines joining (logical.flatMap (· ++ ['\n'])) = logical ↔
        ∀ line ∈ logical, trim line = line) := by
  refine ⟨trimStart_of_mem_logicalLines joining content, fun line hline => ?_,
    trim_logicalLines_iff joining content, logicalLines_again_iff joining content⟩
  cases joining with
  | false => rfl
  | true => exact continues_of_mem_joined line hline

/-- A blank that a backslash hides from trimming is left with an empty line behind it. -/
theorem logicalLines_untrimmed :
    let content := "a \\\n\nb".toList
    let logical := logicalLines true content
    logical = ["a ".toList, "b".toList] ∧ trim "a ".toList = "a".toList ∧
      logicalLines true (logical.flatMap (· ++ ['\n'])) = ["a".toList, "b".toList] := by
  decide +kernel

end StructTables.Source

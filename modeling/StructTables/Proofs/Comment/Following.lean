import StructTables.Proofs.Comment.BlockEnd

/-! # Behind a comment

Whether a block is open behind a line is decided by the first comment on it: the code ahead of that
comment and blanks around the line make no difference. The lines that a comment is read over leave no
block open, unless one of them has a `/*/`. -/

namespace StructTables.Comment
open Text

/-! ## On one line -/

theorem openAfter_of_not_begins {c : Char} {r : Text} (h : begins (c :: r) = false) :
    openAfter false (c :: r) = openAfter false r := by
  rw [openAfter]
  · rintro s - hc hr
    cases hc
    subst hr
    simp [begins, beginsBlock, startsWith, List.isPrefixOf] at h
  · rintro s - hc hr
    cases hc
    subst hr
    simp [begins, beginsLine, startsWith, List.isPrefixOf] at h
  · rintro s hopen
    cases hopen

theorem openAfter_cut (t : Text) : openAfter false (cut t).2 = openAfter false t := by
  induction t with
  | nil => rfl
  | cons c r ih =>
    rw [cut]
    split
    case isTrue => rfl
    case isFalse h => rw [openAfter_of_not_begins (by simpa using h), ← ih]

theorem cut_comment_cases (t : Text) : (cut t).2 = [] ∨ begins (cut t).2 = true := by
  induction t with
  | nil => exact .inl rfl
  | cons c r ih =>
    rw [cut]
    split
    case isTrue h => exact .inr h
    case isFalse => exact ih

theorem openAfter_cons_of_isBlank {c : Char} (h : isBlank c = true) (isOpen : Bool) (r : Text) :
    openAfter isOpen (c :: r) = openAfter isOpen r := by
  rw [openAfter] <;> rintro s - hc <;> subst hc <;> cases h

theorem openAfter_of_all_isBlank {t : Text} (h : ∀ c ∈ t, isBlank c = true) (isOpen : Bool) :
    openAfter isOpen t = isOpen := by
  induction t with
  | nil => cases isOpen <;> rfl
  | cons c r ih =>
    obtain ⟨hc, hr⟩ := List.forall_mem_cons.mp h
    rw [openAfter_cons_of_isBlank hc, ih hr]

theorem openAfter_append_of_isBlank {trail : Text} (h : ∀ c ∈ trail, isBlank c = true)
    (isOpen : Bool) (t : Text) : openAfter isOpen (t ++ trail) = openAfter isOpen t := by
  have hblank : ∀ {c : Char} {r : Text}, c :: r = trail → isBlank c = true := by
    intro c r heq
    exact h c (heq ▸ List.mem_cons_self)
  fun_induction openAfter isOpen t with
  | case1 r ih => exact ih
  | case2 r => rfl
  | case3 r ih => exact ih
  | case4 isOpen c r hblock hline hend ih =>
    rw [List.cons_append, openAfter, ih]
    -- what would be a delimiter has its second character among the blanks
    all_goals
      rintro s hopen rfl heq
      cases r with
      | nil => cases hblank heq.symm
      | cons d r =>
        obtain rfl := (List.cons.inj heq).1
        first
        | exact hblock _ hopen rfl rfl
        | exact hline _ hopen rfl rfl
        | exact hend _ hopen rfl rfl
  | case5 isOpen => exact openAfter_of_all_isBlank h isOpen

theorem openAfter_trim (isOpen : Bool) (t : Text) :
    openAfter isOpen (trim t) = openAfter isOpen t := by
  obtain ⟨lead, trail, ht, hlead, htrail⟩ := exists_trim_append t
  have hdrop : ∀ s : Text, openAfter isOpen (lead ++ s) = openAfter isOpen s := by
    intro s
    clear ht
    induction lead with
    | nil => rfl
    | cons c more ih =>
      obtain ⟨hc, hmore⟩ := List.forall_mem_cons.mp hlead
      rw [List.cons_append, openAfter_cons_of_isBlank hc, ih hmore]
  calc openAfter isOpen (trim t)
      = openAfter isOpen (lead ++ trim t) := (hdrop _).symm
    _ = openAfter isOpen (lead ++ trim t ++ trail) := (openAfter_append_of_isBlank htrail _ _).symm
    _ = openAfter isOpen t := by rw [← ht]

theorem openAfter_of_beginsLine {t : Text} (h : beginsLine t = true) : openAfter false t = false := by
  obtain ⟨r, rfl⟩ : ['/', '/'] <+: t := List.isPrefixOf_iff_prefix.mp h
  rfl

/-! ## Over the lines of a comment -/

theorem foldl_openAfter_of_beginsLine {rows : List Text}
    (h : ∀ row ∈ rows, beginsLine (trim row) = true) : rows.foldl openAfter false = false := by
  induction rows with
  | nil => rfl
  | cons row more ih =>
    obtain ⟨hrow, hmore⟩ := List.forall_mem_cons.mp h
    rw [List.foldl_cons, ← openAfter_trim, openAfter_of_beginsLine hrow, ih hmore]

/-- A block that is read to its end is closed there, whatever was open at its beginning. If it ends on
the line on which it begins, there is no line left to close it. -/
theorem foldl_openAfter_of_block {opening : Text} {below : List Text} {isOpen : Bool}
    (hb : beginsBlock (trim opening) = true)
    (hends : endsBlock (trim opening) = true → isOpen = false)
    (hno : ∀ row ∈ below, ¬ ['/', '*', '/'] <:+: row)
    (hlt : (read opening below).taken < below.length) :
    (below.take (read opening below).taken).foldl openAfter isOpen = false := by
  have htaken : (read opening below).taken =
      min ((opening :: below).findIdx fun line => endsBlock (trim line)) below.length :=
    taken_read_block hb
  generalize (read opening below).taken = taken at htaken hlt ⊢
  have hidx : (opening :: below).findIdx (fun line => endsBlock (trim line)) = taken := by omega
  have hbound : (opening :: below).findIdx (fun line => endsBlock (trim line)) <
      (opening :: below).length := by
    rw [hidx, List.length_cons]
    omega
  have hfound := List.findIdx_getElem (w := hbound)
  simp only [hidx] at hfound
  cases taken with
  | zero => exact hends hfound
  | succ n =>
    have hn : n < below.length := by omega
    rw [List.take_succ_eq_append_getElem hn, List.foldl_append]
    exact openAfter_of_endsBlock _ hfound (hno _ (List.getElem_mem hn))

/-- The lines of any comment leave no block open if its own line leaves none. -/
theorem foldl_openAfter_of_closed {opening : Text} {below : List Text}
    (hno : ∀ row ∈ below, ¬ ['/', '*', '/'] <:+: row)
    (hlt : (read opening below).taken < below.length) :
    (below.take (read opening below).taken).foldl openAfter false = false := by
  cases hb : beginsBlock (trim opening) with
  | true => exact foldl_openAfter_of_block hb (fun _ => rfl) hno hlt
  | false =>
    cases hl : beginsLine (trim opening) with
    | true =>
      have htake : below.take (read opening below).taken =
          below.takeWhile fun line => beginsLine (trim line) := by
        simp only [read, continuation, hl, if_true]
        exact (List.prefix_iff_eq_take.mp (List.takeWhile_prefix _)).symm
      rw [htake]
      exact foldl_openAfter_of_beginsLine (List.all_eq_true.mp List.all_takeWhile)
    | false => simp [read, continuation, hb, hl]

end StructTables.Comment

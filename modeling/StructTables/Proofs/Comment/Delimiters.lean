import StructTables.Comment

/-! # Following the delimiters

What the state at the end of a line (`Comment.openAfter`) owes to the delimiters on it: a text without
a star opens nothing, and a `*/` closes, unless its star has just opened the block. -/

namespace StructTables.Comment
open Text

theorem not_infix_of_append {mark s r : Text} (h : ¬ mark <:+: s ++ r) : ¬ mark <:+: r :=
  fun hi => h (hi.trans (List.suffix_append s r).isInfix)

theorem beginsLine_eq_false {t : Text} (h : beginsBlock t = true) : beginsLine t = false := by
  rcases t with _ | ⟨c, _ | ⟨d, r⟩⟩
  · rfl
  · simp [beginsBlock, startsWith] at h
  · simp only [beginsBlock, startsWith, List.isPrefixOf, Bool.and_eq_true, beq_iff_eq] at h
    simp [beginsLine, startsWith, List.isPrefixOf, ← h.2.1]

theorem openAfter_of_no_star {t : Text} (h : '*' ∉ t) : openAfter false t = false := by
  generalize hs : false = isOpen
  fun_induction openAfter isOpen t with
  | case1 r ih => simp at h
  | case2 => rfl
  | case3 r ih => cases hs
  | case4 isOpen c r _ _ _ ih =>
    subst hs
    exact ih (fun hr => h (List.mem_cons_of_mem _ hr)) rfl
  | case5 => rfl

/-- A text in which no block begins opens none. -/
theorem openAfter_of_no_block {t : Text} (h : ¬ ['/', '*'] <:+: t) : openAfter false t = false := by
  generalize hs : false = isOpen
  fun_induction openAfter isOpen t with
  | case1 r ih => exact absurd ⟨[], r, rfl⟩ h
  | case2 => rfl
  | case3 r ih => cases hs
  | case4 isOpen c r _ _ _ ih =>
    subst hs
    exact ih (not_infix_of_append (s := [c]) h) rfl
  | case5 => rfl

theorem beginsBlock_of_no_block {t : Text} (h : ¬ ['/', '*'] <:+: t) : beginsBlock t = false := by
  refine Bool.eq_false_iff.mpr fun hb => h ?_
  exact (List.isPrefixOf_iff_prefix.mp hb).isInfix

/-- A `*/` with no star behind it closes, whatever was open ahead of the text, unless it overlaps
with an opening. -/
theorem openAfter_append_end (isOpen : Bool) (before after : Text) (hafter : '*' ∉ after)
    (hno : ¬ ['/', '*', '/'] <:+: before ++ '*' :: '/' :: after) :
    openAfter isOpen (before ++ '*' :: '/' :: after) = false := by
  generalize ht : before ++ '*' :: '/' :: after = t at hno ⊢
  fun_induction openAfter isOpen t generalizing before with
  | case1 r ih =>
    rcases before with _ | ⟨b, _ | ⟨d, before⟩⟩
    · simp at ht
    · -- the star of the end is the one that opens
      obtain ⟨rfl, rfl⟩ : b = '/' ∧ '/' :: after = r := by simpa using ht
      exact absurd ⟨[], after, rfl⟩ hno
    · have hr : before ++ '*' :: '/' :: after = r := (List.cons.inj (List.cons.inj ht).2).2
      exact ih before hr (not_infix_of_append (s := ['/', '*']) hno)
  | case2 => rfl
  | case3 r ih =>
    rcases before with _ | ⟨b, _ | ⟨d, before⟩⟩
    · obtain rfl : after = r := by simpa using ht
      exact openAfter_of_no_star hafter
    · simp at ht
    · have hr : before ++ '*' :: '/' :: after = r := (List.cons.inj (List.cons.inj ht).2).2
      exact ih before hr (not_infix_of_append (s := ['*', '/']) hno)
  | case4 isOpen c r _ _ hend ih =>
    rcases before with _ | ⟨b, before⟩
    · obtain ⟨rfl, rfl⟩ : '*' = c ∧ '/' :: after = r := by simpa using ht
      cases isOpen with
      | true => exact (hend after rfl rfl rfl).elim
      | false => exact openAfter_of_no_star (by simpa using hafter)
    · exact ih before (List.cons.inj ht).2 (not_infix_of_append (s := [c]) hno)
  | case5 => simp at ht

/-! ## Texts ahead of a comment -/

theorem begins_cons_eq_false {c : Char} (h : c ≠ '/') (r : Text) : begins (c :: r) = false := by
  simp [begins, beginsBlock, beginsLine, startsWith, List.isPrefixOf, Ne.symm h]

theorem cut_append {before : Text} (h : '/' ∉ before) (r : Text) :
    cut (before ++ r) = (before ++ (cut r).1, (cut r).2) := by
  induction before with
  | nil => rfl
  | cons c more ih =>
    obtain ⟨hc, hmore⟩ := List.ne_and_not_mem_of_not_mem_cons h
    rw [List.cons_append, cut, begins_cons_eq_false (Ne.symm hc), if_neg Bool.false_ne_true,
      ih hmore]
    rfl

theorem code_append {before : Text} (h : '/' ∉ before) (r : Text) :
    code (before ++ r) = before ++ code r := by
  rw [code, cut_append h]
  rfl

theorem code_eq_self {t : Text} (h : '/' ∉ t) : code t = t := by
  have hcode := code_append h []
  rwa [show code [] = [] from rfl, List.append_nil] at hcode

theorem openAfter_append_of_no_slash {before : Text} (h : '/' ∉ before) (r : Text) :
    openAfter false (before ++ r) = openAfter false r := by
  induction before with
  | nil => rfl
  | cons c more ih =>
    obtain ⟨hc, hmore⟩ := List.ne_and_not_mem_of_not_mem_cons h
    rw [List.cons_append, openAfter, ih hmore]
    all_goals simp [Ne.symm hc]

theorem openAfter_append_of_no_star {before : Text} (h : '*' ∉ before) (r : Text) :
    openAfter true (before ++ r) = openAfter true r := by
  induction before with
  | nil => rfl
  | cons c more ih =>
    obtain ⟨hc, hmore⟩ := List.ne_and_not_mem_of_not_mem_cons h
    rw [List.cons_append, openAfter, ih hmore]
    all_goals simp [Ne.symm hc]

end StructTables.Comment

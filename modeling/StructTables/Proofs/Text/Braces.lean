import StructTables.Proofs.Text.Cutting

/-! # Braces

How deep a text stands in braces, and when a closing brace belongs to the first opening brace of the
text ahead of it: exactly if every other brace of that text is closed within it. -/

namespace StructTables.Text

/-- How many more braces a text opens than it closes. -/
def depth (t : Text) : Int := t.count '{' - t.count '}'

@[simp] theorem depth_nil : depth [] = 0 := rfl

@[simp] theorem depth_append (s t : Text) : depth (s ++ t) = depth s + depth t := by
  simp only [depth, List.count_append, Int.natCast_add]
  omega

@[simp] theorem depth_cons_opening (t : Text) : depth ('{' :: t) = depth t + 1 := by
  simp [depth]
  omega

@[simp] theorem depth_closing : depth ['}'] = -1 := by decide

theorem depth_of_not_mem {t : Text} (h : '{' ∉ t) : depth t = -(t.count '}' : Int) := by
  simp [depth, List.count_eq_zero.mpr h]

/-- The braces of a text match each other. -/
def isBalanced (t : Text) : Prop := depth t = 0 ∧ ∀ s, s <+: t → 0 ≤ depth s

/-- A closing brace behind the text closes the first brace that the text opens: from that brace on the
depth is positive, and behind the closing brace it is zero. -/
def closesFirst (t : Text) : Prop :=
  '{' ∈ t ∧ (∀ s, s <+: t → '{' ∈ s → 0 < depth s) ∧ depth (t ++ ['}']) = 0

/-- The first brace of the text is an opening one, and every block opened behind it is closed again. -/
def closesOthers (t : Text) : Prop :=
  ∃ lead inside, t = lead ++ '{' :: inside ∧ '{' ∉ lead ∧ '}' ∉ lead ∧ isBalanced inside

/-- The first brace of the rows is an opening one, and every row closes the blocks that it opens behind
that one. -/
def rowsCloseOthers (rows : List Text) : Prop :=
  ∃ above lead tail below, rows = above ++ (lead ++ '{' :: tail) :: below ∧
    (∀ row ∈ above, '{' ∉ row ∧ '}' ∉ row) ∧ '{' ∉ lead ∧ '}' ∉ lead ∧ isBalanced tail ∧
    ∀ row ∈ below, isBalanced row

/-! ## Balanced texts -/

theorem isBalanced_nil : isBalanced [] :=
  ⟨rfl, fun s hs => by simp [List.prefix_nil.mp hs]⟩

theorem isBalanced.append {s t : Text} (hs : isBalanced s) (ht : isBalanced t) :
    isBalanced (s ++ t) := by
  refine ⟨by simp [hs.1, ht.1], fun r hr => ?_⟩
  rcases prefix_append_cases hr with hfirst | ⟨r', rfl, hsecond⟩
  · exact hs.2 r hfirst
  · simpa [hs.1] using ht.2 r' hsecond

theorem isBalanced_flatten {rows : List Text} (h : ∀ row ∈ rows, isBalanced row) :
    isBalanced rows.flatten := by
  induction rows with
  | nil => exact isBalanced_nil
  | cons row more ih =>
    obtain ⟨hrow, hmore⟩ := List.forall_mem_cons.mp h
    exact hrow.append (ih hmore)

/-! ## Closing the first brace -/

variable {lead inside : Text}

theorem closesFirst_of_balanced (ho : '{' ∉ lead) (hc : '}' ∉ lead) (h : isBalanced inside) :
    closesFirst (lead ++ '{' :: inside) := by
  have hlead : depth lead = 0 := by simp [depth_of_not_mem ho, List.count_eq_zero.mpr hc]
  refine ⟨by simp, fun s hs hmem => ?_, by simp [hlead, h.1]⟩
  rcases prefix_append_cases hs with hahead | ⟨r, rfl, hbehind⟩
  · exact absurd (hahead.subset hmem) ho
  · cases r with
    | nil => exact absurd (by simpa using hmem) ho
    | cons c r =>
      obtain ⟨rfl, hinside⟩ := List.cons_prefix_cons.mp hbehind
      have hle := h.2 r hinside
      simp only [depth_append, hlead, depth_cons_opening]
      omega

/-- A closing brace behind a text closes its first brace exactly if the text closes all the others. -/
theorem closesFirst_iff {t : Text} : closesFirst t ↔ closesOthers t := by
  constructor
  · rintro ⟨hmem, hpos, hzero⟩
    obtain ⟨lead, inside, rfl, ho⟩ := List.eq_append_cons_of_mem hmem
    have hfirst := hpos (lead ++ ['{']) (by simp) (by simp)
    have hc : lead.count '}' = 0 := by
      simp only [depth_append, depth_of_not_mem ho, depth_cons_opening, depth_nil] at hfirst
      omega
    have hlead : depth lead = 0 := by simp [depth_of_not_mem ho, hc]
    refine ⟨lead, inside, rfl, ho, List.count_eq_zero.mp hc, ?_, fun s hs => ?_⟩
    · simp only [depth_append, depth_cons_opening, depth_closing, hlead] at hzero
      omega
    · have hdepth := hpos (lead ++ '{' :: s) (by simpa using hs) (by simp)
      simp only [depth_append, depth_cons_opening, hlead] at hdepth
      omega
  · rintro ⟨lead, inside, rfl, ho, hc, h⟩
    exact closesFirst_of_balanced ho hc h

theorem closesFirst_of_rows {rows : List Text} (h : rowsCloseOthers rows) :
    closesFirst rows.flatten := by
  obtain ⟨above, lead, tail, below, rfl, habove, ho, hc, htail, hbelow⟩ := h
  have hsplit : (above ++ (lead ++ '{' :: tail) :: below).flatten =
      (above.flatten ++ lead) ++ '{' :: (tail ++ below.flatten) := by simp
  rw [hsplit]
  refine closesFirst_of_balanced ?_ ?_ (htail.append (isBalanced_flatten hbelow))
  · simpa [ho] using fun row hrow => (habove row hrow).1
  · simpa [hc] using fun row hrow => (habove row hrow).2

end StructTables.Text

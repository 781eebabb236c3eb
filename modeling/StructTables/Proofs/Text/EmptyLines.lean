import Mathlib.Data.List.Basic
import StructTables.Proofs.Text.Trim

/-! # Lines with empty lines between them

Two lists of lines that differ in empty lines at most have the same lines that are not empty. What does
not depend on empty lines is therefore shown by leaving them out on both sides. -/

namespace StructTables.Text

/-- The lines that are not empty. -/
def withoutEmpty (lines : List Text) : List Text := lines.filter (! ·.isEmpty)

@[simp] theorem withoutEmpty_nil : withoutEmpty [] = [] := rfl

@[simp] theorem withoutEmpty_cons_nil (lines : List Text) :
    withoutEmpty ([] :: lines) = withoutEmpty lines := rfl

theorem withoutEmpty_cons {line : Text} (h : line ≠ []) (lines : List Text) :
    withoutEmpty (line :: lines) = line :: withoutEmpty lines :=
  List.filter_cons_of_pos (by simpa using h)

theorem withoutEmpty_append (lines more : List Text) :
    withoutEmpty (lines ++ more) = withoutEmpty lines ++ withoutEmpty more :=
  List.filter_append _ _

@[simp] theorem withoutEmpty_withoutEmpty (lines : List Text) :
    withoutEmpty (withoutEmpty lines) = withoutEmpty lines := by
  simp [withoutEmpty]

theorem length_withoutEmpty_le (lines : List Text) : (withoutEmpty lines).length ≤ lines.length :=
  List.length_filter_le _ _

theorem mem_of_mem_withoutEmpty {line : Text} {lines : List Text} (h : line ∈ withoutEmpty lines) :
    line ∈ lines :=
  (List.mem_filter.mp h).1

/-- The second list is the first with any number of empty lines put in anywhere. -/
inductive Spaced : List Text → List Text → Prop
  | nil : Spaced [] []
  | line (line : Text) {lines spaced : List Text} :
    Spaced lines spaced → Spaced (line :: lines) (line :: spaced)
  | empty {lines spaced : List Text} : Spaced lines spaced → Spaced lines ([] :: spaced)

theorem Spaced.withoutEmpty_eq {lines spaced : List Text} (h : Spaced lines spaced) :
    withoutEmpty spaced = withoutEmpty lines := by
  induction h with
  | nil => rfl
  | line line _ ih => rw [withoutEmpty, withoutEmpty, List.filter_cons, List.filter_cons, ← withoutEmpty,
      ← withoutEmpty, ih]
  | empty _ ih => rw [withoutEmpty_cons_nil, ih]

theorem Spaced.trimmed {lines spaced : List Text} (h : Spaced lines spaced)
    (htrim : ∀ line ∈ lines, trim line = line) : ∀ line ∈ spaced, trim line = line := by
  induction h with
  | nil => exact htrim
  | line line _ ih =>
    obtain ⟨hline, hmore⟩ := List.forall_mem_cons.mp htrim
    exact List.forall_mem_cons.mpr ⟨hline, ih hmore⟩
  | empty _ ih => exact List.forall_mem_cons.mpr ⟨rfl, ih htrim⟩

/-- What is dropped from a list at its beginning may be dropped from a part of it again. -/
theorem dropWhile_filter_dropWhile {α : Type} (p q : α → Bool) (l : List α) :
    ((l.dropWhile p).filter q).dropWhile p = (l.filter q).dropWhile p := by
  induction l with
  | nil => rfl
  | cons x more ih =>
    by_cases hp : p x = true
    · rw [List.dropWhile_cons_of_pos hp, ih, List.filter_cons]
      split
      · rw [List.dropWhile_cons_of_pos hp]
      · rfl
    · rw [List.dropWhile_cons_of_neg hp]

end StructTables.Text

import StructTables.Proofs.Outline.BlockState
import StructTables.Proofs.Outline.Segment

/-! # What stands ahead of an opening line

An opening line is read outside of structures or within one that is open. Only in the second case is
it looked at whether a body follows. Without comments the first case is that of an opening line with no
other one between it and the closing line above. -/

namespace StructTables.Outline
open Text Comment

/-- The place behind some lines, with others below them. -/
def Place.after (place : Place) (number : Nat) (below : List Text) : List Text → Place
  | [] => place
  | line :: more => (place.next number line (more ++ below)).after (number + 1) below more

/-- The structure of a region is open ahead of the lines, or one of the lines leads into it. -/
theorem exists_ahead {number : Nat} {place : Place} {lines : List Text} {region : Region}
    {opening : Opening} (h : region ∈ regionsFrom number place lines)
    (ho : region.opening? = some opening) :
    (∃ body isOpen, place = .inside opening body isOpen) ∨
    ∃ before line after, lines = before ++ line :: after ∧
      opening.line = number + before.length ∧
      (place.after number (line :: after) before).next opening.line line after =
        .behind opening.form opening.name opening.line line := by
  induction lines generalizing number place with
  | nil =>
    match place with
    | .inside other body isOpen =>
      obtain rfl := List.mem_singleton.mp h
      cases ho
      exact .inl ⟨body, isOpen, rfl⟩
    | .outside => cases h
    | .comment => cases h
  | cons line below ih =>
    rcases mem_regionsFrom_cons h with hregion | hrest
    · exact .inl (Place.eq_inside_of_region? hregion ho)
    · rcases ih hrest with ⟨body, isOpen, hnext⟩ | ⟨before, first, after, rfl, hnumber, hleads⟩
      -- a line behind which the structure is open belongs to its body, or is its opening line
      · rcases Place.next_eq_inside hnext with ⟨ahead, was, rfl, -⟩ | ⟨-, hnumber, -, rfl, rfl⟩
        · exact .inl ⟨ahead, was, rfl⟩
        · refine .inr ⟨[], line, below, rfl, hnumber, ?_⟩
          rw [hnumber]
          exact hnumber ▸ hnext
      · refine .inr ⟨line :: before, first, after, rfl, ?_, hleads⟩
        rw [hnumber, List.length_cons]
        omega

section OneLine

variable {place : Place} {number : Nat} {line : Text} {below : List Text}

/-- In place of an open structure only one with a body is opened. -/
theorem Place.eq_outside_or_opensBody {form : Form} {name : Text} {other : Nat}
    (h : place.next number line below = .behind form name other line) :
    place = .outside ∨ opensBody line below = true := by
  match place with
  | .comment =>
    simp only [Place.next] at h
    split at h <;> cases h
  | .outside => exact .inl rfl
  | .inside opening body true =>
    obtain ⟨-, hbody, -⟩ := Place.inside.inj h
    simp at hbody
  | .inside opening body false =>
    simp only [Place.next] at h
    split at h
    case isTrue => cases h
    case isFalse =>
      split at h
      case h_1 found hr => exact .inr (Option.filter_eq_some_iff.mp hr).2
      case h_2 =>
        obtain ⟨-, hbody, -⟩ := Place.inside.inj h
        simp at hbody

/-- Only a closing line leads out of a structure. -/
theorem Place.eq_outside_of_next (hplace : place.blockOpen = false) (hc : closes line = false)
    (h : place.next number line below = .outside) : place = .outside ∧ opening? line = none := by
  match place with
  | .comment => cases hplace
  | .outside =>
    simp only [Place.next] at h
    split at h
    case h_1 => cases h
    case h_2 ho => exact ⟨rfl, ho⟩
  | .inside opening body true => cases hplace
  | .inside opening body false =>
    simp only [Place.next, hc, Bool.false_eq_true, if_false] at h
    split at h <;> cases h

theorem Place.blockOpen_next_of_free (hplace : place.blockOpen = false)
    (hline : openAfter false line = false) :
    (place.next number line below).blockOpen = false := by
  have hfollowed : (Step.mk place false line).isFollowed = true := by
    simp [Step.isFollowed, hline]
  rw [blockOpen_next hplace hfollowed, hline]

end OneLine

/-- Outside of structures no opening line stands behind the last closing line. The invariant of the run
is that no block is open; and where no line closes, nothing was open to begin with. -/
theorem opening?_eq_none_of_outside {lines : List Text}
    (hfree : ∀ line ∈ lines, openAfter false line = false) {place : Place} {number : Nat}
    {below : List Text} (hplace : place.blockOpen = false)
    (h : place.after number below lines = .outside) :
    (∀ row ∈ (segments lines).2, opening? row = none) ∧
      ((∀ row ∈ lines, closes row = false) → place = .outside) := by
  induction lines generalizing place number with
  | nil => exact ⟨List.forall_mem_nil _, fun _ => h⟩
  | cons line more ih =>
    obtain ⟨hline, hmore⟩ := List.forall_mem_cons.mp hfree
    obtain ⟨hrest, hout⟩ := ih hmore (Place.blockOpen_next_of_free hplace hline) h
    have hfirst : closes line = false → (∀ row ∈ more, closes row = false) →
        place = .outside ∧ opening? line = none := fun hc hcs =>
      Place.eq_outside_of_next hplace hc (hout hcs)
    refine ⟨?_, fun hcs => (hfirst (hcs line List.mem_cons_self) (List.forall_mem_cons.mp hcs).2).1⟩
    rcases segments_cases more with ⟨hs, hcs⟩ | ⟨first, closing, rest, -, -, -, hs⟩
    · rw [hs] at hrest
      cases hc : closes line with
      | true => simpa [segments, hc, hs] using hrest
      | false => simpa [segments, hc, hs] using ⟨(hfirst hc hcs).2, hrest⟩
    · rw [hs] at hrest
      cases hc : closes line <;> simpa [segments, hc, hs] using hrest

end StructTables.Outline

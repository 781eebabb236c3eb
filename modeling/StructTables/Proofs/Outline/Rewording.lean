import Mathlib.Data.List.Forall2
import StructTables.Proofs.Comment.Code
import StructTables.Proofs.Outline.BlockState

/-! # Comments in other words

The outline reads the code of a line, and which block comments begin and end on it. So it stays as it
is where comments are put in other words: the same structures are opened, given up and closed, each at
the same line. -/

namespace StructTables.Outline
open Text Comment

/-! ## Opening and closing lines are told by their code -/

theorem afterTypedef?_code (line : Text) :
    afterTypedef? (code line) = (afterTypedef? line).map code := by
  have hslash : '/' ∉ typedefKeyword := by decide
  rw [afterTypedef?, afterTypedef?, startsWith_code hslash]
  cases hstarts : startsWith line typedefKeyword with
  | false => rfl
  | true =>
    obtain ⟨r, rfl⟩ : typedefKeyword <+: line := List.isPrefixOf_iff_prefix.mp hstarts
    rw [code_append hslash, List.drop_left, List.drop_left]
    cases r with
    | nil => rfl
    | cons c r =>
      rcases code_cons_cases c r with ⟨rfl, h⟩ | h
      · rw [h]
        rfl
      · rw [h]
        cases hc : isBlank c <;> simp [hc, code_trimStart]

theorem code_cutName (t : Text) : code (cutName t).2 = (cutName (code t)).2 := by
  cases t with
  | nil => rfl
  | cons c r =>
    rcases code_cons_cases c r with ⟨rfl, h⟩ | h
    · rw [h]
      exact h
    · rw [h, cutName, cutName]
      split
      · rw [code_dropWhile rfl, h]
      · exact h

theorem code_afterTag (t : Text) : code (afterTag t) = afterTag (code t) := by
  cases t with
  | nil => rfl
  | cons c r =>
    rcases code_cons_cases c r with ⟨rfl, h⟩ | h
    · rw [h]
      exact h
    · rw [h, afterTag, afterTag]
      split
      · rw [code_cutName, code_trimStart]
      · exact h

theorem opensTypedef_code (line : Text) : opensTypedef (code line) = opensTypedef line := by
  have hslash : '/' ∉ structKeyword := by decide
  rw [opensTypedef, opensTypedef, afterTypedef?_code]
  cases afterTypedef? line with
  | none => rfl
  | some rest =>
    dsimp only [Option.map_some]
    rw [startsWith_code hslash]
    cases hstruct : startsWith rest structKeyword with
    | false => rfl
    | true =>
      obtain ⟨r, rfl⟩ : structKeyword <+: rest := List.isPrefixOf_iff_prefix.mp hstruct
      have hbehind : trimStart (dropOne '{' (trimStart (afterTag (code r)))) =
          code (trimStart (dropOne '{' (trimStart (afterTag r)))) := by
        rw [code_trimStart, code_dropOne (by decide), code_trimStart, code_afterTag]
      rw [code_append hslash, List.drop_left, List.drop_left, hbehind, begins_code, isEmpty_code,
        Bool.or_false]

theorem opening?_code (line : Text) : opening? (code line) = opening? line := by
  rw [opening?, opening?, opensTypedef_code, code_code]

theorem closes_code (line : Text) : closes (code line) = closes line := startsWith_code (by decide) line

/-! ## Rewordings -/

/-- Lines with the same code, on which blocks begin and end alike: they differ in the words of their
comments at most. -/
structure IsRewording (line other : Text) : Prop where
  code_eq : code line = code other
  openAfter_eq (isOpen : Bool) : openAfter isOpen line = openAfter isOpen other
  hasEnd_eq : hasEnd line = hasEnd other

theorem IsRewording.refl (line : Text) : IsRewording line line := ⟨rfl, fun _ => rfl, rfl⟩

section OneLine

variable {line other : Text} {below others : List Text}

theorem IsRewording.opening?_eq (h : IsRewording line other) : opening? line = opening? other := by
  rw [← opening?_code line, h.code_eq, opening?_code]

theorem IsRewording.closes_eq (h : IsRewording line other) : closes line = closes other := by
  rw [← closes_code line, h.code_eq, closes_code]

/-- A line begins a block that it does not end exactly if it has no code and leaves a block open. -/
theorem beginsBlock_and_not_hasEnd (line : Text) :
    (beginsBlock line && !hasEnd line) =
      ((code line).isEmpty && openAfter false line && !hasEnd line) := by
  cases hend : hasEnd line with
  | true => simp
  | false =>
    rw [isEmpty_code, Bool.not_false, Bool.and_true, Bool.and_true]
    cases hb : beginsBlock line with
    | true => simp [begins, hb, openAfter_of_beginsBlock hb hend]
    | false =>
      cases hl : beginsLine line with
      | true => simp [openAfter_of_beginsLine hl]
      | false =>
        cases line with
        | nil => rfl
        | cons c r => simp [begins, hb, hl]

theorem IsRewording.beginsOpenBlock_eq (h : IsRewording line other) :
    (beginsBlock line && !hasEnd line) = (beginsBlock other && !hasEnd other) := by
  rw [beginsBlock_and_not_hasEnd, beginsBlock_and_not_hasEnd, h.code_eq, h.openAfter_eq, h.hasEnd_eq]

theorem firstCode?_reworded (h : List.Forall₂ IsRewording below others) :
    firstCode? below = firstCode? others := by
  induction h with
  | nil => rfl
  | cons hline _ ih =>
    rw [firstCode?, firstCode?] at ih ⊢
    rw [List.findSome?_cons, List.findSome?_cons, hline.code_eq, ih]

theorem reopening?_reworded (h : IsRewording line other)
    (hbelow : List.Forall₂ IsRewording below others) :
    reopening? line below = reopening? other others := by
  simp only [reopening?, opensBody, h.opening?_eq, h.code_eq, firstCode?_reworded hbelow]

end OneLine

/-! ## Places and regions -/

/-- The same place, behind lines whose comments are in other words. -/
inductive Place.Reworded : Place → Place → Prop
  | outside : Reworded .outside .outside
  | comment : Reworded .comment .comment
  | inside (opening : Opening) {body other : List Text} (isOpen : Bool) :
    List.Forall₂ IsRewording body other →
      Reworded (.inside opening body isOpen) (.inside opening other isOpen)

/-- The same region, with its comments in other words. -/
inductive Region.Reworded : Region → Region → Prop
  | outside {line other : Text} : IsRewording line other → Reworded (.outside line) (.outside other)
  | abandoned (opening : Opening) : Reworded (.abandoned opening) (.abandoned opening)
  | closed (opening : Opening) {body others : List Text} {closing other : Text} :
    List.Forall₂ IsRewording body others → IsRewording closing other →
      Reworded (.closed opening body closing) (.closed opening others other)
  | unclosed (opening : Opening) : Reworded (.unclosed opening) (.unclosed opening)

section Run

variable {place place' : Place} {line other : Text} {below others : List Text}

theorem Place.Reworded.next (hplace : place.Reworded place') (h : IsRewording line other)
    (hbelow : List.Forall₂ IsRewording below others) (number : Nat) :
    (place.next number line below).Reworded (place'.next number other others) := by
  cases hplace with
  | outside =>
    simp only [Place.next, ← h.opening?_eq, ← h.beginsOpenBlock_eq]
    split
    · rw [Place.behind, Place.behind, h.openAfter_eq]
      exact .inside _ _ .nil
    · split
      · exact .comment
      · exact .outside
  | comment =>
    simp only [Place.next, ← h.hasEnd_eq]
    split
    · exact .outside
    · exact .comment
  | inside opening isOpen hbody =>
    have happend := List.rel_append hbody (.cons h .nil)
    cases isOpen with
    | true =>
      simp only [Place.next, h.openAfter_eq]
      exact .inside opening _ happend
    | false =>
      simp only [Place.next, ← h.closes_eq, ← reopening?_reworded h hbelow]
      split
      · exact .outside
      · split
        · rw [Place.behind, Place.behind, h.openAfter_eq]
          exact .inside _ _ .nil
        · rw [h.openAfter_eq]
          exact .inside opening _ happend

theorem Place.Reworded.region? (hplace : place.Reworded place') (h : IsRewording line other)
    (hbelow : List.Forall₂ IsRewording below others) :
    List.Forall₂ Region.Reworded (place.region? line below).toList
      (place'.region? other others).toList := by
  cases hplace with
  | outside =>
    simp only [Place.region?, ← h.opening?_eq, ← h.beginsOpenBlock_eq]
    split
    · exact .nil
    · exact .cons (.outside h) .nil
  | comment => exact .nil
  | inside opening isOpen hbody =>
    cases isOpen with
    | true => exact .nil
    | false =>
      simp only [Place.region?, ← h.closes_eq, ← reopening?_reworded h hbelow]
      split
      · exact .cons (.closed opening hbody h) .nil
      · split
        · exact .cons (.abandoned opening) .nil
        · exact .nil

theorem regionsFrom_reworded {lines : List Text} (hplace : place.Reworded place')
    (h : List.Forall₂ IsRewording lines others) (number : Nat) :
    List.Forall₂ Region.Reworded (regionsFrom number place lines)
      (regionsFrom number place' others) := by
  induction h generalizing number place place' with
  | nil =>
    cases hplace with
    | outside => exact .nil
    | comment => exact .nil
    | inside opening => exact .cons (.unclosed opening) .nil
  | cons hline hmore ih =>
    rw [regionsFrom_cons, regionsFrom_cons]
    exact List.rel_append (hplace.region? hline hmore) (ih (hplace.next hline hmore number) _)

end Run

/-- The outline of the same lines with comments in other words is the same but for these words. -/
theorem regions_reworded {lines others : List Text}
    (h : List.Forall₂ IsRewording (brokenLines lines) (brokenLines others)) :
    List.Forall₂ Region.Reworded (regions lines) (regions others) :=
  regionsFrom_reworded .outside h 1

end StructTables.Outline

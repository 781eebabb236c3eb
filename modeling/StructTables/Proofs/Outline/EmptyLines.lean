import StructTables.Proofs.Outline.Trace
import StructTables.Proofs.Text.EmptyLines

/-! # Outlines without empty lines

An empty line opens nothing and closes nothing, and the look ahead for a brace passes it by. So empty
lines move the numbers of the lines below them, and stand in the bodies that they are put into; but for
that the outline stays as it is. -/

namespace StructTables.Outline
open Text Comment

/-! ## One line -/

theorem firstCode?_withoutEmpty (lines : List Text) :
    firstCode? (withoutEmpty lines) = firstCode? lines := by
  induction lines with
  | nil => rfl
  | cons line more ih =>
    rw [firstCode?, firstCode?] at ih ⊢
    by_cases h : line = []
    · rw [h, withoutEmpty_cons_nil, ih]
      rfl
    · rw [withoutEmpty_cons h, List.findSome?_cons, List.findSome?_cons, ih]

theorem reopening?_withoutEmpty (line : Text) (below : List Text) :
    reopening? line (withoutEmpty below) = reopening? line below := by
  simp only [reopening?, opensBody, firstCode?_withoutEmpty]

theorem brokenLine_trimmed {line : Text} (h : trim line = line) :
    ∀ part ∈ brokenLine line, trim part = part := by
  unfold brokenLine
  split
  · simpa using h
  · split
    · simpa using h
    · dsimp only
      split
      · simpa using h
      · split
        · simp [trim_trim]
        · split <;> simp [trim_trim]

/-- The lines that are not empty are broken in the same way, whatever stands between them. -/
theorem brokenLines_withoutEmpty (lines : List Text) :
    withoutEmpty (brokenLines (withoutEmpty lines)) = withoutEmpty (brokenLines lines) := by
  induction lines with
  | nil => rfl
  | cons line more ih =>
    rw [brokenLines, brokenLines] at ih ⊢
    by_cases h : line = []
    · rw [h, withoutEmpty_cons_nil, ih]
      rfl
    · rw [withoutEmpty_cons h, List.flatMap_cons, List.flatMap_cons, withoutEmpty_append,
        withoutEmpty_append, ih]

/-! ## Places and regions -/

/-- A region without the number of its opening line and the empty lines of its body. What defines and
declares nothing leaves no region: an empty line, and a structure that is given up. -/
def Region.condensed? : Region → Option Region
  | .outside line => if line.isEmpty then none else some (.outside line)
  | .closed opening body closing => some (.closed { opening with line := 0 } (withoutEmpty body) closing)
  | .abandoned _ => none
  | .unclosed _ => none

/-- Places that differ in the number of a line and in empty lines at most. -/
inductive Place.Alike : Place → Place → Prop
  | outside : Alike .outside .outside
  | comment : Alike .comment .comment
  | inside (form : Form) (name : Text) (n m : Nat) {body other : List Text} (isOpen : Bool) :
    withoutEmpty body = withoutEmpty other →
      Alike (.inside ⟨form, name, n⟩ body isOpen) (.inside ⟨form, name, m⟩ other isOpen)

namespace Place.Alike

variable {place other : Place}

/-- An empty line leads nowhere. -/
theorem next_empty (h : place.Alike other) (number : Nat) (below : List Text) :
    (place.next number [] below).Alike other := by
  cases h with
  | outside => exact .outside
  | comment => exact .comment
  | inside form name n m isOpen hbody =>
    have happend : ∀ body, withoutEmpty (body ++ [[]]) = withoutEmpty body := fun body => by
      rw [withoutEmpty_append, withoutEmpty_cons_nil, withoutEmpty_nil, List.append_nil]
    cases isOpen <;> exact .inside form name n m _ ((happend _).trans hbody)

theorem region?_empty (place : Place) (below : List Text) :
    (place.region? [] below).toList.filterMap Region.condensed? = [] := by
  match place with
  | .outside => rfl
  | .comment => rfl
  | .inside _ _ true => rfl
  | .inside _ _ false => rfl

theorem next (h : place.Alike other) (n m : Nat) (line : Text) (below : List Text) :
    (place.next n line below).Alike (other.next m line (withoutEmpty below)) := by
  cases h with
  | outside =>
    simp only [Place.next]
    split
    · exact .inside _ _ n m _ rfl
    · split
      · exact .comment
      · exact .outside
  | comment =>
    simp only [Place.next]
    split
    · exact .outside
    · exact .comment
  | inside form name k l isOpen hbody =>
    have happend := congrArg (· ++ withoutEmpty [line]) hbody
    simp only [← withoutEmpty_append] at happend
    cases isOpen with
    | true => exact .inside form name k l _ happend
    | false =>
      simp only [Place.next, reopening?_withoutEmpty]
      split
      · exact .outside
      · split
        · exact .inside _ _ n m _ rfl
        · exact .inside form name k l _ happend

theorem region? (h : place.Alike other) (line : Text) (below : List Text) :
    (place.region? line below).toList.filterMap Region.condensed? =
      (other.region? line (withoutEmpty below)).toList.filterMap Region.condensed? := by
  cases h with
  | outside => rfl
  | comment => rfl
  | inside form name n m isOpen hbody =>
    cases isOpen with
    | true => rfl
    | false =>
      simp only [Place.region?, reopening?_withoutEmpty]
      split
      · simp [Region.condensed?, hbody]
      · split <;> rfl

end Place.Alike

/-! ## Outlines -/

theorem condensed_regionsFrom {place other : Place} (h : place.Alike other) (n m : Nat)
    (lines : List Text) :
    (regionsFrom n place lines).filterMap Region.condensed? =
      (regionsFrom m other (withoutEmpty lines)).filterMap Region.condensed? := by
  induction lines generalizing n m place other with
  | nil => cases h <;> rfl
  | cons line below ih =>
    rw [regionsFrom_cons, List.filterMap_append]
    by_cases hline : line = []
    · subst hline
      rw [Place.Alike.region?_empty, List.nil_append, withoutEmpty_cons_nil]
      exact ih (h.next_empty n below) _ _
    · rw [withoutEmpty_cons hline, regionsFrom_cons, List.filterMap_append, h.region?]
      exact congrArg _ (ih (h.next n m line below) _ _)

/-- An outline depends on the lines that are not empty, but for the numbers of lines. -/
theorem condensed_regions (lines : List Text) :
    (regions lines).filterMap Region.condensed? =
      (regions (withoutEmpty lines)).filterMap Region.condensed? := by
  rw [regions, condensed_regionsFrom .outside 1 1 (brokenLines lines), ← brokenLines_withoutEmpty,
    ← condensed_regionsFrom .outside 1 1 (brokenLines (withoutEmpty lines)), regions]

theorem trimmed_body {lines : List Text} (htrim : ∀ line ∈ lines, trim line = line)
    {opening : Opening} {body : List Text} {closing : Text}
    (h : .closed opening body closing ∈ regions lines) : ∀ row ∈ body, trim row = row := by
  intro row hrow
  obtain ⟨span, hlines, rfl, -, -⟩ := exists_span h
  have hbroken : row ∈ brokenLines lines := by
    rw [← hlines, Span.lines]
    simp [hrow]
  obtain ⟨line, hline, hpart⟩ := List.mem_flatMap.mp hbroken
  exact brokenLine_trimmed (htrim line hline) row hpart

end StructTables.Outline

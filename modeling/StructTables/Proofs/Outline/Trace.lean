import StructTables.Outline.Region

/-! # The run over the lines

The outline goes over the lines once. Each line leads from one place to the next and completes at
most one region. A closed region is thus made of lines that follow each other: an opening line, lines
that stay in the body, and the first line that closes. -/

namespace StructTables.Outline
open Text Comment

/-! ## One line -/

/-- The place behind a line of the given number. -/
def Place.next (place : Place) (number : Nat) (line : Text) (below : List Text) : Place :=
  match place with
  | .comment => if hasEnd line then .outside else .comment
  | .outside =>
    match opening? line with
    | some (form, name) => .behind form name number line
    | none => if beginsBlock line && !hasEnd line then .comment else .outside
  | .inside opening body true => .inside opening (body ++ [line]) (openAfter true line)
  | .inside opening body false =>
    if closes line then .outside
    else
      match reopening? line below with
      | some (form, name) => .behind form name number line
      | none => .inside opening (body ++ [line]) (openAfter false line)

/-- Whether the outline takes a block comment to be open at a place. -/
def Place.blockOpen : Place → Bool
  | .outside => false
  | .comment => true
  | .inside _ _ isOpen => isOpen

/-- The region that ends with a line. -/
def Place.region? (place : Place) (line : Text) (below : List Text) : Option Region :=
  match place with
  | .comment => none
  | .outside =>
    if (opening? line).isSome || beginsBlock line && !hasEnd line then none
    else some (.outside line)
  | .inside _ _ true => none
  | .inside opening body false =>
    if closes line then some (.closed opening body line)
    else if (reopening? line below).isSome then some (.abandoned opening)
    else none

theorem regionsFrom_cons (number : Nat) (place : Place) (line : Text) (below : List Text) :
    regionsFrom number place (line :: below) =
      (place.region? line below).toList ++
        regionsFrom (number + 1) (place.next number line below) below := by
  match place with
  | .comment => rfl
  | .outside =>
    cases ho : opening? line with
    | some found => simp [regionsFrom, Place.region?, Place.next, ho]
    | none =>
      simp only [regionsFrom, Place.region?, Place.next, ho, Option.isSome_none, Bool.false_or]
      split <;> rfl
  | .inside opening body true => rfl
  | .inside opening body false =>
    cases hc : closes line with
    | true => simp [regionsFrom, Place.region?, Place.next, hc]
    | false =>
      cases hr : reopening? line below <;>
        simp [regionsFrom, Place.region?, Place.next, hc, hr]

theorem mem_regionsFrom_cons {number : Nat} {place : Place} {line : Text} {below : List Text}
    {region : Region} (h : region ∈ regionsFrom number place (line :: below)) :
    place.region? line below = some region ∨
      region ∈ regionsFrom (number + 1) (place.next number line below) below := by
  rw [regionsFrom_cons, List.mem_append, Option.mem_toList] at h
  exact h

theorem opening?_of_reopening? {line : Text} {below : List Text} {found : Form × Text}
    (h : reopening? line below = some found) : opening? line = some found :=
  (Option.filter_eq_some_iff.mp h).1

section Inversion

variable {place : Place} {number : Nat} {line : Text} {below : List Text} {opening : Opening}
  {body : List Text}

/-- A line that leads into a body either stays in it or opens the structure. -/
theorem Place.next_eq_inside {isOpen : Bool}
    (h : place.next number line below = .inside opening body isOpen) :
    (∃ ahead before, place = .inside opening ahead before ∧ body = ahead ++ [line] ∧
      isOpen = openAfter before line ∧
      (before = false → closes line = false ∧ reopening? line below = none)) ∨
    (opening? line = some (opening.form, opening.name) ∧ opening.line = number ∧
      place.blockOpen = false ∧ body = [] ∧ isOpen = openAfter false line) := by
  match place with
  | .comment =>
    simp only [Place.next] at h
    split at h <;> cases h
  | .outside =>
    simp only [Place.next] at h
    split at h
    case h_1 form name ho =>
      cases h
      exact .inr ⟨ho, rfl, rfl, rfl, rfl⟩
    case h_2 => split at h <;> cases h
  | .inside other ahead true =>
    cases h
    exact .inl ⟨ahead, true, rfl, rfl, rfl, by simp⟩
  | .inside other ahead false =>
    simp only [Place.next] at h
    split at h
    case isTrue => cases h
    case isFalse hc =>
      split at h
      case h_1 form name hr =>
        cases h
        exact .inr ⟨opening?_of_reopening? hr, rfl, rfl, rfl, rfl⟩
      case h_2 hr =>
        cases h
        exact .inl ⟨ahead, false, rfl, rfl, rfl, fun _ => ⟨by simpa using hc, hr⟩⟩

theorem Place.region?_eq_closed {closing : Text}
    (h : place.region? line below = some (.closed opening body closing)) :
    place = .inside opening body false ∧ closing = line ∧ closes line = true := by
  match place with
  | .comment => cases h
  | .outside =>
    simp only [Place.region?] at h
    split at h <;> cases h
  | .inside other ahead true => cases h
  | .inside other ahead false =>
    simp only [Place.region?] at h
    split at h
    case isTrue hc =>
      cases h
      exact ⟨rfl, rfl, hc⟩
    case isFalse => split at h <;> cases h

end Inversion

/-! ## Bodies -/

/-- Lines that stay in a body: where no block comment is open, they neither close the structure nor
open another one. Behind them no block is open. The closing line is the first of those below. -/
def staysInside (below : List Text) (isOpen : Bool) : List Text → Prop
  | [] => isOpen = false
  | row :: more =>
    (isOpen = false → closes row = false ∧ reopening? row (more ++ below) = none) ∧
      staysInside below (openAfter isOpen row) more

/-- The lines of a source, cut at the opening and at the closing line of one structure. -/
structure Span where
  before : List Text
  line : Text
  body : List Text
  closing : Text
  after : List Text

def Span.lines (span : Span) : List Text :=
  span.before ++ span.line :: (span.body ++ span.closing :: span.after)

/-- The span is where the structure of that opening stands. -/
structure Span.Holds (span : Span) (opening : Opening) : Prop where
  number : opening.line = span.before.length + 1
  opens : opening? span.line = some (opening.form, opening.name)
  stays : staysInside (span.closing :: span.after) (openAfter false span.line) span.body
  closes : closes span.closing = true

/-- The opening line can be found by its number. -/
theorem Span.Holds.line_eq {span : Span} {opening : Opening} (h : span.Holds opening) :
    span.lines[opening.line - 1]? = some span.line := by
  rw [h.number, Nat.add_sub_cancel, Span.lines, List.getElem?_append_right (Nat.le_refl _),
    Nat.sub_self, List.getElem?_cons_zero]

/-- A closed region from a place on is the body that the place lies in, or that of an opening line
further down. -/
theorem closed_of_mem_regionsFrom {number : Nat} {place : Place} {lines : List Text}
    {opening : Opening} {body : List Text} {closing : Text}
    (h : .closed opening body closing ∈ regionsFrom number place lines) :
    (∃ ahead isOpen rows after, place = .inside opening ahead isOpen ∧ body = ahead ++ rows ∧
      lines = rows ++ closing :: after ∧ staysInside (closing :: after) isOpen rows ∧
      closes closing = true) ∨
    ∃ before line after, lines = before ++ line :: (body ++ closing :: after) ∧
      opening.line = number + before.length ∧ opening? line = some (opening.form, opening.name) ∧
      staysInside (closing :: after) (openAfter false line) body ∧ closes closing = true := by
  induction lines generalizing number place with
  | nil => cases place <;> simp [regionsFrom] at h
  | cons line below ih =>
    rcases mem_regionsFrom_cons h with hregion | hrest
    · obtain ⟨rfl, rfl, hc⟩ := Place.region?_eq_closed hregion
      exact .inl ⟨body, false, [], below, rfl, by simp, rfl, rfl, hc⟩
    · rcases ih hrest with
        ⟨ahead, isOpen, rows, after, hplace, rfl, rfl, hstays, hc⟩ |
        ⟨before, first, after, rfl, hnumber, hopens, hstays, hc⟩
      · rcases Place.next_eq_inside hplace with
          ⟨ahead, was, rfl, rfl, rfl, hline⟩ | ⟨hopens, hnumber, -, rfl, rfl⟩
        · exact .inl ⟨ahead, was, line :: rows, after, rfl, by simp, rfl, ⟨hline, hstays⟩, hc⟩
        · exact .inr ⟨[], line, after, rfl, hnumber, hopens, hstays, hc⟩
      · refine .inr ⟨line :: before, first, after, rfl, ?_, hopens, hstays, hc⟩
        rw [hnumber, List.length_cons]
        omega

/-- Every closed structure stands somewhere among the lines. -/
theorem exists_span {lines : List Text} {opening : Opening} {body : List Text} {closing : Text}
    (h : .closed opening body closing ∈ regions lines) :
    ∃ span : Span, span.lines = brokenLines lines ∧ span.body = body ∧ span.closing = closing ∧
      span.Holds opening := by
  rcases closed_of_mem_regionsFrom h with
    ⟨_, _, _, _, hplace, _⟩ | ⟨before, line, after, hlines, hnumber, hopens, hstays, hc⟩
  · cases hplace
  · refine ⟨⟨before, line, body, closing, after⟩, hlines.symm, rfl, rfl, ?_, hopens, hstays, hc⟩
    rw [hnumber, Nat.add_comm]

/-- The line that closes a structure can be found by the number of its opening line and the length of
its body. -/
theorem exists_closing {lines : List Text} {opening : Opening} {body : List Text} {closing : Text}
    (h : .closed opening body closing ∈ regions lines) :
    (brokenLines lines)[opening.line + body.length]? = some closing ∧ closes closing = true := by
  obtain ⟨span, hlines, rfl, rfl, hspan⟩ := exists_span h
  refine ⟨?_, hspan.closes⟩
  have hrows : brokenLines lines =
      (span.before ++ span.line :: span.body) ++ span.closing :: span.after := by
    rw [← hlines, Span.lines, List.append_assoc, List.cons_append]
  have hindex : opening.line + span.body.length = (span.before ++ span.line :: span.body).length := by
    rw [hspan.number, List.length_append, List.length_cons]
    omega
  rw [hrows, hindex, List.getElem?_append_right (Nat.le_refl _), Nat.sub_self]
  rfl

end StructTables.Outline

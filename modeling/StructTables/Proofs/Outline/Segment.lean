import StructTables.Outline.Region

/-! # Segments

Another reading of a source, which looks at no state: its lines are cut behind every closing line,
and each segment that this gives has at most one structure, the one of its last opening line. A
first opening line counts with or without a body, a later one only with a body. -/

namespace StructTables.Outline
open Text

/-! ## Cutting -/

/-- Lines without a closing line among them, the closing line behind them, and all lines below. -/
structure Segment where
  lines : List Text
  closing : Text
  below : List Text
  deriving DecidableEq

/-- The segments of some lines, and the lines behind the last closing line. -/
def segments : List Text → List Segment × List Text
  | [] => ([], [])
  | line :: more =>
    if closes line then (⟨[], line, more⟩ :: (segments more).1, (segments more).2)
    else match segments more with
      | ([], rest) => ([], line :: rest)
      | (segment :: others, rest) =>
        ({ segment with lines := line :: segment.lines } :: others, rest)

/-- Either no line closes, or the first that does parts the first segment from the others. -/
theorem segments_cases (lines : List Text) :
    (segments lines = ([], lines) ∧ ∀ line ∈ lines, closes line = false) ∨
    ∃ first closing rest, lines = first ++ closing :: rest ∧
      (∀ line ∈ first, closes line = false) ∧ closes closing = true ∧
      segments lines = (⟨first, closing, rest⟩ :: (segments rest).1, (segments rest).2) := by
  induction lines with
  | nil => exact .inl ⟨rfl, by simp⟩
  | cons line more ih =>
    by_cases hc : closes line = true
    · exact .inr ⟨[], line, more, rfl, by simp, hc, by simp [segments, hc]⟩
    · have hc' : closes line = false := by simpa using hc
      rcases ih with ⟨hs, hno⟩ | ⟨first, closing, rest, rfl, hno, hcl, hs⟩
      · refine .inl ⟨by simp [segments, hc', hs], ?_⟩
        exact fun l hl => (List.mem_cons.mp hl).elim (fun h => h ▸ hc') (hno l)
      · refine .inr ⟨line :: first, closing, rest, rfl, ?_, hcl, by simp [segments, hc', hs]⟩
        exact fun l hl => (List.mem_cons.mp hl).elim (fun h => h ▸ hc') (hno l)

/-! ## The structure of a segment -/

/-- What the opening line of a structure says, and the lines between it and the closing line. -/
structure Opened where
  form : Form
  name : Text
  body : List Text
  deriving DecidableEq

/-- The lines that open a structure with a body; `below` stands under the lines. -/
def reopenings (below : List Text) : List Text → List Opened
  | [] => []
  | line :: more =>
    match reopening? line (more ++ below) with
    | none => reopenings below more
    | some (form, name) => ⟨form, name, more⟩ :: reopenings below more

/-- The first opening line, and all lines behind it that open a structure with a body. -/
def openings (below : List Text) : List Text → List Opened
  | [] => []
  | line :: more =>
    match opening? line with
    | none => openings below more
    | some (form, name) => ⟨form, name, more⟩ :: reopenings below more

/-- The opening line of the structure that the closing line of a segment closes. -/
def Segment.opened? (segment : Segment) : Option Opened :=
  (openings (segment.closing :: segment.below) segment.lines).getLast?

/-- The lines ahead of the first opening line. -/
def outside (lines : List Text) : List Text := lines.takeWhile fun line => (opening? line).isNone

/-- The lines of a segment that stand outside of structures. -/
def Segment.outside (segment : Segment) : List Text :=
  Outline.outside (segment.lines ++ [segment.closing])

theorem opening?_eq_none_of_closes {line : Text} (h : closes line = true) :
    opening? line = none := by
  obtain ⟨r, rfl⟩ : ['}'] <+: line := List.isPrefixOf_iff_prefix.mp h
  have htypedef : opensTypedef ('}' :: r) = false := rfl
  have hcode : Comment.code ('}' :: r) = '}' :: (Comment.cut r).1 := rfl
  have hkeyword : afterKeyword? structKeyword ('}' :: (Comment.cut r).1) = none := rfl
  simp [opening?, htypedef, hcode, hkeyword]

end StructTables.Outline

import StructTables.Outline.Closing
import StructTables.Outline.Inline

/-! # Outlines

The outline of a source is the sequence of its regions: lines outside any structure, structures that
are closed, and structures that are given up. One structure is open at a time. An opening line with
a body takes the place of an open structure, and a closing line closes the structure that opened
last. The outline depends on the lines alone, neither on options nor on macros. -/

namespace StructTables.Outline
open Text

/-- A structure that has been opened: its form, the name on its opening line, and the number of that
line, counted from one. -/
structure Opening where
  form : Form
  name : Text
  line : Nat
  deriving DecidableEq

inductive Region where
  /-- A line outside structures that opens neither a structure nor a block comment. -/
  | outside (line : Text)
  /-- A structure that another one took the place of. -/
  | abandoned (opening : Opening)
  | closed (opening : Opening) (body : List Text) (closing : Text)
  /-- A structure that the source ends in. -/
  | unclosed (opening : Opening)
  deriving DecidableEq

/-- Where a line stands. -/
inductive Place where
  | outside
  /-- In a block comment that began on a line of its own outside structures. -/
  | comment
  /-- In the body of a structure, behind the given lines, with a block comment open or not. -/
  | inside (opening : Opening) (body : List Text) (commentOpen : Bool)
  deriving DecidableEq

/-- The place behind an opening line. -/
def Place.behind (form : Form) (name : Text) (number : Nat) (line : Text) : Place :=
  .inside ⟨form, name, number⟩ [] (Comment.openAfter false line)

/-- The regions of the lines from a place on, the first of which has the given number. -/
def regionsFrom (number : Nat) (place : Place) : List Text → List Region
  | [] =>
    match place with
    | .inside opening _ _ => [.unclosed opening]
    | _ => []
  | line :: below =>
    match place with
    | .comment =>
      regionsFrom (number + 1) (if Comment.hasEnd line then .outside else .comment) below
    | .outside =>
      match opening? line with
      | some (form, name) => regionsFrom (number + 1) (.behind form name number line) below
      | none =>
        if Comment.beginsBlock line && !Comment.hasEnd line then
          regionsFrom (number + 1) .comment below
        else .outside line :: regionsFrom (number + 1) .outside below
    | .inside opening body true =>
      regionsFrom (number + 1)
        (.inside opening (body ++ [line]) (Comment.openAfter true line)) below
    | .inside opening body false =>
      if closes line then
        .closed opening body line :: regionsFrom (number + 1) .outside below
      else
        match reopening? line below with
        | some (form, name) =>
          .abandoned opening :: regionsFrom (number + 1) (.behind form name number line) below
        | none =>
          regionsFrom (number + 1)
            (.inside opening (body ++ [line]) (Comment.openAfter false line)) below

/-- The regions of a source, given as its logical lines. Line numbers count the lines that these are
broken into. -/
def regions (lines : List Text) : List Region := regionsFrom 1 .outside (brokenLines lines)

end StructTables.Outline

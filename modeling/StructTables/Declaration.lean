import StructTables.Comment

/-! # Declarations

The text of a body line as a sequence of statements, each a declaration up to its semicolon, and the
parts of one declaration: the data type, and the declarators between commas. Nothing here depends on
the structure that the line belongs to. -/

namespace StructTables.Declaration
open Text

/-! ## Tidying -/

/-- A mark that declarations are written around: blanks beside it mean nothing. -/
def isMark (c : Char) : Bool := c == '[' || c == ']' || c == ':' || c == ','

/-- Copies a text without its spare blanks. `word` says that the copy ends in something that a blank
would part from what follows, `gap` that a blank was passed since. -/
def tidyFrom (word gap : Bool) : Text → Text
  | [] => []
  | c :: r =>
    if isBlank c then tidyFrom word true r
    else if isMark c then c :: tidyFrom false false r
    else if word && gap then ' ' :: c :: tidyFrom true false r
    else c :: tidyFrom true false r

/-- Removes the blanks at both ends and beside marks, and leaves one space of every other run. -/
def tidy (t : Text) : Text := tidyFrom false false t

/-! ## Statements -/

/-- One statement of a line. -/
structure Statement where
  /-- The line from here on, as warnings show it. -/
  source : Text
  /-- The tidied declaration. -/
  declaration : Text
  terminated : Bool
  /-- The comment behind the declaration, with all that follows it, or nothing. -/
  comment : Text
  deriving DecidableEq

/-- A line cut at the first semicolon of its code; `none` without such a semicolon. One inside a
comment, or behind it, terminates nothing. -/
def terminator? (line : Text) : Option (Text × Text) :=
  if (Comment.code line).contains ';' then cutFirst? ';' line else none

def firstStatement (line : Text) : Statement :=
  match terminator? line with
  | some (declaration, after) =>
    { source := line
      declaration := tidy declaration
      terminated := true
      comment := if Comment.begins (trim after) then trim after else [] }
  | none =>
    { source := line
      declaration := tidy (Comment.cut line).1
      terminated := false
      comment := (Comment.cut line).2 }

theorem length_terminator_lt {line declaration after : Text}
    (h : terminator? line = some (declaration, after)) : (trim after).length < line.length := by
  unfold terminator? at h
  split at h
  case isFalse => cases h
  case isTrue =>
    have htrim := length_trim_le after
    rw [eq_of_cutFirst? h]
    simp only [List.length_append, List.length_cons]
    omega

/-- The statements of a line: one more after each semicolon that code follows on the line. -/
def statements (line : Text) : List Statement :=
  firstStatement line ::
    match _h : terminator? line with
    | some (_, after) =>
      if (trim after).isEmpty || Comment.begins (trim after) then [] else statements (trim after)
    | none => []
termination_by line.length
decreasing_by exact length_terminator_lt _h

/-! ## Types and declarators -/

/-- The data type and the declarators of a declaration: parted by the last space ahead of the first
comma, bracket or colon. -/
def typeAndNames? (declaration : Text) : Option (Text × Text) :=
  let head := declaration.takeWhile fun c => c != ',' && c != '[' && c != ':'
  (cutLast? ' ' head).map fun (dataType, name) =>
    (trim dataType, name ++ declaration.drop head.length)

/-- One variable of a declaration, its size still as written. -/
structure Declarator where
  name : Text
  stars : Nat := 0
  arraySize : Text := []
  bitLength : Text := []
  deriving DecidableEq

/-- The dimensions in a run of bracket groups, with commas between them. -/
def dimensions (brackets : Text) : Text :=
  (replaceAll [']', '['] [','] brackets).filter fun c => c != '[' && c != ']'

/-- Reads a declarator. Its name is empty where the text has none. -/
def Declarator.ofText (t : Text) : Declarator :=
  let (named, arraySize, bitLength) :=
    if t.contains '[' then
      (t.takeWhile (· != '['), dimensions (t.dropWhile (· != '[')), [])
    else if t.contains ':' then
      (t.takeWhile (· != ':'), [], trim ((t.dropWhile (· != ':')).drop 1))
    else (t, [], [])
  { name := trim (named.dropWhile (· == '*'))
    stars := (named.takeWhile (· == '*')).length
    arraySize := arraySize
    bitLength := bitLength }

/-- The declarators of a list, which commas part. What is blank between commas declares nothing. -/
def declarators (names : Text) : List Declarator :=
  (((splitOn ',' names).map trim).filter (! ·.isEmpty)).map Declarator.ofText

/-- The data type of one variable: that of the declaration, and the stars of its own. -/
def typeOf (dataType : Text) (stars : Nat) : Text :=
  if stars = 0 then dataType else dataType ++ ' ' :: List.replicate stars '*'

end StructTables.Declaration

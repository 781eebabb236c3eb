import StructTables.Macro.Basic

/-! # Size formulas

A formula is a size with an operator or a parenthesis in it. It is read as words, the maximal runs
of identifier characters, with the characters between them. A word that begins with a digit is a
literal and `sizeof` is an operator; every other word names a macro. -/

namespace StructTables.Macro
open Text

namespace Formula

inductive Piece where
  | word (w : Text)
  | other (c : Char)
  deriving DecidableEq

def isOperator (c : Char) : Bool :=
  c == '+' || c == '-' || c == '*' || c == '/' || c == '(' || c == ')'

def pieces : Text → List Piece
  | [] => []
  | c :: r =>
    if isIdentifierCharacter c then
      match pieces r with
      | .word w :: more => .word (c :: w) :: more
      | more => .word [c] :: more
    else .other c :: pieces r

/-- Whether a word of a formula names a macro. -/
def isMention (w : Text) : Bool :=
  match w with
  | [] => false
  | c :: _ => !c.isDigit && w != "sizeof".toList

/-- The text of a piece, with the names of macros between delimiters. -/
def Piece.written : Piece → Text
  | .word w => if isMention w then bound w else w
  | .other c => [c]

def Piece.mention? : Piece → Option Text
  | .word w => if isMention w then some w else none
  | .other _ => none

/-- The formula with every macro name between delimiters. -/
def written (t : Text) : Text := (pieces t).flatMap Piece.written

/-- The macros that a formula names, in order of appearance. -/
def mentions (t : Text) : List Text := (pieces t).filterMap Piece.mention?

end Formula
end StructTables.Macro

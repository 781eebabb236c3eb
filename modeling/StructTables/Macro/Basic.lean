import StructTables.Text.Blank

/-! # Macros

A macro is a name with a value that sizes refer to. In a written size its name stands between
delimiters, so that whoever reads the tables can find it and put the value in its place. -/

namespace StructTables

structure Macro where
  name : Text
  value : Text
  deriving DecidableEq

namespace Macro

/-! ## Spelling -/

def delimiter : Text := ['#', '#']

/-- A macro name between its delimiters. -/
def bound (name : Text) : Text := delimiter ++ name ++ delimiter

/-- The value of a macro that no definition is known for. -/
def placeholder : Text := ['2']

/-! ## Names and numbers -/

def isIdentifierStart (c : Char) : Bool := c.isAlpha || c == '_'

def isIdentifierCharacter (c : Char) : Bool := c.isAlphanum || c == '_'

/-- A C identifier, which is ASCII. -/
def isIdentifier : Text → Bool
  | [] => false
  | c :: r => isIdentifierStart c && r.all isIdentifierCharacter

def isHexDigit (c : Char) : Bool :=
  c.isDigit || ('a' ≤ c && c ≤ 'f') || ('A' ≤ c && c ≤ 'F')

def isSuffixLetter (c : Char) : Bool := c == 'u' || c == 'U' || c == 'l' || c == 'L'

/-- One digit or more, then any suffix letters. -/
def isDigitsThenSuffix (isDigit : Char → Bool) (t : Text) : Bool :=
  !(t.takeWhile isDigit).isEmpty && (t.dropWhile isDigit).all isSuffixLetter

/-- A decimal or hexadecimal literal. -/
def isNumeric : Text → Bool
  | '0' :: 'x' :: r => isDigitsThenSuffix isHexDigit r
  | '0' :: 'X' :: r => isDigitsThenSuffix isHexDigit r
  | t => isDigitsThenSuffix Char.isDigit t

end Macro
end StructTables

/-! # Text

Text is a list of characters, so that every operation on it is plain list recursion. This module
holds the searching, cutting and replacing that the rest of the library is built from. Nothing here
knows what a blank is (`Text.Blank`) or what a word character is (`Text.WordCharacter`). -/

namespace StructTables

abbrev Text := List Char

namespace Text

/-! ## Searching -/

def startsWith (t mark : Text) : Bool := mark.isPrefixOf t

def endsWith (t mark : Text) : Bool := mark.isSuffixOf t

/-- The text before the first occurrence of `mark`, and the text after it. -/
def cut? (mark : Text) : Text → Option (Text × Text)
  | [] => if mark.isEmpty then some ([], []) else none
  | c :: r =>
    if startsWith (c :: r) mark then some ([], (c :: r).drop mark.length)
    else (cut? mark r).map fun (before, after) => (c :: before, after)

/-- The text before the first occurrence of the character, and the text after it. -/
def cutFirst? (mark : Char) : Text → Option (Text × Text)
  | [] => none
  | c :: r =>
    if c = mark then some ([], r)
    else (cutFirst? mark r).map fun (before, after) => (c :: before, after)

theorem eq_of_cutFirst? {mark : Char} {t before after : Text}
    (h : cutFirst? mark t = some (before, after)) : t = before ++ mark :: after := by
  induction t generalizing before with
  | nil => cases h
  | cons c r ih =>
    unfold cutFirst? at h
    split at h
    case isTrue hc =>
      cases h
      simp [hc]
    case isFalse =>
      obtain ⟨⟨b, a⟩, hr, hba⟩ := Option.map_eq_some_iff.1 h
      cases hba
      simp [ih hr]

/-- The text before the last occurrence of the character, and the text after it. -/
def cutLast? (mark : Char) : Text → Option (Text × Text)
  | [] => none
  | c :: r =>
    match cutLast? mark r with
    | some (before, after) => some (c :: before, after)
    | none => if c = mark then some ([], r) else none

/-! ## Cutting into pieces -/

/-- The pieces between the characters that satisfy `p`: always one more than there are of those. -/
def piecesBetween (p : Char → Bool) : Text → List Text
  | [] => [[]]
  | c :: r =>
    if p c then [] :: piecesBetween p r
    else match piecesBetween p r with
      | [] => [[c]]
      | piece :: more => (c :: piece) :: more

def splitOn (mark : Char) (t : Text) : List Text := piecesBetween (· == mark) t

def join (mark : Text) (pieces : List Text) : Text := mark.intercalate pieces

/-- The lines of a text. A line feed ends a line, so no line follows the last one. -/
def lines : Text → List Text
  | [] => []
  | c :: r =>
    if c = '\n' then [] :: lines r
    else match lines r with
      | [] => [[c]]
      | line :: more =>
        (c :: line) :: more

/-! ## Replacing -/

/-- Copies the text with every occurrence of `mark` replaced; `skip` characters of an occurrence
that has been replaced are still to be passed over. -/
def replaceFrom (mark value : Text) (skip : Nat) : Text → Text
  | [] => []
  | c :: r =>
    match skip with
    | k + 1 => replaceFrom mark value k r
    | 0 =>
      if startsWith (c :: r) mark then value ++ replaceFrom mark value (mark.length - 1) r
      else c :: replaceFrom mark value 0 r

/-- Replaces the occurrences of `mark`, found from left to right without overlaps. -/
def replaceAll (mark value t : Text) : Text := replaceFrom mark value 0 t

/-! ## Numbers -/

def ofNat (n : Nat) : Text := Nat.toDigits 10 n

end Text
end StructTables

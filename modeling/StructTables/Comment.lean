import StructTables.Text.Blank

/-! # Comments

A comment is a `//` line comment or a `/* ... */` block. This module says where comments begin and
end on a line, and reads the text of a comment together with the lines that it runs over. -/

namespace StructTables.Comment
open Text

/-! ## Where comments begin and end -/

def beginsLine (t : Text) : Bool := startsWith t ['/', '/']

def beginsBlock (t : Text) : Bool := startsWith t ['/', '*']

def begins (t : Text) : Bool := beginsBlock t || beginsLine t

def endsBlock (t : Text) : Bool := endsWith t ['*', '/']

/-- Whether the end of a block stands anywhere in the text. -/
def hasEnd (t : Text) : Bool := (cut? ['*', '/'] t).isSome

/-- The code ahead of the first comment of a line, and that comment with all that follows it. -/
def cut : Text → Text × Text
  | [] => ([], [])
  | c :: r =>
    if begins (c :: r) then ([], c :: r)
    else
      let (code, comment) := cut r
      (c :: code, comment)

def code (t : Text) : Text := (cut t).1

/-- Whether a block is open at the end of a line, given whether one is open at its start. Outside a
block, a line comment hides the rest of the line. -/
def openAfter : Bool → Text → Bool
  | false, '/' :: '*' :: r => openAfter true r
  | false, '/' :: '/' :: _ => false
  | true, '*' :: '/' :: r => openAfter false r
  | isOpen, _ :: r => openAfter isOpen r
  | isOpen, [] => isOpen

/-! ## The text of a comment -/

/-- Drops the character where the text starts with it. -/
def dropOne (c : Char) : Text → Text
  | [] => []
  | d :: r => if d = c then r else d :: r

theorem length_dropOne_le (c : Char) (t : Text) : (dropOne c t).length ≤ t.length := by
  unfold dropOne
  split
  · exact Nat.le_refl _
  · split <;> simp

private theorem length_dropWhile_le (p : Char → Bool) (t : Text) :
    (t.dropWhile p).length ≤ t.length :=
  (List.dropWhile_sublist _).length_le

/-- Removes block delimiters and tags: `/` with its stars and then `!` and `<`, stars with their
`/`, and a backslash with the word behind it and the blanks behind that. -/
def withoutDelimiters : Text → Text
  | [] => []
  | '/' :: '*' :: r => withoutDelimiters (dropOne '<' (dropOne '!' (r.dropWhile (· == '*'))))
  | '*' :: r =>
    match _h : r.dropWhile (· == '*') with
    | '/' :: s => withoutDelimiters s
    | _ => '*' :: withoutDelimiters r
  | '\\' :: c :: r =>
    if isBlank c then '\\' :: withoutDelimiters (c :: r)
    else withoutDelimiters ((r.dropWhile (! isBlank ·)).dropWhile isBlank)
  | c :: r => c :: withoutDelimiters r
termination_by t => t.length
decreasing_by
  · have h₁ := length_dropOne_le '<' (dropOne '!' (r.dropWhile (· == '*')))
    have h₂ := length_dropOne_le '!' (r.dropWhile (· == '*'))
    have h₃ := length_dropWhile_le (· == '*') r
    simp only [List.length_cons]
    omega
  · have h₁ := length_dropWhile_le (· == '*') r
    rw [_h] at h₁
    simp only [List.length_cons] at h₁ ⊢
    omega
  all_goals simp only [List.length_cons]
  · omega
  · omega
  · have h₁ := length_dropWhile_le isBlank (r.dropWhile (! isBlank ·))
    have h₂ := length_dropWhile_le (! isBlank ·) r
    omega
  · omega

/-- What one line of a block says: delimiters, tags and leading stars are not part of it. -/
def blockPiece (line : Text) : Text :=
  trim ((trim (withoutDelimiters line)).dropWhile (· == '*'))

/-- What a line comment says: its slashes and one mark `!<`, `<` or `!` behind them are not part. -/
def linePiece (line : Text) : Text :=
  match line.dropWhile (· == '/') with
  | '!' :: '<' :: r => trim r
  | '<' :: r => trim r
  | '!' :: r => trim r
  | r => trim r

/-- The lines up to and including the first that ends a block: all of them, if none does. -/
def throughEnd : List Text → List Text
  | [] => []
  | line :: more => if endsBlock (trim line) then [line] else line :: throughEnd more

/-- The lines, of those behind the one on which a comment opens, that belong to the comment. -/
def continuation (opening : Text) (following : List Text) : List Text :=
  if beginsLine (trim opening) then following.takeWhile fun line => beginsLine (trim line)
  else if beginsBlock (trim opening) && !endsBlock (trim opening) then throughEnd following
  else []

/-- What one line of a comment that opens with `opening` says. -/
def piece (opening line : Text) : Text :=
  if beginsLine (trim opening) then linePiece (trim line)
  else if beginsBlock (trim opening) then blockPiece (trim line)
  else trim line

/-- The text of a comment, and how many further lines it runs over. -/
structure Reading where
  text : Text
  taken : Nat
  deriving DecidableEq

/-- Reads the comment that opens with `opening` and may run on over the following lines. A text that
opens no comment is taken as it stands. -/
def read (opening : Text) (following : List Text) : Reading :=
  let more := continuation opening following
  { text := join [' '] (((opening :: more).map (piece opening)).filter (! ·.isEmpty))
    taken := more.length }

end StructTables.Comment

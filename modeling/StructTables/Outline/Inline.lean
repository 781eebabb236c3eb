import StructTables.Outline.Opening

/-! # Inline bodies

A structure may begin its body, or have all of it, on its opening line. Such a line is broken into
the opening, the body and the closing, so that each of these stands on a line of its own. -/

namespace StructTables.Outline
open Text

/-- A line broken behind its first brace and ahead of its last closing brace. A line that
initialises something, or has nothing or a comment behind its brace, is no inline body. -/
def brokenLine (line : Text) : List Text :=
  if !namesStructure line then [line]
  else match cutFirst? '{' line with
    | none => [line]
    | some (before, behind) =>
      let after := trim behind
      if before.contains '=' || after.isEmpty || Comment.begins after then [line]
      else
        let head := trim (before ++ ['{'])
        match cutLast? '}' after with
        | none => [head, after]
        | some (inside, behindClosing) =>
          let tail := trim ('}' :: behindClosing)
          if (trim inside).isEmpty then [head, tail] else [head, trim inside, tail]

def brokenLines (lines : List Text) : List Text := lines.flatMap brokenLine

end StructTables.Outline

import StructTables.Declaration

/-! # Reading a body

The body of a structure is the lines between its opening and its closing line. Reading it gives its
entries in order: the variables that it declares, the remarks that follow them on lines of their
own, and the declarations that name nothing. Reading needs neither the structure nor the macros;
what an entry does to those is said in `Body.Assembly`. -/

namespace StructTables.Body
open Text Declaration

inductive Entry where
  | variable (dataType : Text) (declarator : Declarator) (description : Text)
  | remark (text : Text)
  | invalid (source : Text)
  deriving DecidableEq

/-- What one line leaves behind for the next. -/
structure Context where
  /-- The data type of the last declaration. -/
  dataType : Text := []
  /-- The last declaration was not terminated, so its data type goes on with the next one. -/
  continues : Bool := false
  /-- The line stands within a conditional block. -/
  conditional : Bool := false
  /-- What was said beside a data type that stood alone, for the variables that follow. -/
  carried : Text := []
  deriving DecidableEq

/-! ## Statements -/

/-- The note that begins the description of a member of a conditional block. -/
def conditionalNote : Text := "(WITHIN COMPILER MACRO)".toList

/-- The description of the variables of a statement that the given comment stands beside. -/
def Context.description (context : Context) (comment : Text) : Text :=
  let note := if context.conditional then conditionalNote else []
  join [' '] ([note, context.carried, comment].filter (! ·.isEmpty))

/-- What a declarator comes to: a variable, unless it has no name. -/
def entryOf (dataType description source : Text) (declarator : Declarator) : Entry :=
  if declarator.name.isEmpty then .invalid source else .variable dataType declarator description

/-- The result of reading a statement. -/
structure StatementReading where
  context : Context
  entries : List Entry := []
  /-- The statements behind it are read as well: only after one that declared something. -/
  goesOn : Bool := false
  deriving DecidableEq

/-- Reads one statement with the text of its comment. -/
def readStatement (context : Context) (statement : Statement) (comment : Text) :
    StatementReading :=
  let next := { context with continues := !statement.terminated }
  if statement.declaration.isEmpty then { context := next }
  else if !statement.terminated && !context.continues && !statement.declaration.contains ',' then
    -- a data type whose variables stand on the lines below
    { context := { next with dataType := statement.declaration, carried := comment } }
  else
    let parts? :=
      if context.continues then some (context.dataType, statement.declaration)
      else typeAndNames? statement.declaration
    match parts? with
    | none => { context := next, entries := [.invalid statement.source] }
    | some (dataType, names) =>
      { context := { next with dataType := dataType, carried := [] }
        entries := (declarators names).map
          (entryOf dataType (context.description comment) statement.source)
        goesOn := true }

/-! ## Lines -/

/-- The result of reading from one line on. -/
structure LineReading where
  context : Context
  entries : List Entry := []
  /-- How many of the lines below belong to a comment that was read. -/
  taken : Nat := 0
  deriving DecidableEq

/-- Reads the statements of a line, with the lines below it for a comment that runs on. -/
def readStatements (context : Context) (below : List Text) : List Statement → LineReading
  | [] => { context := context }
  | statement :: more =>
    let comment := Comment.read statement.comment below
    let reading := readStatement context statement comment.text
    if reading.goesOn && !more.isEmpty then
      let rest := readStatements reading.context below more
      { rest with entries := reading.entries ++ rest.entries }
    else { context := reading.context, entries := reading.entries, taken := comment.taken }

/-- Whether a line that begins no comment declares nothing either: a blank line, a brace, the middle
or end of a block comment, a directive, or a line that opens a block of its own. -/
def isSkipped (line : Text) : Bool :=
  line.isEmpty || startsWith line ['{'] || startsWith line ['*', '*'] ||
    startsWith line ['*', '/'] || startsWith line ['#'] || startsWith line ['\\'] ||
    endsWith line ['{']

/-- Keeps track of conditional blocks. -/
def Context.enter (context : Context) (line : Text) : Context :=
  if startsWith line "#if".toList then { context with conditional := true }
  else if startsWith line "#endif".toList then { context with conditional := false }
  else context

def readLine (context : Context) (line : Text) (below : List Text) : LineReading :=
  let context := context.enter line
  if Comment.begins line then
    let comment := Comment.read line below
    { context := context, entries := [.remark comment.text], taken := comment.taken }
  else if isSkipped line then { context := context }
  else readStatements context below (statements line)

/-- Reads lines, of which the first `skip` belong to a comment that was read before. -/
def readFrom (context : Context) (skip : Nat) : List Text → List Entry
  | [] => []
  | line :: below =>
    match skip with
    | k + 1 => readFrom context k below
    | 0 =>
      let reading := readLine context line below
      reading.entries ++ readFrom reading.context reading.taken below

def read (body : List Text) : List Entry := readFrom {} 0 body

end StructTables.Body

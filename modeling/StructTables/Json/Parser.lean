import StructTables.Json.Value
import StructTables.Text.Basic

/-! # Reading JSON

The strict grammar: no comments, no trailing commas, no leading zeros, no raw control characters in
strings, and nothing but spaces, tabs and line ends around a value. -/

namespace StructTables.Json
open Text

def isSpace (c : Char) : Bool := c == ' ' || c == '\t' || c == '\n' || c == '\r'

def skipSpace (t : Text) : Text := t.dropWhile isSpace

/-! ## Strings -/

/-- One place of a string: a character, or a code unit that an escape gives by number. -/
inductive Unit16 where
  | char (c : Char)
  | code (n : Nat)
  deriving DecidableEq

def hexValue? (c : Char) : Option Nat :=
  if c.isDigit then some (c.toNat - '0'.toNat)
  else if 'a' ≤ c && c ≤ 'f' then some (c.toNat - 'a'.toNat + 10)
  else if 'A' ≤ c && c ≤ 'F' then some (c.toNat - 'A'.toNat + 10)
  else none

def escaped? (c : Char) : Option Char :=
  match c with
  | '"' => some '"'
  | '\\' => some '\\'
  | '/' => some '/'
  | 'b' => some (Char.ofNat 0x8)
  | 'f' => some (Char.ofNat 0xC)
  | 'n' => some '\n'
  | 'r' => some '\r'
  | 't' => some '\t'
  | _ => none

/-- The four hexadecimal digits that a numeric escape consists of. -/
def codeUnit? (a b c d : Char) : Option Nat := do
  let a ← hexValue? a
  let b ← hexValue? b
  let c ← hexValue? c
  let d ← hexValue? d
  return ((a * 16 + b) * 16 + c) * 16 + d

/-- Reads a string behind its opening quote, and what follows its closing one. -/
def stringUnits? : Text → Option (List Unit16 × Text)
  | [] => none
  | '"' :: r => some ([], r)
  | '\\' :: 'u' :: a :: b :: c :: d :: r =>
    match codeUnit? a b c d with
    | none => none
    | some n => (stringUnits? r).map fun (units, rest) => (.code n :: units, rest)
  | '\\' :: e :: r =>
    match escaped? e with
    | none => none
    | some c => (stringUnits? r).map fun (units, rest) => (.char c :: units, rest)
  | c :: r =>
    if c = '\\' || c.toNat < 0x20 then none
    else (stringUnits? r).map fun (units, rest) => (.char c :: units, rest)

/-- The text that the units stand for: a high surrogate and the low one behind it are one character,
and a surrogate by itself stands for nothing. -/
def textOfUnits? : List Unit16 → Option Text
  | [] => some []
  | .char c :: more => (textOfUnits? more).map (c :: ·)
  | .code n :: more =>
    if n < 0xD800 || 0xDFFF < n then (textOfUnits? more).map (Char.ofNat n :: ·)
    else
      match more with
      | .code m :: more =>
        if n < 0xDC00 && 0xDC00 ≤ m && m ≤ 0xDFFF then
          (textOfUnits? more).map
            (Char.ofNat (0x10000 + (n - 0xD800) * 0x400 + (m - 0xDC00)) :: ·)
        else none
      | _ => none

def string? (t : Text) : Option (Option Text × Text) :=
  (stringUnits? t).map fun (units, rest) => (textOfUnits? units, rest)

/-! ## Numbers -/

/-- One digit or more. -/
def digits? (t : Text) : Option (Text × Text) :=
  match t.takeWhile Char.isDigit with
  | [] => none
  | ds => some (ds, t.dropWhile Char.isDigit)

/-- The digits ahead of a point: no zero stands in front of another digit. -/
def wholePart? (t : Text) : Option (Text × Text) :=
  match t with
  | '0' :: r => some (['0'], r)
  | t => digits? t

def fraction? (t : Text) : Option (Text × Text) :=
  match t with
  | '.' :: r => (digits? r).map fun (ds, rest) => ('.' :: ds, rest)
  | t => some ([], t)

def exponentSign (t : Text) : Text × Text :=
  match t with
  | '+' :: r => (['+'], r)
  | '-' :: r => (['-'], r)
  | t => ([], t)

def exponent? (t : Text) : Option (Text × Text) :=
  match t with
  | [] => some ([], [])
  | c :: r =>
    if c = 'e' || c = 'E' then
      let (sign, r) := exponentSign r
      (digits? r).map fun (ds, rest) => (c :: sign ++ ds, rest)
    else some ([], t)

def unsigned? (t : Text) : Option (Text × Text) := do
  let (whole, t) ← wholePart? t
  let (fraction, t) ← fraction? t
  let (exponent, t) ← exponent? t
  return (whole ++ fraction ++ exponent, t)

def number? (t : Text) : Option (Text × Text) :=
  match t with
  | '-' :: r => (unsigned? r).map fun (ds, rest) => ('-' :: ds, rest)
  | t => unsigned? t

/-! ## Values -/

mutual

/-- Reads the value that the text begins with. The fuel bounds how deep and how far it reads: more
than the length of the text is never used. -/
def value? : Nat → Text → Option (Json × Text)
  | 0, _ => none
  | fuel + 1, t =>
    match t with
    | 'n' :: 'u' :: 'l' :: 'l' :: r => some (.null, r)
    | 't' :: 'r' :: 'u' :: 'e' :: r => some (.bool true, r)
    | 'f' :: 'a' :: 'l' :: 's' :: 'e' :: r => some (.bool false, r)
    | '"' :: r => (string? r).map fun (text?, rest) => (.string text?, rest)
    | '[' :: r =>
      match skipSpace r with
      | ']' :: rest => some (.array [], rest)
      | r => (items? fuel r).map fun (items, rest) => (.array items, rest)
    | '\x7b' :: r =>
      match skipSpace r with
      | '\x7d' :: rest => some (.object [], rest)
      | r => (entries? fuel r).map fun (entries, rest) => (.object entries, rest)
    | t => (number? t).map fun (digits, rest) => (.number digits, rest)

/-- Reads the items of an array up to its closing bracket. -/
def items? : Nat → Text → Option (List Json × Text)
  | 0, _ => none
  | fuel + 1, t =>
    match value? fuel t with
    | none => none
    | some (item, r) =>
      match skipSpace r with
      | ']' :: rest => some ([item], rest)
      | ',' :: r => (items? fuel (skipSpace r)).map fun (items, rest) => (item :: items, rest)
      | _ => none

/-- Reads the entries of an object up to its closing brace. -/
def entries? : Nat → Text → Option (List (Option Text × Json) × Text)
  | 0, _ => none
  | fuel + 1, t =>
    match t with
    | '"' :: r =>
      match string? r with
      | none => none
      | some (key, r) =>
        match skipSpace r with
        | ':' :: r =>
          match value? fuel (skipSpace r) with
          | none => none
          | some (value, r) =>
            match skipSpace r with
            | '\x7d' :: rest => some ([(key, value)], rest)
            | ',' :: r =>
              (entries? fuel (skipSpace r)).map fun (entries, rest) =>
                ((key, value) :: entries, rest)
            | _ => none
        | _ => none
    | _ => none

end

/-- Reads a text that is one JSON value. -/
def parse? (t : Text) : Option Json :=
  match value? (t.length + 1) (skipSpace t) with
  | some (value, rest) => if (skipSpace rest).isEmpty then some value else none
  | none => none

end StructTables.Json

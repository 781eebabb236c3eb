import StructTables.Text.Basic

/-! # UTF-8

Text is kept in files as UTF-8. Bytes that are not UTF-8 are cut as the Unicode standard recommends:
every maximal run of bytes that starts a character without finishing it counts as one fault. A
strict reader refuses a fault, a lenient one writes U+FFFD for it. -/

namespace StructTables.Text

def encodeUtf8 (t : Text) : List UInt8 := t.flatMap String.utf8EncodeChar

/-- The leading bits that a first byte gives, and the range of each byte that has to follow. -/
def utf8Lead? (n : Nat) : Option (Nat × List (Nat × Nat)) :=
  if n < 0x80 then some (n, [])
  else if 0xC2 ≤ n && n ≤ 0xDF then some (n - 0xC0, [(0x80, 0xBF)])
  else if n == 0xE0 then some (0, [(0xA0, 0xBF), (0x80, 0xBF)])
  else if n == 0xED then some (0xD, [(0x80, 0x9F), (0x80, 0xBF)])
  else if 0xE1 ≤ n && n ≤ 0xEF then some (n - 0xE0, [(0x80, 0xBF), (0x80, 0xBF)])
  else if n == 0xF0 then some (0, [(0x90, 0xBF), (0x80, 0xBF), (0x80, 0xBF)])
  else if 0xF1 ≤ n && n ≤ 0xF3 then some (n - 0xF0, [(0x80, 0xBF), (0x80, 0xBF), (0x80, 0xBF)])
  else if n == 0xF4 then some (4, [(0x80, 0x8F), (0x80, 0xBF), (0x80, 0xBF)])
  else none

/-- Reads the bytes that have to follow: the character, if they all do, and how many of them do. -/
def utf8Follow (value : Nat) : List (Nat × Nat) → List UInt8 → Option Char × Nat
  | [], _ => (some (Char.ofNat value), 0)
  | _ :: _, [] => (none, 0)
  | (low, high) :: ranges, b :: bytes =>
    if low ≤ b.toNat && b.toNat ≤ high then
      let (c, n) := utf8Follow (value * 64 + b.toNat % 64) ranges bytes
      (c, n + 1)
    else (none, 0)

/-- The characters and the faults (`none`) of bytes, of which `skip` belong to one already read. -/
def utf8From (skip : Nat) : List UInt8 → List (Option Char)
  | [] => []
  | b :: bytes =>
    match skip with
    | k + 1 => utf8From k bytes
    | 0 =>
      match utf8Lead? b.toNat with
      | none => none :: utf8From 0 bytes
      | some (value, ranges) =>
        let (c, n) := utf8Follow value ranges bytes
        c :: utf8From n bytes

def decodeUtf8? (bytes : List UInt8) : Option Text := (utf8From 0 bytes).mapM id

def decodeUtf8Lenient (bytes : List UInt8) : Text :=
  (utf8From 0 bytes).map (·.getD (Char.ofNat 0xFFFD))

end StructTables.Text

import StructTables.Json.Parser
import StructTables.Json.Printer

/-! # Strings in JSON

A string is read back from its written form, whatever follows it. Each character is written on its
own, in one of three ways, and each of these is read as one unit that stands for the character. -/

namespace StructTables.Json
open Text

/-! ## One character -/

/-- The ways in which a character is written, with the unit that is read for it. -/
inductive Escape (c : Char) : Text → Unit16 → Prop
  /-- A backslash and a letter or mark. -/
  | letter {e : Char} (ne : e ≠ 'u') (stands : escaped? e = some c) :
      Escape c ['\\', e] (.char c)
  /-- The number of a control character, in four digits. -/
  | number {x y : Char} (control : c.toNat < 0x20) (stands : codeUnit? '0' '0' x y = some c.toNat) :
      Escape c ['\\', 'u', '0', '0', x, y] (.code c.toNat)
  /-- The character as it is. -/
  | plain (quote : c ≠ '"') (backslash : c ≠ '\\') (control : 0x20 ≤ c.toNat) : Escape c [c] (.char c)

theorem codeUnit?_hexDigit :
    ∀ n < 0x20, codeUnit? '0' '0' (hexDigit (n / 16)) (hexDigit (n % 16)) = some n := by
  decide

theorem exists_escape (c : Char) : ∃ unit, Escape c (escape c) unit := by
  have letter : ∀ (e : Char) (n : Nat), e ≠ 'u' → escaped? e = some (Char.ofNat n) → c.toNat = n →
      ∃ unit, Escape c ['\\', e] unit := by
    rintro e n hne hstands rfl
    exact ⟨_, .letter hne (by rw [hstands, Char.ofNat_toNat])⟩
  unfold escape
  split
  case isTrue h => exact letter '"' 0x22 (by decide) rfl (h ▸ rfl)
  case isFalse hquote =>
  split
  case isTrue h => exact letter '\\' 0x5C (by decide) rfl (h ▸ rfl)
  case isFalse hbackslash =>
  split
  case isTrue h => exact letter 'n' 0xA (by decide) rfl (h ▸ rfl)
  case isFalse =>
  split
  case isTrue h => exact letter 'r' 0xD (by decide) rfl (h ▸ rfl)
  case isFalse =>
  split
  case isTrue h => exact letter 't' 0x9 (by decide) rfl (h ▸ rfl)
  case isFalse =>
  split
  case isTrue h => exact letter 'b' 0x8 (by decide) rfl h
  case isFalse =>
  split
  case isTrue h => exact letter 'f' 0xC (by decide) rfl h
  case isFalse =>
  split
  case isTrue h => exact ⟨_, .number h (codeUnit?_hexDigit _ h)⟩
  case isFalse h => exact ⟨_, .plain hquote hbackslash (Nat.le_of_not_lt h)⟩

section Escape

variable {c : Char} {t : Text} {unit : Unit16}

theorem Escape.stringUnits? (h : Escape c t unit) (rest : Text) :
    stringUnits? (t ++ rest) =
      (Json.stringUnits? rest).map fun (units, after) => (unit :: units, after) := by
  cases h with
  | letter ne stands => simp [Json.stringUnits?, ne, stands]
  | number control stands => simp [Json.stringUnits?, stands]
  | plain quote backslash control =>
    simp [Json.stringUnits?, backslash, Nat.not_lt.mpr control]

/-- What is read for a character stands for it, whatever units follow. -/
theorem Escape.textOfUnits? (h : Escape c t unit) (more : List Unit16) :
    textOfUnits? (unit :: more) = (Json.textOfUnits? more).map (c :: ·) := by
  cases h with
  | letter => rfl
  | number control =>
    have hlow : (decide (c.toNat < 0xD800) || decide (0xDFFF < c.toNat)) = true :=
      Bool.or_eq_true_iff.mpr (.inl (decide_eq_true (by omega)))
    rw [Json.textOfUnits?.eq_def]
    simp only [hlow, if_true, Char.ofNat_toNat]
  | plain => rfl

end Escape

/-! ## Whole strings -/

theorem exists_units (t rest : Text) :
    ∃ units, stringUnits? (t.flatMap escape ++ '"' :: rest) = some (units, rest) ∧
      textOfUnits? units = some t := by
  induction t with
  | nil => exact ⟨[], rfl, rfl⟩
  | cons c r ih =>
    obtain ⟨units, hunits, htext⟩ := ih
    obtain ⟨unit, hc⟩ := exists_escape c
    refine ⟨unit :: units, ?_, ?_⟩
    · rw [List.flatMap_cons, List.append_assoc, hc.stringUnits?, hunits]
      rfl
    · rw [hc.textOfUnits?, htext]
      rfl

/-- A written string begins with a quote, and what is behind that quote is read back. -/
theorem exists_writtenString (text? : Option Text) :
    ∃ body, writtenString text? = '"' :: body ∧
      ∀ rest, string? (body ++ rest) = some (text?, rest) := by
  cases text? with
  | none =>
    have hcode : codeUnit? 'd' '8' '0' '0' = some 0xD800 := by decide
    refine ⟨['\\', 'u', 'd', '8', '0', '0', '"'], rfl, fun rest => ?_⟩
    simp [string?, stringUnits?, hcode, textOfUnits?]
  | some t =>
    refine ⟨t.flatMap escape ++ ['"'], rfl, fun rest => ?_⟩
    obtain ⟨units, hunits, htext⟩ := exists_units t rest
    rw [List.append_assoc, List.singleton_append, string?, hunits]
    simp only [Option.map_some, htext]

end StructTables.Json

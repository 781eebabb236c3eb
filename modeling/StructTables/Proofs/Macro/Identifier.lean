import StructTables.Macro.Basic
import StructTables.Proofs.Text.Trim
import StructTables.Text.WordCharacter

/-! # Identifiers and numbers

Both are words of identifier characters, and none of these is a blank. A number begins with a digit
and an identifier does not. -/

namespace StructTables.Macro
open Text

/-! ## Characters -/

variable {c : Char}

theorem isDigit_iff : c.isDigit = true ↔ 48 ≤ c.toNat ∧ c.toNat ≤ 57 := by
  have hdigit : c.isDigit = (decide ('0'.val ≤ c.val) && decide (c.val ≤ '9'.val)) := rfl
  rw [hdigit, Bool.and_eq_true, decide_eq_true_eq, decide_eq_true_eq]
  exact Iff.rfl

theorem isAlpha_iff :
    c.isAlpha = true ↔ (65 ≤ c.toNat ∧ c.toNat ≤ 90) ∨ (97 ≤ c.toNat ∧ c.toNat ≤ 122) := by
  have halpha : c.isAlpha = (decide ('A'.val ≤ c.val ∧ c.val ≤ 'Z'.val) ||
      decide ('a'.val ≤ c.val) && decide (c.val ≤ 'z'.val)) := rfl
  simp only [halpha, Bool.or_eq_true, Bool.and_eq_true, decide_eq_true_eq]
  exact Iff.rfl

theorem isIdentifierStart_iff : isIdentifierStart c = true ↔
    (65 ≤ c.toNat ∧ c.toNat ≤ 90) ∨ (97 ≤ c.toNat ∧ c.toNat ≤ 122) ∨ c.toNat = 95 := by
  have hunderscore : c = '_' ↔ c.toNat = 95 := by
    rw [← Char.toNat_inj]
    rfl
  rw [isIdentifierStart, Bool.or_eq_true, isAlpha_iff, beq_iff_eq, hunderscore, or_assoc]

theorem isIdentifierCharacter_iff :
    isIdentifierCharacter c = true ↔ isIdentifierStart c = true ∨ c.isDigit = true := by
  have halphanum : c.isAlphanum = (c.isAlpha || c.isDigit) := rfl
  rw [isIdentifierCharacter, isIdentifierStart, halphanum]
  simp only [Bool.or_eq_true]
  exact or_right_comm

theorem isIdentifierCharacter_of_isIdentifierStart (h : isIdentifierStart c = true) :
    isIdentifierCharacter c = true :=
  isIdentifierCharacter_iff.mpr (.inl h)

theorem isIdentifierCharacter_of_isDigit (h : c.isDigit = true) :
    isIdentifierCharacter c = true :=
  isIdentifierCharacter_iff.mpr (.inr h)

theorem isIdentifierCharacter_of_isHexDigit (h : isHexDigit c = true) :
    isIdentifierCharacter c = true := by
  simp only [isHexDigit, Bool.or_eq_true, Bool.and_eq_true, decide_eq_true_eq] at h
  rcases h with (hdigit | ⟨hlow, hhigh⟩) | ⟨hlow, hhigh⟩
  · exact isIdentifierCharacter_of_isDigit hdigit
  · have hlow : 97 ≤ c.toNat := hlow
    have hhigh : c.toNat ≤ 102 := hhigh
    exact isIdentifierCharacter_of_isIdentifierStart (isIdentifierStart_iff.mpr (by omega))
  · have hlow : 65 ≤ c.toNat := hlow
    have hhigh : c.toNat ≤ 70 := hhigh
    exact isIdentifierCharacter_of_isIdentifierStart (isIdentifierStart_iff.mpr (by omega))

theorem isIdentifierCharacter_of_isSuffixLetter (h : isSuffixLetter c = true) :
    isIdentifierCharacter c = true := by
  simp only [isSuffixLetter, Bool.or_eq_true, beq_iff_eq] at h
  rcases h with ((rfl | rfl) | rfl) | rfl <;> rfl

theorem ne_of_isIdentifierCharacter {d : Char} (h : isIdentifierCharacter c = true)
    (hd : isIdentifierCharacter d = false) : c ≠ d := by
  rintro rfl
  rw [hd] at h
  cases h

theorem isBlank_eq_false (h : isIdentifierCharacter c = true) : isBlank c = false := by
  rw [isIdentifierCharacter_iff, isIdentifierStart_iff, isDigit_iff] at h
  simp only [isBlank, Bool.or_eq_false_iff, Bool.and_eq_false_iff, decide_eq_false_iff_not,
    beq_eq_false_iff_ne]
  omega

theorem isWordCharacter_of_isIdentifierCharacter (h : isIdentifierCharacter c = true) :
    isWordCharacter c = true := by
  rw [isWordCharacter, ← isIdentifierCharacter, h, Bool.true_or]

theorem not_mem_of_all {p : Char → Bool} {t : Text} (h : t.all p = true) (hc : p c = false) :
    c ∉ t := by
  intro hmem
  have hp := List.all_eq_true.mp h c hmem
  rw [hc] at hp
  cases hp

/-! ## Words -/

theorem isBlank_of_mem {t : Text} (h : t.all isIdentifierCharacter = true) (hc : c ∈ t) :
    isBlank c = false :=
  isBlank_eq_false (List.all_eq_true.mp h c hc)

theorem trim_of_all {t : Text} (h : t.all isIdentifierCharacter = true) : trim t = t :=
  trim_eq_self_of_all fun _ hc => isBlank_of_mem h hc

/-- Digits and a suffix are a digit ahead of identifier characters. -/
theorem exists_of_isDigitsThenSuffix {isDigit : Char → Bool}
    (hdigit : ∀ c, isDigit c = true → isIdentifierCharacter c = true) {t : Text}
    (h : isDigitsThenSuffix isDigit t = true) :
    ∃ c r, t = c :: r ∧ isDigit c = true ∧ t.all isIdentifierCharacter = true := by
  obtain ⟨hsome, hrest⟩ := Bool.and_eq_true_iff.mp h
  cases t with
  | nil => simp at hsome
  | cons c r =>
    have hc : isDigit c = true := by
      cases hc : isDigit c with
      | true => rfl
      | false => simp [hc] at hsome
    refine ⟨c, r, rfl, hc, ?_⟩
    rw [← List.takeWhile_append_dropWhile (p := isDigit) (l := c :: r), List.all_append,
      Bool.and_eq_true_iff, List.all_eq_true, List.all_eq_true]
    exact ⟨fun d hd => hdigit d (List.all_eq_true.mp List.all_takeWhile d hd),
      fun d hd => isIdentifierCharacter_of_isSuffixLetter (List.all_eq_true.mp hrest d hd)⟩

/-- A number is a word that begins with a digit. -/
theorem exists_of_isNumeric {t : Text} (h : isNumeric t = true) :
    ∃ c r, t = c :: r ∧ c.isDigit = true ∧ t.all isIdentifierCharacter = true := by
  unfold isNumeric at h
  split at h
  · obtain ⟨c, r, -, -, hall⟩ :=
      exists_of_isDigitsThenSuffix (fun _ => isIdentifierCharacter_of_isHexDigit) h
    exact ⟨'0', _, rfl, rfl, by simpa using ⟨rfl, rfl, by simpa using hall⟩⟩
  · obtain ⟨c, r, -, -, hall⟩ :=
      exists_of_isDigitsThenSuffix (fun _ => isIdentifierCharacter_of_isHexDigit) h
    exact ⟨'0', _, rfl, rfl, by simpa using ⟨rfl, rfl, by simpa using hall⟩⟩
  · exact exists_of_isDigitsThenSuffix (fun _ => isIdentifierCharacter_of_isDigit) h

theorem exists_of_isIdentifier {t : Text} (h : isIdentifier t = true) :
    ∃ c r, t = c :: r ∧ isIdentifierStart c = true ∧ t.all isIdentifierCharacter = true := by
  cases t with
  | nil => cases h
  | cons c r =>
    obtain ⟨hc, hr⟩ := Bool.and_eq_true_iff.mp h
    refine ⟨c, r, rfl, hc, ?_⟩
    rw [List.all_cons, isIdentifierCharacter_of_isIdentifierStart hc, hr]
    rfl

theorem isNumeric_eq_false {t : Text} (h : isIdentifier t = true) : isNumeric t = false := by
  refine Bool.eq_false_iff.mpr ?_
  intro hnumeric
  obtain ⟨c, r, rfl, hdigit, -⟩ := exists_of_isNumeric hnumeric
  obtain ⟨d, s, hcons, hstart, -⟩ := exists_of_isIdentifier h
  obtain ⟨rfl, rfl⟩ := List.cons.inj hcons
  rw [isIdentifierStart_iff] at hstart
  rw [isDigit_iff] at hdigit
  omega

end StructTables.Macro

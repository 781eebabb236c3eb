import StructTables.Macro.Collector
import StructTables.Proofs.Macro.Identifier

/-! # Mentions

Putting delimiters around the names of a formula neither adds nor hides a word, so the names that a
written value mentions can be read off the value itself. -/

namespace StructTables.Macro
open Text

namespace Formula

/-! ## Words -/

/-- Whether no word goes on with the text. -/
def startsApart : Text → Bool
  | [] => true
  | c :: _ => !isIdentifierCharacter c

theorem pieces_other {c : Char} (h : isIdentifierCharacter c = false) (r : Text) :
    pieces (c :: r) = .other c :: pieces r := by
  simp [pieces, h]

theorem pieces_word {w r : Text} (hne : w ≠ []) (hw : w.all isIdentifierCharacter = true)
    (hr : startsApart r = true) : pieces (w ++ r) = .word w :: pieces r := by
  induction w with
  | nil => exact absurd rfl hne
  | cons c more ih =>
    obtain ⟨hc, hmore⟩ := Bool.and_eq_true_iff.mp hw
    cases more with
    | cons d rest =>
      rw [List.cons_append, pieces, ih (List.cons_ne_nil d rest) hmore, if_pos hc]
    | nil =>
      cases r with
      | nil => simp [pieces, hc]
      | cons e rest =>
        have he : isIdentifierCharacter e = false := by simpa [startsApart] using hr
        simp [pieces, hc, he]

theorem startsApart_dropWhile (t : Text) :
    startsApart (t.dropWhile isIdentifierCharacter) = true := by
  cases h : t.dropWhile isIdentifierCharacter with
  | nil => rfl
  | cons c r =>
    have hc := List.head?_dropWhile_not isIdentifierCharacter t
    rw [h] at hc
    simpa [startsApart] using hc

/-- Induction over a text as a formula: other characters one by one, and words as a whole. -/
@[elab_as_elim]
theorem wordInduction {P : Text → Prop} (nil : P [])
    (other : ∀ c r, isIdentifierCharacter c = false → P r → P (c :: r))
    (word : ∀ w r, w ≠ [] → w.all isIdentifierCharacter = true → startsApart r = true → P r →
      P (w ++ r)) (t : Text) : P t := by
  induction hn : t.length using Nat.strongRecOn generalizing t with
  | _ n ih =>
    cases t with
    | nil => exact nil
    | cons c r =>
      cases hc : isIdentifierCharacter c with
      | false => exact other c r hc (ih r.length (by simp at hn; omega) r rfl)
      | true =>
        let w := (c :: r).takeWhile isIdentifierCharacter
        let rest := (c :: r).dropWhile isIdentifierCharacter
        have hsplit : w ++ rest = c :: r := List.takeWhile_append_dropWhile
        have hne : w ≠ [] := by simp [w, hc]
        have hlt : rest.length < n := by
          have hlen := congrArg List.length hsplit
          have hpos := List.length_pos_iff.mpr hne
          rw [List.length_append] at hlen
          omega
        rw [← hsplit]
        exact word w rest hne List.all_takeWhile (startsApart_dropWhile _) (ih _ hlt rest rfl)

/-! ## Writing -/

theorem written_other {c : Char} (h : isIdentifierCharacter c = false) (r : Text) :
    written (c :: r) = c :: written r := by
  simp [written, pieces_other h, Piece.written]

theorem written_word {w r : Text} (hne : w ≠ []) (hw : w.all isIdentifierCharacter = true)
    (hr : startsApart r = true) :
    written (w ++ r) = (if isMention w then bound w else w) ++ written r := by
  simp [written, pieces_word hne hw hr, Piece.written]

theorem mentions_other {c : Char} (h : isIdentifierCharacter c = false) (r : Text) :
    mentions (c :: r) = mentions r := by
  rw [mentions, pieces_other h, List.filterMap_cons_none rfl, mentions]

theorem mentions_word {w r : Text} (hne : w ≠ []) (hw : w.all isIdentifierCharacter = true)
    (hr : startsApart r = true) :
    mentions (w ++ r) = (if isMention w then [w] else []) ++ mentions r := by
  rw [mentions, pieces_word hne hw hr]
  by_cases hm : isMention w = true
  · rw [List.filterMap_cons_some (by rw [Piece.mention?, if_pos hm]), if_pos hm, mentions]
    rfl
  · rw [List.filterMap_cons_none (by rw [Piece.mention?, if_neg hm]), if_neg hm, mentions]
    rfl

theorem startsApart_written {t : Text} (h : startsApart t = true) :
    startsApart (written t) = true := by
  cases t with
  | nil => rfl
  | cons c r =>
    have hc : isIdentifierCharacter c = false := by simpa [startsApart] using h
    rw [written_other hc]
    exact h

/-- The written formula mentions what the formula mentions. -/
theorem mentions_written (t : Text) : mentions (written t) = mentions t := by
  induction t using wordInduction with
  | nil => rfl
  | other c r hc ih => rw [written_other hc, mentions_other hc, mentions_other hc, ih]
  | word w r hne hw hr ih =>
    have hrest := startsApart_written hr
    rw [written_word hne hw hr, mentions_word hne hw hr, ← ih]
    split
    case isTrue hm =>
      have hmark : isIdentifierCharacter '#' = false := rfl
      have hbound : bound w ++ written r = '#' :: '#' :: (w ++ '#' :: '#' :: written r) := by
        simp [bound, delimiter]
      rw [hbound, mentions_other hmark, mentions_other hmark, mentions_word hne hw (by rfl),
        mentions_other hmark, mentions_other hmark, if_pos hm]
    case isFalse hm => rw [mentions_word hne hw hrest, if_neg hm]

end Formula

/-! ## Values -/

theorem mentions_of_isNumeric {t : Text} (h : isNumeric t = true) : Formula.mentions t = [] := by
  obtain ⟨c, r, rfl, hc, hall⟩ := exists_of_isNumeric h
  have hword := Formula.mentions_word (w := c :: r) (r := []) (by simp) hall rfl
  rw [List.append_nil] at hword
  rw [hword, if_neg (by simp [Formula.isMention, hc])]
  rfl

/-- A captured value mentions what its definition does. -/
theorem mentions_value_ofText (name value : Text) :
    Formula.mentions (Definition.ofText name value).value =
      (Definition.ofText name value).mentions := by
  unfold Definition.ofText
  cases h : isNumeric (trim value) with
  | true => simpa [h] using mentions_of_isNumeric h
  | false => simpa [h] using Formula.mentions_written (trim value)

end StructTables.Macro

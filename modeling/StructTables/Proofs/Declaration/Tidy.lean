import StructTables.Declaration
import StructTables.Proofs.Text.Cutting
import StructTables.Proofs.Text.Replacing
import StructTables.Proofs.Text.Trim

/-! # Tidying words and reading declarators

A text of words with single spaces between them is tidy already. Of a declarator, the size is cut off
at its first bracket or its colon, and the sizes in a run of brackets come out with commas between
them. -/

namespace StructTables.Declaration
open Text

/-! ## Words -/

/-- A character that tidying leaves alone. -/
def isSolid (c : Char) : Bool := !isBlank c && !isMark c

variable {c : Char} {r : Text}

theorem isSolid_iff : isSolid c = true ↔ isBlank c = false ∧ isMark c = false := by
  simp [isSolid]

theorem tidyFrom_blank (h : isBlank c = true) (word gap : Bool) (r : Text) :
    tidyFrom word gap (c :: r) = tidyFrom word true r := by
  rw [tidyFrom, if_pos h]

theorem tidyFrom_mark (hb : isBlank c = false) (h : isMark c = true) (word gap : Bool) (r : Text) :
    tidyFrom word gap (c :: r) = c :: tidyFrom false false r := by
  rw [tidyFrom, if_neg (by simp [hb]), if_pos h]

/-- Ahead of the first word a blank makes no difference. -/
theorem tidyFrom_gap (gap : Bool) (r : Text) : tidyFrom false gap r = tidy r := by
  cases gap with
  | false => rfl
  | true =>
    rw [tidy]
    induction r with
    | nil => rfl
    | cons c more => simp only [tidyFrom, Bool.false_and]

theorem tidy_trimStart (t : Text) : tidy (trimStart t) = tidy t := by
  induction t with
  | nil => rfl
  | cons c r ih =>
    cases hc : isBlank c with
    | true =>
      rw [trimStart, List.dropWhile_cons_of_pos hc, ← trimStart, ih]
      exact ((tidyFrom_blank hc false false r).trans (tidyFrom_gap true r)).symm
    | false => rw [trimStart, List.dropWhile_cons_of_neg (by simp [hc])]

/-- A word is copied, with one space ahead of it if it is parted from another word. -/
theorem tidyFrom_word {w : Text} (hne : w ≠ []) (hw : w.all isSolid = true) (word gap : Bool)
    (r : Text) :
    tidyFrom word gap (w ++ r) =
      (if word && gap then [' '] else []) ++ (w ++ tidyFrom true false r) := by
  induction w generalizing word gap with
  | nil => exact absurd rfl hne
  | cons c more ih =>
    obtain ⟨hc, hmore⟩ := Bool.and_eq_true_iff.mp hw
    obtain ⟨hblank, hmark⟩ := isSolid_iff.mp hc
    have hrest : tidyFrom true false (more ++ r) = more ++ tidyFrom true false r := by
      cases more with
      | nil => rfl
      | cons d more => simpa using ih (List.cons_ne_nil d more) hmore true false
    rw [List.cons_append, tidyFrom, if_neg (by simp [hblank]), if_neg (by simp [hmark]), hrest]
    cases word <;> cases gap <;> rfl

theorem tidyFrom_words {words : List Text} (h : ∀ w ∈ words, w ≠ [] ∧ w.all isSolid = true)
    (r : Text) :
    tidyFrom true false (words.flatMap (' ' :: ·) ++ r) =
      words.flatMap (' ' :: ·) ++ tidyFrom true false r := by
  induction words with
  | nil => rfl
  | cons w more ih =>
    obtain ⟨⟨hne, hw⟩, hmore⟩ := List.forall_mem_cons.mp h
    rw [List.flatMap_cons, List.append_assoc, List.cons_append, tidyFrom_blank rfl,
      tidyFrom_word hne hw, ih hmore]
    simp

theorem mem_of_mem_tidyFrom {word gap : Bool} {d : Char} {t : Text} (h : d ∈ tidyFrom word gap t) :
    d = ' ' ∨ d ∈ t := by
  induction t generalizing word gap with
  | nil => cases h
  | cons c r ih =>
    have hrest : ∀ {word gap}, d ∈ tidyFrom word gap r → d = ' ' ∨ d ∈ c :: r := fun h =>
      (ih h).imp_right (List.mem_cons_of_mem c)
    have hcons : ∀ {word gap}, d ∈ c :: tidyFrom word gap r → d = ' ' ∨ d ∈ c :: r := fun h => by
      rcases List.mem_cons.mp h with rfl | h
      · exact .inr List.mem_cons_self
      · exact hrest h
    rw [tidyFrom] at h
    split at h
    · exact hrest h
    · split at h
      · exact hcons h
      · split at h
        · exact (List.mem_cons.mp h).elim .inl hcons
        · exact hcons h

/-! ## Brackets -/

/-- Sizes in brackets of their own, one behind the other. -/
def brackets (sizes : List Text) : Text := sizes.flatMap fun size => '[' :: size ++ [']']

theorem brackets_cons (size : Text) (more : List Text) :
    brackets (size :: more) = '[' :: (size ++ ']' :: brackets more) := by
  simp [brackets]

/-- Sizes within brackets become sizes with commas between them, within one pair of brackets. -/
theorem replaceFrom_brackets {first : Text} {more : List Text}
    (h : ∀ size ∈ first :: more, ']' ∉ size) :
    replaceFrom [']', '['] [','] 0 (first ++ ']' :: brackets more) =
      join [','] (first :: more) ++ [']'] := by
  induction more generalizing first with
  | nil =>
    rw [replaceFrom_append (h first List.mem_cons_self), join_singleton]
    rfl
  | cons second more ih =>
    obtain ⟨hfirst, hmore⟩ := List.forall_mem_cons.mp h
    have hstep : replaceFrom [']', '['] [','] 0 (']' :: '[' :: (second ++ ']' :: brackets more)) =
        ',' :: replaceFrom [']', '['] [','] 0 (second ++ ']' :: brackets more) := rfl
    have hjoin : join [','] (first :: second :: more) =
        first ++ [','] ++ join [','] (second :: more) := List.intercalate_cons_cons
    rw [replaceFrom_append hfirst, brackets_cons, hstep, ih hmore, hjoin]
    simp

theorem dimensions_brackets {first : Text} {more : List Text}
    (h : ∀ size ∈ first :: more, '[' ∉ size ∧ ']' ∉ size) :
    dimensions (brackets (first :: more)) = join [','] (first :: more) := by
  have hopen : startsWith ('[' :: (first ++ ']' :: brackets more)) [']', '['] = false := by
    simp [startsWith, List.isPrefixOf]
  have hkeep : ∀ c ∈ join [','] (first :: more), (c != '[' && c != ']') = true := by
    intro c hc
    simp only [join_cons, List.mem_append, List.mem_flatMap, List.mem_cons, List.not_mem_nil,
      or_false] at hc
    have hno : ∀ size ∈ first :: more, c ∈ size → (c != '[' && c != ']') = true := by
      intro size hsize hmem
      have hne := h size hsize
      simp only [Bool.and_eq_true, bne_iff_ne]
      exact ⟨fun heq => hne.1 (heq ▸ hmem), fun heq => hne.2 (heq ▸ hmem)⟩
    rcases hc with hc | ⟨size, hsize, rfl | hc⟩
    · exact hno first List.mem_cons_self hc
    · rfl
    · exact hno size (List.mem_cons_of_mem _ hsize) hc
  rw [dimensions, replaceAll, brackets_cons, replaceFrom, hopen, if_neg Bool.false_ne_true,
    replaceFrom_brackets fun size hsize => (h size hsize).2]
  simp [List.filter_append, List.filter_eq_self.mpr hkeep]

/-! ## Types -/

/-- What a declaration is parted within ends at its first mark. -/
theorem takeWhile_append_mark {head rest : Text} (hhead : ∀ c ∈ head, isMark c = false)
    (hrest : ∀ c ∈ rest.head?, c = ',' ∨ c = '[' ∨ c = ':') :
    (head ++ rest).takeWhile (fun c => c != ',' && c != '[' && c != ':') = head := by
  have hkeep : ∀ c ∈ head, (c != ',' && c != '[' && c != ':') = true := fun c hc => by
    have hmark := hhead c hc
    simp only [isMark, Bool.or_eq_false_iff] at hmark
    simp [bne, hmark.1.1.1, hmark.1.2, hmark.2]
  have hend : rest.takeWhile (fun c => c != ',' && c != '[' && c != ':') = [] := by
    cases rest with
    | nil => rfl
    | cons c r =>
      refine List.takeWhile_cons_of_neg ?_
      rcases hrest c rfl with rfl | rfl | rfl <;> decide
  rw [List.takeWhile_append_of_pos hkeep, hend, List.append_nil]

theorem all_isSolid_iff {t : Text} :
    t.all isSolid = true ↔ ∀ c ∈ t, isBlank c = false ∧ isMark c = false := by
  simp only [List.all_eq_true, isSolid_iff]

/-- The last word ahead of the first mark is the name of a variable, with its stars. -/
theorem typeAndNames?_append {type named rest : Text} (htype : ∀ c ∈ type, isMark c = false)
    (hnamed : named.all isSolid = true) (hrest : ∀ c ∈ rest.head?, c = ',' ∨ c = '[' ∨ c = ':') :
    typeAndNames? (type ++ ' ' :: (named ++ rest)) = some (trim type, named ++ rest) := by
  have hhead : ∀ c ∈ type ++ ' ' :: named, isMark c = false :=
    List.forall_mem_append.mpr ⟨htype, List.forall_mem_cons.mpr
      ⟨rfl, fun c hc => (all_isSolid_iff.mp hnamed c hc).2⟩⟩
  have hblank : ' ' ∉ named := fun hc => by cases List.all_eq_true.mp hnamed ' ' hc
  have hsplit : type ++ ' ' :: (named ++ rest) = (type ++ ' ' :: named) ++ rest := by simp
  rw [typeAndNames?, hsplit, takeWhile_append_mark hhead hrest, cutLast?_append _ hblank,
    Option.map_some, List.drop_left]

/-- One word ahead of the first mark is not parted. -/
theorem typeAndNames?_eq_none {named rest : Text} (hnamed : named.all isSolid = true)
    (hrest : ∀ c ∈ rest.head?, c = ',' ∨ c = '[' ∨ c = ':') :
    typeAndNames? (named ++ rest) = none := by
  have hblank : ' ' ∉ named := fun hc => by cases List.all_eq_true.mp hnamed ' ' hc
  rw [typeAndNames?, takeWhile_append_mark (fun c hc => (all_isSolid_iff.mp hnamed c hc).2) hrest,
    cutLast?_eq_none hblank, Option.map_none]

/-! ## Declarators -/

/-- The declarator of a name with its stars, and nothing behind it. -/
def bare (named : Text) : Declarator where
  name := trim (named.dropWhile (· == '*'))
  stars := (named.takeWhile (· == '*')).length

variable {named : Text}

theorem mem_bare_name {c : Char} (hblank : isBlank c = false) (hstar : c ≠ '*') (h : c ∈ named) :
    c ∈ (bare named).name := by
  have hsplit := List.takeWhile_append_dropWhile (p := (· == '*')) (l := named)
  rw [← hsplit] at h
  rcases List.mem_append.mp h with h | h
  · have hc : (c == '*') = true := List.all_eq_true.mp List.all_takeWhile c h
    exact absurd (eq_of_beq hc) hstar
  · exact mem_trim hblank h

/-- The stars of a declarator are those ahead of anything else. -/
theorem bare_replicate (stars : Nat) (h : ∀ c ∈ named.head?, c ≠ '*') :
    bare (List.replicate stars '*' ++ named) = { name := trim named, stars := stars } := by
  have hkeep : ∀ d ∈ List.replicate stars '*', (d == '*') = true := fun d hd => by
    rw [List.eq_of_mem_replicate hd]
    rfl
  have htake : named.takeWhile (· == '*') = [] := by
    cases named with
    | nil => rfl
    | cons c r => exact List.takeWhile_cons_of_neg (by simpa using h c rfl)
  have hdrop : named.dropWhile (· == '*') = named := by
    cases named with
    | nil => rfl
    | cons c r => exact List.dropWhile_cons_of_neg (by simpa using h c rfl)
  rw [bare, List.takeWhile_append_of_pos hkeep, List.dropWhile_append_of_pos hkeep, htake, hdrop,
    List.append_nil, List.length_replicate]

theorem ofText_bare (hbracket : '[' ∉ named) (hcolon : ':' ∉ named) :
    Declarator.ofText named = bare named := by
  simp [Declarator.ofText, bare, hbracket, hcolon]

theorem ofText_array (hbracket : '[' ∉ named) (r : Text) :
    Declarator.ofText (named ++ '[' :: r) =
      { bare named with arraySize := dimensions ('[' :: r) } := by
  have hkeep : ∀ c ∈ named, (c != '[') = true := fun c hc =>
    bne_iff_ne.mpr fun heq => hbracket (heq ▸ hc)
  have hsized : (named ++ '[' :: r).contains '[' = true := by simp
  rw [Declarator.ofText, hsized, if_pos rfl, List.takeWhile_append_of_pos hkeep,
    List.dropWhile_append_of_pos hkeep, List.takeWhile_cons_of_neg (by simp),
    List.dropWhile_cons_of_neg (by simp), List.append_nil]
  rfl

theorem ofText_bits (hbracket : '[' ∉ named) (hcolon : ':' ∉ named) {r : Text} (hr : '[' ∉ r) :
    Declarator.ofText (named ++ ':' :: r) = { bare named with bitLength := trim r } := by
  have hkeep : ∀ c ∈ named, (c != ':') = true := fun c hc =>
    bne_iff_ne.mpr fun heq => hcolon (heq ▸ hc)
  have hunsized : (named ++ ':' :: r).contains '[' = false := by simp [hbracket, hr]
  have hbits : (named ++ ':' :: r).contains ':' = true := by simp
  rw [Declarator.ofText, hunsized, if_neg Bool.false_ne_true, hbits, if_pos rfl,
    List.takeWhile_append_of_pos hkeep, List.dropWhile_append_of_pos hkeep,
    List.takeWhile_cons_of_neg (by simp), List.dropWhile_cons_of_neg (by simp), List.append_nil]
  rfl

end StructTables.Declaration

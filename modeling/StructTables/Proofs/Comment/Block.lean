import StructTables.Comment
import StructTables.Proofs.Text.Cutting
import StructTables.Proofs.Text.Trim

/-! # Blocks on one line

A block comment that ends on the line on which it begins says what stands between its delimiters, if
there is no star and no tag in that. -/

namespace StructTables.Comment
open Text

/-- Up to a blank nothing is removed from a text without stars and backslashes: a slash would have to
stand ahead of a star. -/
theorem withoutDelimiters_append {t : Text} (hstar : '*' ∉ t) (hslash : '\\' ∉ t) (r : Text) :
    withoutDelimiters (t ++ ' ' :: r) = t ++ ' ' :: withoutDelimiters r := by
  induction t with
  | nil =>
    rw [List.nil_append, withoutDelimiters, List.nil_append]
    all_goals simp
  | cons c more ih =>
    obtain ⟨hc, hmore⟩ := List.ne_and_not_mem_of_not_mem_cons hstar
    obtain ⟨hd, hmore'⟩ := List.ne_and_not_mem_of_not_mem_cons hslash
    rw [List.cons_append, withoutDelimiters, ih hmore hmore', List.cons_append]
    · intro s _ hs
      cases more with
      | nil => cases hs
      | cons d more => exact List.ne_of_not_mem_cons hmore (List.cons.inj hs).1.symm
    · exact fun heq => hc heq.symm
    · exact fun _ _ heq => absurd heq.symm hd

variable {t : Text}

theorem blockPiece_block (htrim : trim t = t) (hstar : '*' ∉ t) (hslash : '\\' ∉ t) :
    blockPiece ("/* ".toList ++ t ++ " */".toList) = t := by
  have hopen : withoutDelimiters ("/* ".toList ++ t ++ " */".toList) =
      withoutDelimiters (' ' :: t ++ [' ', '*', '/']) := by
    show withoutDelimiters ('/' :: '*' :: (' ' :: t ++ [' ', '*', '/'])) = _
    rw [withoutDelimiters]
    rfl
  have hclose : withoutDelimiters ['*', '/'] = [] := by
    rw [withoutDelimiters]
    split
    case h_1 s hs =>
      obtain rfl : [] = s := (List.cons.inj (show ['/'] = '/' :: s from hs)).2
      rw [withoutDelimiters]
    case h_2 hno => exact (hno [] rfl).elim
  have hinside : withoutDelimiters (' ' :: t ++ [' ', '*', '/']) = ' ' :: (t ++ [' ']) := by
    rw [withoutDelimiters_append (t := ' ' :: t) (by simpa using hstar) (by simpa using hslash),
      hclose]
    rfl
  have hdrop : t.dropWhile (· == '*') = t := by
    cases t with
    | nil => rfl
    | cons c r =>
      have hc := List.ne_of_not_mem_cons hstar
      rw [List.dropWhile_cons_of_neg (by simp [Ne.symm hc])]
  rw [blockPiece, hopen, hinside, trim_cons_of_isBlank rfl, trim_append_of_isBlank rfl, htrim,
    hdrop, htrim]

theorem continuation_trim (opening : Text) (below : List Text) :
    continuation (trim opening) below = continuation opening below := by
  rw [continuation, continuation, trim_trim]

/-- A block that ends on its line goes on over no other. -/
theorem continuation_block (inside : Text) (below : List Text) :
    continuation ('/' :: '*' :: (inside ++ ['*', '/'])) below = [] := by
  have htrim : trim ('/' :: '*' :: (inside ++ ['*', '/'])) = '/' :: '*' :: (inside ++ ['*', '/']) := by
    have hself := trim_cons_append ('*' :: (inside ++ ['*'])) (c := '/') (e := '/') rfl rfl
    simpa using hself
  have hends : endsBlock ('/' :: '*' :: (inside ++ ['*', '/'])) = true :=
    List.isSuffixOf_iff_suffix.mpr ⟨'/' :: '*' :: inside, rfl⟩
  rw [continuation, htrim, hends]
  rfl

theorem read_block (htrim : trim t = t) (hne : t ≠ []) (hstar : '*' ∉ t) (hslash : '\\' ∉ t)
    (below : List Text) : read ("/* ".toList ++ t ++ " */".toList) below = ⟨t, 0⟩ := by
  have hpiece := blockPiece_block htrim hstar hslash
  generalize hopening : "/* ".toList ++ t ++ " */".toList = opening at hpiece ⊢
  have hcons : opening = '/' :: ("* ".toList ++ t ++ " *".toList ++ ['/']) := by simp [← hopening]
  have hself : trim opening = opening := by
    rw [hcons]
    exact trim_cons_append _ rfl rfl
  have hline : beginsLine opening = false := hopening ▸ rfl
  have hblock : beginsBlock opening = true := hopening ▸ rfl
  have hmore : continuation opening below = [] := by
    have hsplit : opening = '/' :: '*' :: (" ".toList ++ t ++ " ".toList ++ ['*', '/']) := by
      simp [← hopening]
    rw [hsplit]
    exact continuation_block _ below
  rw [read, hmore, List.map_singleton, piece, hself, hline, hblock, if_neg Bool.false_ne_true,
    if_pos rfl, hpiece]
  simp [hne, join]

end StructTables.Comment

import StructTables.Text.Basic

/-! # Cutting what was put together

A text that was put together around a mark is cut apart at that mark again, as long as the mark does
not occur within its parts. -/

namespace StructTables.Text

variable {mark : Char} {before : Text}

theorem cutFirst?_append (h : mark ∉ before) (after : Text) :
    cutFirst? mark (before ++ mark :: after) = some (before, after) := by
  induction before with
  | nil => simp [cutFirst?]
  | cons c r ih =>
    obtain ⟨hc, hr⟩ := List.ne_and_not_mem_of_not_mem_cons h
    rw [List.cons_append, cutFirst?, if_neg (Ne.symm hc), ih hr]
    rfl

theorem cutFirst?_eq_none {t : Text} (h : mark ∉ t) : cutFirst? mark t = none := by
  cases hcut : cutFirst? mark t with
  | none => rfl
  | some parts => exact absurd (by simp [eq_of_cutFirst? hcut]) h

theorem cutLast?_eq_none {t : Text} (h : mark ∉ t) : cutLast? mark t = none := by
  induction t with
  | nil => rfl
  | cons c r ih =>
    obtain ⟨hc, hr⟩ := List.ne_and_not_mem_of_not_mem_cons h
    simp [cutLast?, ih hr, Ne.symm hc]

theorem cutLast?_append (before : Text) {after : Text} (h : mark ∉ after) :
    cutLast? mark (before ++ mark :: after) = some (before, after) := by
  induction before with
  | nil => simp [cutLast?, cutLast?_eq_none h]
  | cons c r ih => simp [cutLast?, ih]

/-- What a text is cut at stands between the two parts. -/
theorem eq_of_cut? {mark t before after : Text} (h : cut? mark t = some (before, after)) :
    t = before ++ (mark ++ after) := by
  induction t generalizing before with
  | nil =>
    unfold cut? at h
    split at h
    case isTrue hmark =>
      cases h
      rw [List.isEmpty_iff.mp hmark]
      rfl
    case isFalse => cases h
  | cons c r ih =>
    unfold cut? at h
    split at h
    case isTrue hmark =>
      cases h
      exact (List.prefix_iff_eq_append.mp (List.isPrefixOf_iff_prefix.mp hmark)).symm
    case isFalse =>
      obtain ⟨⟨b, a⟩, hr, hba⟩ := Option.map_eq_some_iff.mp h
      cases hba
      exact congrArg (c :: ·) (ih hr)

theorem exists_cutLast? {t : Text} (h : mark ∈ t) :
    ∃ before after, cutLast? mark t = some (before, after) := by
  induction t with
  | nil => cases h
  | cons c r ih =>
    cases hr : cutLast? mark r with
    | some parts => exact ⟨c :: parts.1, parts.2, by simp [cutLast?, hr]⟩
    | none =>
      have hmem : mark ∉ r := fun hmem => by
        obtain ⟨inside, after, hcut⟩ := ih hmem
        rw [hcut] at hr
        cases hr
      obtain rfl : mark = c := (List.mem_cons.mp h).resolve_right hmem
      exact ⟨[], r, by simp [cutLast?, hr]⟩

/-! ## Pieces -/

section Pieces

variable {p : Char → Bool} {s t piece : Text} {c : Char}

theorem piecesBetween_ne_nil (p : Char → Bool) (t : Text) : piecesBetween p t ≠ [] := by
  cases t with
  | nil => exact List.cons_ne_nil _ _
  | cons c r =>
    rw [piecesBetween]
    split
    · exact List.cons_ne_nil _ _
    · split <;> exact List.cons_ne_nil _ _

theorem mem_piecesBetween (h : piece ∈ piecesBetween p t) (hc : c ∈ piece) :
    c ∈ t ∧ p c = false := by
  induction t generalizing piece with
  | nil => simp_all [piecesBetween]
  | cons d r ih =>
    have hrest : piece ∈ piecesBetween p r → c ∈ d :: r ∧ p c = false := fun h =>
      (ih h hc).imp_left (List.mem_cons_of_mem _)
    rw [piecesBetween] at h
    split at h
    case isTrue =>
      rcases List.mem_cons.mp h with rfl | h
      · cases hc
      · exact hrest h
    case isFalse hd =>
      split at h
      case h_1 hpieces => exact absurd hpieces (piecesBetween_ne_nil p r)
      case h_2 first more hpieces =>
        rcases List.mem_cons.mp h with rfl | h
        · rcases List.mem_cons.mp hc with rfl | hc
          · exact ⟨List.mem_cons_self, by simpa using hd⟩
          · exact (ih (hpieces ▸ List.mem_cons_self) hc).imp_left (List.mem_cons_of_mem _)
        · exact hrest (hpieces ▸ List.mem_cons_of_mem _ h)

theorem mem_of_mem_piecesBetween (h : piece ∈ piecesBetween p t) (hc : c ∈ piece) : c ∈ t :=
  (mem_piecesBetween h hc).1

theorem piecesBetween_eq_singleton (h : ∀ c ∈ t, p c = false) : piecesBetween p t = [t] := by
  induction t with
  | nil => rfl
  | cons c r ih =>
    obtain ⟨hc, hr⟩ := List.forall_mem_cons.mp h
    simp [piecesBetween, hc, ih hr]

theorem piecesBetween_append (hc : p c = true) (s t : Text) :
    piecesBetween p (s ++ c :: t) = piecesBetween p s ++ piecesBetween p t := by
  induction s with
  | nil => simp [piecesBetween, hc]
  | cons d more ih =>
    rw [List.cons_append, piecesBetween, piecesBetween, ih]
    split
    · rfl
    · obtain ⟨first, pieces, hpieces⟩ := List.exists_cons_of_ne_nil (piecesBetween_ne_nil p more)
      rw [hpieces]
      rfl

end Pieces

theorem splitOn_of_not_mem {t : Text} (h : mark ∉ t) : splitOn mark t = [t] :=
  piecesBetween_eq_singleton fun _ hc => beq_eq_false_iff_ne.mpr fun heq => h (heq ▸ hc)

theorem splitOn_append {piece : Text} (h : mark ∉ piece) (more : Text) :
    splitOn mark (piece ++ mark :: more) = piece :: splitOn mark more := by
  have hpieces := piecesBetween_append (p := (· == mark)) (beq_self_eq_true mark) piece more
  rw [splitOn, hpieces, ← splitOn, splitOn_of_not_mem h]
  rfl

/-- What is put behind a text without the mark goes to its last piece. -/
theorem exists_splitOn_append (mark : Char) (t : Text) :
    ∃ pieces last, ∀ tail, mark ∉ tail → splitOn mark (t ++ tail) = pieces ++ [last ++ tail] := by
  induction t with
  | nil => exact ⟨[], [], fun tail htail => splitOn_of_not_mem htail⟩
  | cons c r ih =>
    obtain ⟨pieces, last, h⟩ := ih
    by_cases hc : c = mark
    · refine ⟨[] :: pieces, last, fun tail htail => ?_⟩
      rw [hc, List.cons_append, ← List.nil_append (mark :: _), splitOn_append List.not_mem_nil,
        h tail htail, List.cons_append]
    · cases pieces with
      | nil =>
        refine ⟨[], c :: last, fun tail htail => ?_⟩
        have hsplit : piecesBetween (· == mark) (r ++ tail) = [last ++ tail] := h tail htail
        simp [splitOn, piecesBetween, hsplit, hc]
      | cons piece more =>
        refine ⟨(c :: piece) :: more, last, fun tail htail => ?_⟩
        have hsplit : piecesBetween (· == mark) (r ++ tail) = piece :: more ++ [last ++ tail] :=
          h tail htail
        simp [splitOn, piecesBetween, hsplit, hc]

/-! ## Joined pieces -/

theorem join_singleton (mark piece : Text) : join mark [piece] = piece :=
  List.intercalate_singleton

theorem join_cons (mark piece : Text) (more : List Text) :
    join mark (piece :: more) = piece ++ more.flatMap (mark ++ ·) := by
  induction more generalizing piece with
  | nil => simp [join_singleton]
  | cons second more ih =>
    rw [join, List.intercalate_cons_cons, ← join, ih, List.flatMap_cons, List.append_assoc,
      List.append_assoc]

theorem join_concat (mark : Text) {pieces : List Text} (h : pieces ≠ []) (piece : Text) :
    join mark (pieces ++ [piece]) = join mark pieces ++ (mark ++ piece) := by
  obtain ⟨first, more, rfl⟩ := List.exists_cons_of_ne_nil h
  simp [join_cons]

theorem mem_of_mem_join {mark : Text} {pieces : List Text} {c : Char} (h : c ∈ join mark pieces) :
    c ∈ mark ∨ ∃ piece ∈ pieces, c ∈ piece := by
  cases pieces with
  | nil => cases h
  | cons piece more =>
    rw [join_cons, List.mem_append, List.mem_flatMap] at h
    rcases h with hpiece | ⟨other, hother, hmem⟩
    · exact .inr ⟨piece, List.mem_cons_self, hpiece⟩
    · exact (List.mem_append.mp hmem).imp_right fun hc => ⟨other, List.mem_cons_of_mem _ hother, hc⟩

/-- Pieces without the mark come back from the text that joins them. -/
theorem splitOn_join {piece : Text} {more : List Text} (h : ∀ p ∈ piece :: more, mark ∉ p) :
    splitOn mark (join [mark] (piece :: more)) = piece :: more := by
  induction more generalizing piece with
  | nil =>
    rw [join_singleton]
    exact splitOn_of_not_mem (h piece List.mem_cons_self)
  | cons second more ih =>
    obtain ⟨hpiece, hmore⟩ := List.forall_mem_cons.mp h
    rw [join, List.intercalate_cons_cons, List.append_assoc, List.singleton_append,
      splitOn_append hpiece, ← join, ih hmore]

/-- Where a prefix ends, of one text behind another. -/
theorem prefix_append_cases {r s t : Text} (h : r <+: s ++ t) :
    r <+: s ∨ ∃ r', r = s ++ r' ∧ r' <+: t := by
  rcases List.prefix_or_prefix_of_prefix h (List.prefix_append s t) with hr | ⟨r', rfl⟩
  · exact .inl hr
  · exact .inr ⟨r', rfl, (List.prefix_append_right_inj s).mp h⟩

theorem startsWith_pair_iff {a b : Char} {t : Text} :
    startsWith t [a, b] = true ↔ ∃ r, t = a :: b :: r := by
  rw [startsWith, List.isPrefixOf_iff_prefix]
  exact ⟨fun ⟨r, h⟩ => ⟨r, h.symm⟩, fun ⟨r, h⟩ => ⟨r, h.symm⟩⟩

theorem endsWith_append_singleton (t : Text) (c mark : Char) :
    endsWith (t ++ [c]) [mark] = (mark == c) := by
  simp [endsWith, List.isSuffixOf, List.isPrefixOf]

theorem endsWith_append_eq_false {s t : Text} {mark : Char} (hs : endsWith s [mark] = false)
    (ht : endsWith t [mark] = false) : endsWith (s ++ t) [mark] = false := by
  rcases t.eq_nil_or_concat with rfl | ⟨init, last, rfl⟩
  · rw [List.append_nil]
    exact hs
  · rw [List.concat_eq_append, endsWith_append_singleton] at ht
    rw [List.concat_eq_append, ← List.append_assoc, endsWith_append_singleton]
    exact ht

/-! ## Lines -/

theorem lines_append_newline {line : Text} (h : '\n' ∉ line) (more : Text) :
    lines (line ++ '\n' :: more) = line :: lines more := by
  induction line with
  | nil => simp [lines]
  | cons c r ih =>
    obtain ⟨hc, hr⟩ := List.ne_and_not_mem_of_not_mem_cons h
    simp [lines, ih hr, Ne.symm hc]

/-- Lines come back from the text that has a line feed behind each of them. -/
theorem lines_flatMap_newline {ls : List Text} (h : ∀ line ∈ ls, '\n' ∉ line) :
    lines (ls.flatMap (· ++ ['\n'])) = ls := by
  induction ls with
  | nil => rfl
  | cons line more ih =>
    obtain ⟨hline, hmore⟩ := List.forall_mem_cons.mp h
    rw [List.flatMap_cons, List.append_assoc, List.singleton_append, lines_append_newline hline,
      ih hmore]

end StructTables.Text

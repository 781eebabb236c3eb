import StructTables.Proofs.Text.Trim

/-! # Words

A blank parts the words of a text, whatever stands beside it, and a run of blanks parts them no further
than one blank does. A text is collapsed when single spaces part its words. -/

namespace StructTables.Text

/-- The words of a text with one space between them. -/
def collapse (t : Text) : Text := join [' '] (words t)

def IsBlanks (t : Text) : Prop := ∀ c ∈ t, isBlank c = true

instance (t : Text) : Decidable (IsBlanks t) := List.decidableBAll _ t

def IsWord (t : Text) : Prop := t ≠ [] ∧ ∀ c ∈ t, isBlank c = false

variable {c : Char} {t w lead : Text}

theorem IsBlanks.nil : IsBlanks [] := List.forall_mem_nil _

theorem IsBlanks.not_mem (h : IsBlanks t) (hc : isBlank c = false) : c ∉ t := fun hmem => by
  rw [h c hmem] at hc
  cases hc

theorem words_append (hc : isBlank c = true) (s t : Text) :
    words (s ++ c :: t) = words s ++ words t := by
  rw [words, piecesBetween_append hc, List.filter_append]
  rfl

theorem IsBlanks.words_append (h : IsBlanks lead) (t : Text) : words (lead ++ t) = words t := by
  induction lead with
  | nil => rfl
  | cons c r ih =>
    obtain ⟨hc, hr⟩ := List.forall_mem_cons.mp h
    exact (Text.words_append hc [] (r ++ t)).trans (ih hr)

theorem IsBlanks.words_eq_nil (h : IsBlanks t) : words t = [] := by
  have hwords := h.words_append []
  rwa [List.append_nil] at hwords

theorem IsWord.words_eq (h : IsWord w) : words w = [w] := by
  rw [words, piecesBetween_eq_singleton h.2, List.filter_cons_of_pos (by simpa using h.1),
    List.filter_nil]

theorem IsWord.append {s : Text} (hs : ∀ c ∈ s, isBlank c = false) (h : IsWord w) : IsWord (s ++ w) :=
  ⟨List.append_ne_nil_of_right_ne_nil s h.1, List.forall_mem_append.mpr ⟨hs, h.2⟩⟩

theorem isWord_of_mem_words (h : w ∈ words t) : IsWord w := by
  obtain ⟨hpiece, hne⟩ := List.mem_filter.mp h
  exact ⟨by simpa using hne, fun c hc => (mem_piecesBetween hpiece hc).2⟩

theorem mem_of_mem_words (h : w ∈ words t) (hc : c ∈ w) : c ∈ t :=
  mem_of_mem_piecesBetween (List.mem_filter.mp h).1 hc

/-- A text is read word by word: there are blanks ahead of each word, and one blank at least ends it,
unless it is the last. -/
theorem words_induction {motive : Text → Prop} (blanks : ∀ t, IsBlanks t → motive t)
    (last : ∀ lead w, IsBlanks lead → IsWord w → motive (lead ++ w))
    (more : ∀ lead w c r, IsBlanks lead → IsWord w → isBlank c = true → motive r →
      motive (lead ++ (w ++ c :: r)))
    (t : Text) : motive t := by
  -- behind a word and the blank that ends it, all that is known of the rest is that it is shorter
  induction hn : t.length using Nat.strongRecOn generalizing t with
  | _ n ih =>
    obtain ⟨lead, ht, hlead⟩ := exists_trimStart_append t
    cases hstart : trimStart t with
    | nil =>
      rw [hstart, List.append_nil] at ht
      exact blanks t (ht ▸ hlead)
    | cons d s =>
      have hd : isBlank d = false := by
        have hhead := List.head?_dropWhile_not isBlank t
        rwa [← trimStart, hstart] at hhead
      have hsplit := List.takeWhile_append_dropWhile (p := (! isBlank ·)) (l := trimStart t)
      have hword : IsWord ((trimStart t).takeWhile (! isBlank ·)) := by
        refine ⟨by simp [hstart, hd], fun c hc => ?_⟩
        simpa using List.all_eq_true.mp List.all_takeWhile c hc
      rw [← hsplit] at ht
      cases hrest : (trimStart t).dropWhile (! isBlank ·) with
      | nil =>
        rw [hrest, List.append_nil] at ht
        exact ht ▸ last _ _ hlead hword
      | cons c r =>
        have hc : isBlank c = true := by
          have hhead := List.head?_dropWhile_not (! isBlank ·) (trimStart t)
          rw [hrest] at hhead
          simpa using hhead
        rw [hrest] at ht
        have hlength : r.length < n := by
          rw [← hn, ht]
          simp only [List.length_append, List.length_cons]
          omega
        exact ht ▸ more _ _ c r hlead hword hc (ih _ hlength r rfl)

theorem exists_mem_words (h : c ∈ t) (hc : isBlank c = false) : ∃ w ∈ words t, c ∈ w := by
  induction t using words_induction with
  | blanks t hblanks => exact absurd h (hblanks.not_mem hc)
  | last lead w hlead hw =>
    rw [hlead.words_append, hw.words_eq]
    exact ⟨w, List.mem_singleton_self w, (List.mem_append.mp h).resolve_left (hlead.not_mem hc)⟩
  | more lead w d r hlead hw hd ih =>
    rw [hlead.words_append, words_append hd, hw.words_eq]
    rcases List.mem_append.mp ((List.mem_append.mp h).resolve_left (hlead.not_mem hc)) with hmem | hmem
    · exact ⟨w, List.mem_cons_self, hmem⟩
    · have hne : c ≠ d := fun heq => by rw [heq, hd] at hc; cases hc
      obtain ⟨word, hword, hmem⟩ := ih ((List.mem_cons.mp hmem).resolve_left hne)
      exact ⟨word, List.mem_cons_of_mem _ hword, hmem⟩

/-! ## Collapsed texts -/

theorem mem_of_mem_collapse (h : c ∈ collapse t) : c = ' ' ∨ c ∈ t := by
  rcases mem_of_mem_join h with hc | ⟨w, hw, hc⟩
  · exact .inl (List.mem_singleton.mp hc)
  · exact .inr (mem_of_mem_words hw hc)

theorem collapse_ne_nil (h : words t ≠ []) : collapse t ≠ [] := by
  obtain ⟨w, more, hwords⟩ := List.exists_cons_of_ne_nil h
  rw [collapse, hwords, join_cons]
  exact List.append_ne_nil_of_left_ne_nil (isWord_of_mem_words (hwords ▸ List.mem_cons_self)).1 _

/-- Two texts that are trimmed already are trimmed together, if anything stands ahead. -/
theorem trim_append {s : Text} (hne : s ≠ []) (hs : trim s = s) (ht : trim t = t) :
    trim (s ++ t) = s ++ t := by
  refine trim_eq_self (fun c hc => ?_) fun c hc => ?_
  · rw [List.head?_append, List.head?_eq_some_head hne, Option.some_or] at hc
    refine isBlank_head?_trim (t := s) ?_
    rw [hs, List.head?_eq_some_head hne]
    exact hc
  · rw [List.getLast?_append, Option.mem_def, Option.or_eq_some_iff] at hc
    rcases hc with hc | ⟨-, hc⟩
    · exact isBlank_getLast?_trim (t := t) (ht.symm ▸ hc)
    · exact isBlank_getLast?_trim (t := s) (hs.symm ▸ hc)

theorem IsWord.trim_eq (h : IsWord w) : trim w = w := trim_eq_self_of_all h.2

theorem collapse_append_word (hne : words t ≠ []) (hc : isBlank c = true) (hlead : IsBlanks lead)
    (hw : IsWord w) : collapse (t ++ c :: (lead ++ w)) = collapse t ++ ' ' :: w := by
  rw [collapse, words_append hc, hlead.words_append, hw.words_eq, join_concat _ hne]
  rfl

/-- The first word of a text stands ahead of the others. -/
theorem IsWord.collapse_append (h : IsWord w) (hc : isBlank c = true) (hne : words t ≠ []) :
    collapse (w ++ c :: t) = w ++ ' ' :: collapse t := by
  obtain ⟨first, more, hwords⟩ := List.exists_cons_of_ne_nil hne
  rw [collapse, words_append hc, h.words_eq, collapse, hwords]
  simp [join_cons]

theorem words_append_ne_nil (s : Text) (h : IsWord w) : words (s ++ w) ≠ [] := by
  obtain ⟨c, hc⟩ := List.exists_mem_of_ne_nil w h.1
  obtain ⟨word, hword, -⟩ := exists_mem_words (List.mem_append_right s hc) (h.2 c hc)
  exact List.ne_nil_of_mem hword

/-- Trimmed pieces with spaces between them are trimmed as a whole, if there is something to each. -/
theorem trim_join {pieces : List Text} (h : ∀ piece ∈ pieces, piece ≠ [] ∧ trim piece = piece) :
    trim (join [' '] pieces) = join [' '] pieces := by
  refine trim_eq_self (fun c hc => ?_) fun c hc => ?_
  · cases pieces with
    | nil => cases hc
    | cons piece more =>
      obtain ⟨hne, htrim⟩ := h piece List.mem_cons_self
      rw [join_cons, List.head?_append, List.head?_eq_some_head hne, Option.some_or,
        ← List.head?_eq_some_head hne, ← htrim] at hc
      exact isBlank_head?_trim hc
  · rcases List.eq_nil_or_concat pieces with rfl | ⟨init, piece, rfl⟩
    · cases hc
    · obtain ⟨hne, htrim⟩ := h piece (by simp)
      have hjoin : ∃ s, join [' '] (init ++ [piece]) = s ++ piece := by
        rcases List.eq_nil_or_concat init with rfl | ⟨_, _, rfl⟩
        · exact ⟨[], join_singleton _ _⟩
        · exact ⟨_, (join_concat _ (by simp) piece).trans (List.append_assoc _ _ _).symm⟩
      obtain ⟨s, hs⟩ := hjoin
      rw [List.concat_eq_append, hs, List.getLast?_append, List.getLast?_eq_some_getLast hne,
        Option.some_or, ← List.getLast?_eq_some_getLast hne, ← htrim] at hc
      exact isBlank_getLast?_trim hc

theorem trim_collapse (t : Text) : trim (collapse t) = collapse t :=
  trim_join fun _ hw => ⟨(isWord_of_mem_words hw).1, (isWord_of_mem_words hw).trim_eq⟩

theorem IsWord.collapse_eq (h : IsWord w) : collapse w = w := by
  rw [collapse, h.words_eq, join_singleton]

theorem IsBlanks.collapse_append (h : IsBlanks lead) (t : Text) : collapse (lead ++ t) = collapse t := by
  rw [collapse, h.words_append, collapse]

/-- Collapsing takes and gives nothing but blanks. -/
theorem filter_collapse (t : Text) :
    (collapse t).filter (! isBlank ·) = t.filter (! isBlank ·) := by
  have hblanks : ∀ {lead : Text}, IsBlanks lead → lead.filter (! isBlank ·) = [] := fun hlead =>
    List.filter_eq_nil_iff.mpr fun c hc => by simp [hlead c hc]
  induction t using words_induction with
  | blanks t ht => rw [collapse, ht.words_eq_nil, hblanks ht]; rfl
  | last lead w hlead hw =>
    rw [hlead.collapse_append, hw.collapse_eq, List.filter_append, hblanks hlead, List.nil_append]
  | more lead w c r hlead hw hc ih =>
    have hjoin : ∀ ws : List Text, (join [' '] (w :: ws)).filter (! isBlank ·) =
        w.filter (! isBlank ·) ++ (join [' '] ws).filter (! isBlank ·) := by
      intro ws
      have hspace : isBlank ' ' = true := rfl
      cases ws with
      | nil => simp [join]
      | cons v more => simp [join_cons, hspace]
    have hwords : words (w ++ c :: r) = w :: words r := by rw [words_append hc, hw.words_eq]; rfl
    rw [hlead.collapse_append, collapse, hwords, hjoin, ← collapse, ih]
    simp [hblanks hlead, hc]

theorem count_collapse (hc : isBlank c = false) (t : Text) : (collapse t).count c = t.count c := by
  have hkeep : ∀ s : Text, (s.filter (! isBlank ·)).count c = s.count c := fun s =>
    List.count_filter (by simp [hc])
  rw [← hkeep, filter_collapse, hkeep]

/-- A text with a blank ends in the word behind its last blank. -/
theorem exists_last_blank (h : ∃ c ∈ t, isBlank c = true) :
    ∃ front b run, t = front ++ b :: run ∧ isBlank b = true ∧ ∀ c ∈ run, isBlank c = false := by
  induction t with
  | nil => simp at h
  | cons d r ih =>
    by_cases hr : ∃ c ∈ r, isBlank c = true
    · obtain ⟨front, b, run, heq, hb, hrun⟩ := ih hr
      exact ⟨d :: front, b, run, congrArg (d :: ·) heq, hb, hrun⟩
    · have hnone : ∀ c ∈ r, isBlank c = false := fun c hc =>
        Bool.eq_false_iff.mpr fun hblank => hr ⟨c, hc, hblank⟩
      obtain ⟨c, hc, hblank⟩ := h
      rcases List.mem_cons.mp hc with rfl | hc
      · exact ⟨[], c, r, rfl, hblank, hnone⟩
      · exact absurd ⟨c, hc, hblank⟩ hr

end StructTables.Text

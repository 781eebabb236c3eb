import StructTables.Proofs.Text.Cutting
import StructTables.Text.Blank

/-! # Trimming

A text is its trimmed core between two runs of blanks, and a text that neither begins nor ends with a
blank is its own core. Where a text is cut into pieces that are trimmed, it need not be trimmed
itself. -/

namespace StructTables.Text

theorem exists_trimStart_append (t : Text) :
    ∃ lead, t = lead ++ trimStart t ∧ ∀ c ∈ lead, isBlank c = true := by
  refine ⟨t.takeWhile isBlank, List.takeWhile_append_dropWhile.symm, ?_⟩
  exact List.all_eq_true.mp List.all_takeWhile

theorem exists_trimEnd_append (t : Text) :
    ∃ trail, t = trimEnd t ++ trail ∧ ∀ c ∈ trail, isBlank c = true := by
  obtain ⟨lead, ht, hlead⟩ := exists_trimStart_append t.reverse
  refine ⟨lead.reverse, ?_, by simpa using hlead⟩
  have h := congrArg List.reverse ht
  simpa [trimEnd, trimStart] using h

theorem exists_trim_append (t : Text) :
    ∃ lead trail, t = lead ++ trim t ++ trail ∧
      (∀ c ∈ lead, isBlank c = true) ∧ ∀ c ∈ trail, isBlank c = true := by
  obtain ⟨lead, ht, hlead⟩ := exists_trimStart_append t
  obtain ⟨trail, hs, htrail⟩ := exists_trimEnd_append (trimStart t)
  refine ⟨lead, trail, ?_, hlead, htrail⟩
  rw [List.append_assoc, trim, ← hs]
  exact ht

theorem mem_of_mem_trim {t : Text} {c : Char} (h : c ∈ trim t) : c ∈ t := by
  obtain ⟨lead, trail, ht, -, -⟩ := exists_trim_append t
  rw [ht]
  simp [h]

theorem mem_trim {t : Text} {c : Char} (hc : isBlank c = false) (h : c ∈ t) : c ∈ trim t := by
  obtain ⟨lead, trail, ht, hlead, htrail⟩ := exists_trim_append t
  have hgap : ∀ gap : Text, (∀ d ∈ gap, isBlank d = true) → c ∉ gap := fun gap hblank hmem => by
    rw [hblank c hmem] at hc
    cases hc
  rw [ht, List.mem_append, List.mem_append] at h
  rcases h with (hmem | hmem) | hmem
  · exact absurd hmem (hgap lead hlead)
  · exact hmem
  · exact absurd hmem (hgap trail htrail)

theorem trimStart_eq_self {t : Text} (h : ∀ c ∈ t.head?, isBlank c = false) : trimStart t = t := by
  cases t with
  | nil => rfl
  | cons c r => rw [trimStart, List.dropWhile_cons_of_neg (by simp [h c rfl])]

theorem trimEnd_eq_self {t : Text} (h : ∀ c ∈ t.getLast?, isBlank c = false) : trimEnd t = t := by
  have hreverse := trimStart_eq_self (t := t.reverse) (by simpa using h)
  rw [trimStart] at hreverse
  rw [trimEnd, hreverse, List.reverse_reverse]

theorem trimStart_eq_self_iff {t : Text} :
    trimStart t = t ↔ ∀ c ∈ t.head?, isBlank c = false := by
  refine ⟨fun h c hc => ?_, trimStart_eq_self⟩
  have hfirst := List.head?_dropWhile_not isBlank t
  rw [show t.dropWhile isBlank = t from h, hc] at hfirst
  exact hfirst

theorem trimEnd_eq_self_iff {t : Text} :
    trimEnd t = t ↔ ∀ c ∈ t.getLast?, isBlank c = false := by
  refine ⟨fun h => ?_, trimEnd_eq_self⟩
  have hreverse : trimStart t.reverse = t.reverse := by
    simpa [trimEnd, trimStart] using congrArg List.reverse h
  simpa using trimStart_eq_self_iff.mp hreverse

theorem trim_eq_self {t : Text} (hhead : ∀ c ∈ t.head?, isBlank c = false)
    (hlast : ∀ c ∈ t.getLast?, isBlank c = false) : trim t = t := by
  rw [trim, trimStart_eq_self hhead, trimEnd_eq_self hlast]

theorem trim_cons_append {c e : Char} (r : Text) (hc : isBlank c = false) (he : isBlank e = false) :
    trim (c :: (r ++ [e])) = c :: (r ++ [e]) := by
  refine trim_eq_self ?_ ?_ <;> intro d hd
  · exact Option.some.inj hd ▸ hc
  · rw [← List.cons_append, List.getLast?_concat] at hd
    exact Option.some.inj hd ▸ he

theorem trim_eq_self_of_all {t : Text} (h : ∀ c ∈ t, isBlank c = false) : trim t = t :=
  trim_eq_self (fun c hc => h c (List.mem_of_mem_head? hc))
    fun c hc => h c (List.mem_of_mem_getLast? hc)

theorem isBlank_head?_trim {t : Text} {c : Char} (h : c ∈ (trim t).head?) : isBlank c = false := by
  obtain ⟨trail, htrail, -⟩ := exists_trimEnd_append (trimStart t)
  have hhead : (trimStart t).head? = some c := by
    rw [htrail, List.head?_append, show (trimEnd (trimStart t)).head? = some c from h]
    rfl
  have hfirst := List.head?_dropWhile_not isBlank t
  rw [show (t.dropWhile isBlank).head? = some c from hhead] at hfirst
  exact hfirst

theorem isBlank_getLast?_trim {t : Text} {c : Char} (h : c ∈ (trim t).getLast?) :
    isBlank c = false := by
  rw [Option.mem_def, trim, trimEnd, List.getLast?_reverse] at h
  have hlast := List.head?_dropWhile_not isBlank (trimStart t).reverse
  rw [h] at hlast
  exact hlast

theorem trim_trim (t : Text) : trim (trim t) = trim t :=
  trim_eq_self (fun _ => isBlank_head?_trim) fun _ => isBlank_getLast?_trim

theorem trimStart_trim (t : Text) : trimStart (trim t) = trim t :=
  trimStart_eq_self fun _ => isBlank_head?_trim

/-- A text with no blank ahead of it has none with another such text behind it either. -/
theorem trimStart_append {s t : Text} (hs : trimStart s = s) (ht : trimStart t = t) :
    trimStart (s ++ t) = s ++ t := by
  cases s with
  | nil => exact ht
  | cons c r => exact trimStart_eq_self_iff.mpr fun d hd => trimStart_eq_self_iff.mp hs d hd

theorem trim_cons_of_isBlank {c : Char} (h : isBlank c = true) (r : Text) :
    trim (c :: r) = trim r := by
  rw [trim, trimStart, List.dropWhile_cons_of_pos h, ← trimStart, ← trim]

theorem trim_append_of_blanks {lead : Text} (h : ∀ c ∈ lead, isBlank c = true) (t : Text) :
    trim (lead ++ t) = trim t := by
  induction lead with
  | nil => rfl
  | cons c more ih =>
    obtain ⟨hc, hmore⟩ := List.forall_mem_cons.mp h
    rw [List.cons_append, trim_cons_of_isBlank hc, ih hmore]

theorem trim_append_of_isBlank {c : Char} (h : isBlank c = true) (t : Text) :
    trim (t ++ [c]) = trim t := by
  have hend : ∀ s : Text, trimEnd (s ++ [c]) = trimEnd s := fun s => by simp [trimEnd, h]
  rw [trim, trimStart, List.dropWhile_append]
  split
  case isTrue hempty =>
    have hnil : t.dropWhile isBlank = [] := by simpa using hempty
    simp [trim, trimStart, hnil, trimEnd, h]
  case isFalse => exact hend _

theorem trim_append_blanks {trail : Text} (h : ∀ c ∈ trail, isBlank c = true) (t : Text) :
    trim (t ++ trail) = trim t := by
  induction trail generalizing t with
  | nil => rw [List.append_nil]
  | cons c more ih =>
    obtain ⟨hc, hmore⟩ := List.forall_mem_cons.mp h
    rw [← List.singleton_append, ← List.append_assoc, ih hmore, trim_append_of_isBlank hc]

/-- What is not blank at the front stays there. -/
theorem exists_trim_cons {c : Char} (h : isBlank c = false) (r : Text) :
    ∃ s, trim (c :: r) = c :: s := by
  obtain ⟨trail, htrail, hblank⟩ := exists_trimEnd_append (c :: r)
  rw [trim, trimStart_eq_self (by simpa using h)]
  cases hcore : trimEnd (c :: r) with
  | nil =>
    rw [hcore, List.nil_append] at htrail
    exact absurd (hblank c (htrail ▸ List.mem_cons_self)) (by simp [h])
  | cons d s =>
    rw [hcore] at htrail
    exact ⟨s, by rw [(List.cons.inj htrail).1]⟩

/-! ## Trimmed pieces -/

section Pieces

variable {mark : Char}

theorem map_trim_splitOn_cons {c : Char} (hc : isBlank c = true) (hmark : c ≠ mark) (t : Text) :
    (splitOn mark (c :: t)).map trim = (splitOn mark t).map trim := by
  obtain ⟨pieces, last, h⟩ := exists_splitOn_append mark t
  have hself := h [] List.not_mem_nil
  rw [List.append_nil, List.append_nil] at hself
  rw [splitOn, piecesBetween, if_neg (by simpa using hmark), ← splitOn, hself]
  cases pieces <;> simp [trim_cons_of_isBlank hc]

theorem map_trim_splitOn_concat {c : Char} (hc : isBlank c = true) (hmark : c ≠ mark) (t : Text) :
    (splitOn mark (t ++ [c])).map trim = (splitOn mark t).map trim := by
  obtain ⟨pieces, last, h⟩ := exists_splitOn_append mark t
  have hself := h [] List.not_mem_nil
  rw [List.append_nil, List.append_nil] at hself
  rw [h [c] (by simpa using hmark.symm), hself]
  simp [trim_append_of_isBlank hc]

/-- The trimmed pieces of a text are those of the trimmed text. -/
theorem map_trim_splitOn_trim (hmark : isBlank mark = false) (t : Text) :
    (splitOn mark (trim t)).map trim = (splitOn mark t).map trim := by
  have hne : ∀ {c}, isBlank c = true → c ≠ mark := by
    rintro c hc rfl
    exact absurd hc (by simp [hmark])
  have hlead : ∀ (lead r : Text), (∀ c ∈ lead, isBlank c = true) →
      (splitOn mark (lead ++ r)).map trim = (splitOn mark r).map trim := by
    intro lead r h
    induction lead with
    | nil => rfl
    | cons c lead ih =>
      obtain ⟨hc, hlead⟩ := List.forall_mem_cons.mp h
      exact (map_trim_splitOn_cons hc (hne hc) _).trans (ih hlead)
  have htrail : ∀ (trail r : Text), (∀ c ∈ trail, isBlank c = true) →
      (splitOn mark (r ++ trail)).map trim = (splitOn mark r).map trim := by
    intro trail r h
    induction trail generalizing r with
    | nil => rw [List.append_nil]
    | cons c trail ih =>
      obtain ⟨hc, htrail⟩ := List.forall_mem_cons.mp h
      rw [List.append_cons, ih (r ++ [c]) htrail, map_trim_splitOn_concat hc (hne hc)]
  obtain ⟨lead, trail, ht, hblank, hblank'⟩ := exists_trim_append t
  have h := (htrail trail (lead ++ trim t) hblank').trans (hlead lead (trim t) hblank)
  rw [← ht] at h
  exact h.symm

end Pieces

end StructTables.Text

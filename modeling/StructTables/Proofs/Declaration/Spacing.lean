import StructTables.Proofs.Declaration.Tidy
import StructTables.Proofs.Text.Words

/-! # Tidying what is spaced freely

Tidying collapses a text without marks, as long as it does not matter to what follows whether a word
stands ahead of it. That holds of a mark and of the end of a declaration, with blanks ahead of them or
not. -/

namespace StructTables.Declaration
open Text

/-- Tidying the text comes to the same whether a word or a gap stands ahead of it or not. -/
def Settles (r : Text) : Prop := ∀ word gap, tidyFrom word gap r = tidyFrom false false r

theorem settles_nil : Settles [] := fun _ _ => rfl

theorem settles_mark {c : Char} (hb : isBlank c = false) (h : isMark c = true) (r : Text) :
    Settles (c :: r) := fun word gap => by
  rw [tidyFrom_mark hb h, tidyFrom_mark hb h]

variable {lead r t w : Text}

theorem Settles.tidyFrom_blanks (h : Settles r) (hlead : IsBlanks lead) (word gap : Bool) :
    tidyFrom word gap (lead ++ r) = tidyFrom false false r := by
  induction lead generalizing gap with
  | nil => exact h word gap
  | cons c more ih =>
    obtain ⟨hc, hmore⟩ := List.forall_mem_cons.mp hlead
    rw [List.cons_append, tidyFrom_blank hc, ih hmore]

theorem Settles.blanks (h : Settles r) (hlead : IsBlanks lead) : Settles (lead ++ r) :=
  fun word gap => by rw [h.tidyFrom_blanks hlead, h.tidyFrom_blanks hlead]

theorem isMark_of_isBlank {c : Char} (h : isBlank c = true) : isMark c = false := by
  refine Bool.eq_false_iff.mpr fun hmark => ?_
  simp only [isMark, Bool.or_eq_true, beq_iff_eq] at hmark
  rcases hmark with ((rfl | rfl) | rfl) | rfl <;> cases h

/-- Nothing but blanks tidies to nothing. -/
theorem tidyFrom_eq_nil_iff (word gap : Bool) : tidyFrom word gap t = [] ↔ IsBlanks t := by
  induction t generalizing word gap with
  | nil => exact iff_of_true rfl IsBlanks.nil
  | cons c r ih =>
    cases hblank : isBlank c with
    | true =>
      rw [tidyFrom_blank hblank, ih]
      exact ⟨fun h => List.forall_mem_cons.mpr ⟨hblank, h⟩, fun h => (List.forall_mem_cons.mp h).2⟩
    | false =>
      refine iff_of_false (fun h => ?_) fun h => ?_
      · rw [tidyFrom, if_neg (by simp [hblank])] at h
        split at h
        · cases h
        · split at h <;> cases h
      · rw [h c List.mem_cons_self] at hblank
        cases hblank

/-- Blanks ahead of a word come to one space behind another word, and to nothing otherwise. -/
theorem tidyFrom_blanks_word {word gap : Bool} (hgap : word = false ∨ gap = true)
    (hlead : IsBlanks lead) (hw : IsWord w) (hplain : ∀ c ∈ w, isMark c = false) (r : Text) :
    tidyFrom word gap (lead ++ (w ++ r)) =
      (if word then [' '] else []) ++ (w ++ tidyFrom true false r) := by
  induction lead generalizing gap with
  | nil =>
    have hsolid : w.all isSolid = true :=
      List.all_eq_true.mpr fun c hc => by rw [isSolid, hw.2 c hc, hplain c hc]; rfl
    rw [List.nil_append, tidyFrom_word hw.1 hsolid]
    rcases hgap with rfl | rfl
    · rfl
    · cases word <;> rfl
  | cons c more ih =>
    obtain ⟨hc, hmore⟩ := List.forall_mem_cons.mp hlead
    rw [List.cons_append, tidyFrom_blank hc, ih (.inr rfl) hmore]

/-- Behind a word and a blank, each word gets a space ahead of it. -/
theorem Settles.tidyFrom_gap (h : Settles r) (hplain : ∀ c ∈ t, isMark c = false) :
    tidyFrom true true (t ++ r) = (words t).flatMap (' ' :: ·) ++ tidyFrom false false r := by
  induction t using words_induction with
  | blanks t hblanks => rw [h.tidyFrom_blanks hblanks, hblanks.words_eq_nil]; rfl
  | last lead w hlead hw =>
    obtain ⟨-, hplain⟩ := List.forall_mem_append.mp hplain
    rw [List.append_assoc, tidyFrom_blanks_word (.inr rfl) hlead hw hplain, h,
      hlead.words_append, hw.words_eq]
    simp
  | more lead w c s hlead hw hc ih =>
    obtain ⟨-, hplain⟩ := List.forall_mem_append.mp hplain
    obtain ⟨hword, hrest⟩ := List.forall_mem_append.mp hplain
    rw [List.append_assoc, List.append_assoc, tidyFrom_blanks_word (.inr rfl) hlead hw hword,
      List.cons_append, tidyFrom_blank hc, ih (List.forall_mem_cons.mp hrest).2,
      hlead.words_append, words_append hc, hw.words_eq]
    simp

theorem Settles.tidyFrom_append (h : Settles r) (hplain : ∀ c ∈ t, isMark c = false) (gap : Bool) :
    tidyFrom false gap (t ++ r) = collapse t ++ tidyFrom false false r := by
  cases t using words_induction with
  | blanks t hblanks => rw [h.tidyFrom_blanks hblanks, collapse, hblanks.words_eq_nil]; rfl
  | last lead w hlead hw =>
    obtain ⟨-, hplain⟩ := List.forall_mem_append.mp hplain
    rw [List.append_assoc, tidyFrom_blanks_word (.inl rfl) hlead hw hplain, h,
      collapse, hlead.words_append, hw.words_eq, join_singleton]
    rfl
  | more lead w c s hlead hw hc _ =>
    obtain ⟨-, hplain⟩ := List.forall_mem_append.mp hplain
    obtain ⟨hword, hrest⟩ := List.forall_mem_append.mp hplain
    rw [List.append_assoc, List.append_assoc, tidyFrom_blanks_word (.inl rfl) hlead hw hword,
      List.cons_append, tidyFrom_blank hc, h.tidyFrom_gap (List.forall_mem_cons.mp hrest).2,
      collapse, hlead.words_append, words_append hc, hw.words_eq, List.singleton_append, join_cons]
    simp

end StructTables.Declaration

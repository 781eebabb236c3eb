import StructTables.Proofs.Text.Cutting
import StructTables.Proofs.Text.Trim

/-! # Texts on one line

What is cut out of a line, and what is put together from such pieces with marks of its own, is on one
line again. -/

namespace StructTables.Text

/-- A text without a line feed. -/
def OneLine (t : Text) : Prop := '\n' ∉ t

instance : DecidablePred OneLine := fun t => inferInstanceAs (Decidable ('\n' ∉ t))

variable {s t : Text}

@[simp] theorem oneLine_nil : OneLine [] := List.not_mem_nil

theorem oneLine_cons {c : Char} : OneLine (c :: t) ↔ '\n' ≠ c ∧ OneLine t := by
  simp [OneLine]

theorem oneLine_append : OneLine (s ++ t) ↔ OneLine s ∧ OneLine t := by
  simp [OneLine]

theorem OneLine.mono (h : OneLine t) (hs : s ⊆ t) : OneLine s := fun hmem => h (hs hmem)

/-! ## Cutting -/

theorem trim_subset (t : Text) : trim t ⊆ t := fun _ => mem_of_mem_trim

theorem OneLine.trim (h : OneLine t) : OneLine (trim t) := h.mono (trim_subset t)

theorem OneLine.of_mem_splitOn {mark : Char} {piece : Text} (h : OneLine t)
    (hpiece : piece ∈ splitOn mark t) : OneLine piece :=
  h.mono fun _ => mem_of_mem_piecesBetween hpiece

theorem eq_of_cutLast? {mark : Char} {before after : Text}
    (h : cutLast? mark t = some (before, after)) : t = before ++ mark :: after := by
  induction t generalizing before with
  | nil => cases h
  | cons c r ih =>
    unfold cutLast? at h
    split at h
    case h_1 b a hr =>
      cases h
      rw [ih hr, List.cons_append]
    case h_2 =>
      split at h
      case isTrue hc =>
        cases h
        rw [hc, List.nil_append]
      case isFalse => cases h

theorem OneLine.cut {mark : Char} {before after : Text} (h : OneLine t)
    (heq : t = before ++ mark :: after) : OneLine before ∧ OneLine after := by
  subst heq
  obtain ⟨hbefore, hbehind⟩ := oneLine_append.mp h
  exact ⟨hbefore, (oneLine_cons.mp hbehind).2⟩

theorem oneLine_of_mem_piecesBetween {p : Char → Bool} (hp : p '\n' = true) {piece : Text}
    (h : piece ∈ piecesBetween p t) : OneLine piece := by
  intro hmem
  rw [(mem_piecesBetween h hmem).2] at hp
  cases hp

theorem oneLine_of_mem_words {w : Text} (h : w ∈ words t) : OneLine w :=
  oneLine_of_mem_piecesBetween (p := isBlank) rfl (List.mem_filter.mp h).1

theorem oneLine_of_mem_lines {line : Text} (h : line ∈ lines t) : OneLine line := by
  induction t generalizing line with
  | nil => cases h
  | cons c r ih =>
    unfold lines at h
    split at h
    case isTrue =>
      rcases List.mem_cons.mp h with rfl | h
      · exact oneLine_nil
      · exact ih h
    case isFalse hc =>
      split at h
      case h_1 => exact List.mem_singleton.mp h ▸ oneLine_cons.mpr ⟨Ne.symm hc, oneLine_nil⟩
      case h_2 first more hlines =>
        rw [hlines] at ih
        rcases List.mem_cons.mp h with rfl | h
        · exact oneLine_cons.mpr ⟨Ne.symm hc, ih List.mem_cons_self⟩
        · exact ih (List.mem_cons_of_mem _ h)

/-! ## Putting together -/

theorem oneLine_join {mark : Text} {pieces : List Text} (hmark : OneLine mark)
    (h : ∀ piece ∈ pieces, OneLine piece) : OneLine (join mark pieces) := by
  intro hmem
  rcases mem_of_mem_join hmem with hm | ⟨piece, hpiece, hm⟩
  · exact hmark hm
  · exact h piece hpiece hm

theorem OneLine.replaceAll {value : Text} (h : OneLine t) (hvalue : OneLine value) (mark : Text) :
    OneLine (replaceAll mark value t) := by
  have hfrom : ∀ (skip : Nat) {t : Text}, OneLine t → OneLine (replaceFrom mark value skip t) := by
    intro skip t
    induction t generalizing skip with
    | nil => exact fun _ => oneLine_nil
    | cons c r ih =>
      intro h
      obtain ⟨hc, hr⟩ := oneLine_cons.mp h
      match skip with
      | k + 1 => exact ih k hr
      | 0 =>
        unfold replaceFrom
        dsimp only
        split
        · exact oneLine_append.mpr ⟨hvalue, ih _ hr⟩
        · exact oneLine_cons.mpr ⟨hc, ih 0 hr⟩
  exact hfrom 0 h

end StructTables.Text

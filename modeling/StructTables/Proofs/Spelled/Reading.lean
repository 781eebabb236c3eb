import StructTables.Proofs.Body.Lines
import StructTables.Proofs.Comment.Code
import StructTables.Proofs.Spelled.Tidy

/-! # Reading a freely spelled declaration

The text behind the type is cut at its commas, and each piece is a variable with its size. No size
interferes: it has neither a comma nor a terminator in it, and no comment begins in it or at its end. -/

namespace StructTables.Spelled
open Text Declaration Canonical

/-! ## Declarators -/

def Extent.arraySize : Extent → Text
  | .array first more => join [','] ((first :: more).map fun group => collapse group.size.text)
  | .single | .bits .. => []

def Extent.bitLength : Extent → Text
  | .bits _ length => collapse length.text
  | .single | .array .. => []

theorem Size.isMark_of_mem_collapse (size : Size) {c : Char} (hc : c ∈ collapse size.text) :
    isMark c = false := by
  rcases mem_of_mem_collapse hc with rfl | hc
  · rfl
  · exact size.isMark_eq_false c hc

theorem comma_not_mem_tidied (extent : Extent) : ',' ∉ extent.tidied := by
  cases extent with
  | single => exact List.not_mem_nil
  | array first more =>
    intro hc
    simp only [Extent.tidied, brackets, List.flatMap_map, List.mem_flatMap, List.mem_append,
      List.mem_cons, List.not_mem_nil, or_false] at hc
    obtain ⟨group, -, (hc | hc) | hc⟩ := hc
    · cases hc
    · cases group.size.isMark_of_mem_collapse hc
    · cases hc
  | bits ahead length =>
    intro hc
    rcases List.mem_cons.mp hc with hc | hc
    · cases hc
    · cases length.isMark_of_mem_collapse hc

theorem trim_tidied (extent : Extent) : trim extent.tidied = extent.tidied := by
  cases extent with
  | single => rfl
  | array first more =>
    have hend : ∀ (first : Text) more, ∃ s, brackets (first :: more) = '[' :: (s ++ [']']) := by
      intro first more
      induction more generalizing first with
      | nil => exact ⟨first, by simp [brackets]⟩
      | cons second more ih =>
        obtain ⟨s, hs⟩ := ih second
        exact ⟨first ++ ']' :: '[' :: s, by rw [brackets_cons, hs]; simp⟩
    obtain ⟨s, hs⟩ := hend (collapse first.size.text) (more.map fun group => collapse group.size.text)
    rw [Extent.tidied, List.map_cons, hs, trim_cons_append s rfl rfl]
  | bits ahead length =>
    have hcolon : IsWord [':'] := ⟨List.cons_ne_nil _ _, List.forall_mem_singleton.mpr rfl⟩
    exact trim_append hcolon.1 hcolon.trim_eq (trim_collapse length.text)

theorem ofText_tidied {named : Text} (hbracket : '[' ∉ named) (hcolon : ':' ∉ named)
    (extent : Extent) :
    Declarator.ofText (named ++ extent.tidied) =
      { bare named with arraySize := extent.arraySize, bitLength := extent.bitLength } := by
  have hno : ∀ (size : Size) {c : Char}, isMark c = true → c ∉ collapse size.text :=
    fun size c h hc => by
      rw [size.isMark_of_mem_collapse hc] at h
      cases h
  cases extent with
  | single =>
    rw [Extent.tidied, List.append_nil, ofText_bare hbracket hcolon]
    rfl
  | array first more =>
    have hsizes : ∀ size ∈ (first :: more).map fun group => collapse group.size.text,
        '[' ∉ size ∧ ']' ∉ size := by
      intro size hsize
      obtain ⟨group, -, rfl⟩ := List.mem_map.mp hsize
      exact ⟨hno group.size rfl, hno group.size rfl⟩
    rw [Extent.tidied, List.map_cons, brackets_cons, ofText_array hbracket, ← brackets_cons,
      dimensions_brackets hsizes]
    rfl
  | bits ahead length =>
    rw [Extent.tidied, ofText_bits hbracket hcolon (hno length rfl), trim_collapse]
    rfl

/-- What tidied texts with commas between them declare. -/
theorem declarators_join {pieces : List Text} (hne : pieces ≠ [])
    (h : ∀ piece ∈ pieces, ',' ∉ piece ∧ trim piece = piece ∧ piece ≠ []) :
    declarators (join [','] pieces) = pieces.map Declarator.ofText := by
  have hsplit : splitOn ',' (join [','] pieces) = pieces := by
    obtain ⟨first, more, rfl⟩ := List.exists_cons_of_ne_nil hne
    exact splitOn_join fun piece hpiece => (h piece hpiece).1
  have htrim : pieces.map trim = pieces :=
    (List.map_congr_left fun piece hpiece => (h piece hpiece).2.1).trans (List.map_id' pieces)
  have hfilter : pieces.filter (! ·.isEmpty) = pieces :=
    List.filter_eq_self.mpr fun piece hpiece => by simp [(h piece hpiece).2.2]
  rw [declarators, hsplit, htrim, hfilter]

namespace Variable

variable (v : Variable)

/-- What the variable comes to in a declaration. -/
def declared : Declarator where
  name := v.name.1
  stars := v.stars
  arraySize := v.extent.arraySize
  bitLength := v.extent.bitLength

theorem not_mem_named {c : Char} (h : isMark c = true) : c ∉ v.named := fun hc => by
  rw [(v.isSolid_of_mem_named hc).2] at h
  cases h

theorem comma_not_mem_tidied : ',' ∉ v.tidied :=
  List.not_mem_append (v.not_mem_named rfl) (Spelled.comma_not_mem_tidied v.extent)

theorem trim_tidied : trim v.tidied = v.tidied :=
  trim_append v.isWord_named.1 v.isWord_named.trim_eq (Spelled.trim_tidied v.extent)

theorem ofText_tidied : Declarator.ofText v.tidied = v.declared := by
  have hbare : bare v.named = { name := v.name.1, stars := v.stars } := bare_starred v.stars v.name
  rw [tidied, Spelled.ofText_tidied (v.not_mem_named rfl) (v.not_mem_named rfl), hbare]
  rfl

end Variable

theorem declarators_rowTidied {row : List Variable} (hne : row ≠ []) :
    declarators (rowTidied row) = row.map Variable.declared := by
  have hpieces : ∀ piece ∈ row.map Variable.tidied,
      ',' ∉ piece ∧ trim piece = piece ∧ piece ≠ [] := by
    intro piece hpiece
    obtain ⟨v, -, rfl⟩ := List.mem_map.mp hpiece
    exact ⟨v.comma_not_mem_tidied, v.trim_tidied, by simp [Variable.tidied, v.isWord_named.1]⟩
  rw [rowTidied, declarators_join (by simpa using hne) hpieces, List.map_map]
  exact List.map_congr_left fun v _ => v.ofText_tidied

/-- A comma behind the last variable declares nothing. -/
theorem declarators_concat_comma (names : Text) :
    declarators (names ++ [',']) = declarators names := by
  have hsplit : splitOn ',' (names ++ [',']) = splitOn ',' names ++ [[]] :=
    piecesBetween_append (p := (· == ',')) rfl names []
  rw [declarators, hsplit, List.map_append, List.filter_append]
  simp [declarators, trim, trimStart, trimEnd]

/-! ## Types -/

theorem DataType.isMark_of_mem_collapse (type : DataType) {c : Char}
    (hc : c ∈ collapse type.text) : isMark c = false := by
  rcases mem_of_mem_collapse hc with rfl | hc
  · rfl
  · exact type.isMark_of_mem hc

/-- An extent begins with a mark, and so does what stands behind it. -/
theorem mark_of_mem_head?_tidied (extent : Extent) {r : Text} (hr : ∀ c ∈ r.head?, c = ',') :
    ∀ c ∈ (extent.tidied ++ r).head?, c = ',' ∨ c = '[' ∨ c = ':' := by
  intro c hc
  cases extent with
  | single => exact .inl (hr c hc)
  | array first groups => exact .inr (.inl (Option.some.inj hc).symm)
  | bits ahead length => exact .inr (.inr (Option.some.inj hc).symm)

/-- The variables of a tidy declaration stand behind its type, whatever follows the last of them. -/
theorem typeAndNames?_rowTidied (type : DataType) {row : List Variable} (hne : row ≠ []) {r : Text}
    (hr : ∀ c ∈ r.head?, c = ',') :
    typeAndNames? (collapse type.text ++ ' ' :: (rowTidied row ++ r)) =
      some (collapse type.text, rowTidied row ++ r) := by
  obtain ⟨v, more, rfl⟩ := List.exists_cons_of_ne_nil hne
  have hmore : ∀ c ∈ (more.flatMap (',' :: ·.tidied) ++ r).head?, c = ',' := by
    cases more with
    | nil => exact hr
    | cons w more => exact fun c hc => (Option.some.inj hc).symm
  have hsplit : rowTidied (v :: more) ++ r =
      v.named ++ (v.extent.tidied ++ (more.flatMap (',' :: ·.tidied) ++ r)) := by
    simp [rowTidied_cons, Variable.tidied]
  rw [hsplit, typeAndNames?_append (fun _ => type.isMark_of_mem_collapse) v.all_named
    (mark_of_mem_head?_tidied v.extent hmore), trim_collapse]

end StructTables.Spelled

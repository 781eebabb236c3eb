import StructTables.Path
import StructTables.Proofs.Text.Cutting

/-! # Names of paths

The JSON of an output stands beside it, under a name of its own. -/

namespace StructTables.Path
open Text

/-- Whether one of the names of a path leads up. -/
def goesUp (path : Text) : Bool := (steps path).contains ['.', '.']

/-- A path that does not end in a slash ends in a name, and that of its JSON is a longer one. -/
theorem exists_steps_json {path : Text} (hpath : path ≠ []) (hslash : endsInSlash path = false) :
    ∃ parents name, steps path = parents ++ [name] ∧
      steps (json path) = parents ++ [name ++ ".json".toList] := by
  obtain ⟨front, c, hfront⟩ := (List.eq_nil_or_concat path).resolve_left hpath
  rw [List.concat_eq_append] at hfront
  subst hfront
  have hc : c ≠ '/' := by
    rintro rfl
    have hsuffix : endsInSlash (front ++ ['/']) = true :=
      List.isSuffixOf_iff_suffix.mpr (List.suffix_append front ['/'])
    exact Bool.false_ne_true (hslash.symm.trans hsuffix)
  obtain ⟨pieces, last, hsplit⟩ := exists_splitOn_append '/' front
  have hname : splitOn '/' (front ++ [c]) = pieces ++ [last ++ [c]] :=
    hsplit _ (by simpa using Ne.symm hc)
  have hjson : splitOn '/' (json (front ++ [c])) = pieces ++ [last ++ ([c] ++ ".json".toList)] := by
    rw [json, List.append_assoc]
    exact hsplit _ (by simpa using Ne.symm hc)
  refine ⟨pieces.filter (! ·.isEmpty), last ++ [c], ?_, ?_⟩
  · simp [steps, hname]
  · simp [steps, hjson]

theorem goesUp_json {path : Text} (h : goesUp path = false) : goesUp (json path) = false := by
  obtain ⟨pieces, last, hsplit⟩ := exists_splitOn_append '/' path
  have hpath := hsplit [] List.not_mem_nil
  have hjson : splitOn '/' (json path) = pieces ++ [last ++ ".json".toList] := hsplit _ (by decide)
  rw [List.append_nil, List.append_nil] at hpath
  simp only [goesUp, List.contains_eq_mem, decide_eq_false_iff_not, steps, hpath, hjson] at h ⊢
  intro hmem
  obtain ⟨hmem, hname⟩ := List.mem_filter.mp hmem
  rcases List.mem_append.mp hmem with hmem | hmem
  · exact h (List.mem_filter.mpr ⟨List.mem_append_left _ hmem, hname⟩)
  · have hlength := congrArg List.length (List.mem_singleton.mp hmem)
    simp at hlength

end StructTables.Path

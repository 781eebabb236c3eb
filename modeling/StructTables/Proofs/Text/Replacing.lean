import StructTables.Text.Basic

/-! # Replacing

What replacing does to a text is said piece by piece, from its start on: a piece that cannot begin an
occurrence is copied, and an occurrence gives way to the value. -/

namespace StructTables.Text

variable {mark : Text} {c : Char}

theorem replaceFrom_cons {r : Text} (h : ¬ mark <+: c :: r) (value : Text) :
    replaceFrom mark value 0 (c :: r) = c :: replaceFrom mark value 0 r := by
  have hstarts : startsWith (c :: r) mark = false :=
    Bool.eq_false_iff.mpr fun hs => h (List.isPrefixOf_iff_prefix.mp hs)
  rw [replaceFrom, hstarts, if_neg Bool.false_ne_true]

theorem replaceFrom_append {a : Text} (h : c ∉ a) (value r : Text) :
    replaceFrom (c :: mark) value 0 (a ++ r) = a ++ replaceFrom (c :: mark) value 0 r := by
  induction a with
  | nil => rfl
  | cons d more ih =>
    obtain ⟨hd, hmore⟩ := List.ne_and_not_mem_of_not_mem_cons h
    have hno : ¬ (c :: mark) <+: d :: (more ++ r) := fun hp => hd (List.cons_prefix_cons.mp hp).1
    rw [List.cons_append, replaceFrom_cons hno, ih hmore]
    rfl

theorem replaceFrom_length (mark value a r : Text) :
    replaceFrom mark value a.length (a ++ r) = replaceFrom mark value 0 r := by
  induction a with
  | nil => rfl
  | cons d more ih => exact ih

theorem replaceFrom_mark (value r : Text) :
    replaceFrom (c :: mark) value 0 (c :: mark ++ r) =
      value ++ replaceFrom (c :: mark) value 0 r := by
  have hstarts : startsWith (c :: (mark ++ r)) (c :: mark) = true :=
    List.isPrefixOf_iff_prefix.mpr (List.prefix_append (c :: mark) r)
  rw [List.cons_append, replaceFrom, hstarts, if_pos rfl, List.length_cons, Nat.add_sub_cancel,
    replaceFrom_length]

end StructTables.Text

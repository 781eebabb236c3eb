import StructTables.Macro.Table
import StructTables.Proofs.Macro.Sizing
import StructTables.Proofs.Text.Cutting
import StructTables.Proofs.Text.Replacing

/-! # Substituting for bound names

A bound name is found by its delimiters, and so is what stands between two bound names. The latter
is not taken for a name where no name stands right behind a word: then a value takes the place of the
names that it is meant for, and of nothing else. -/

namespace StructTables.Macro
open Text

/-- Whether no word is left open behind a text, given whether none is ahead of it. -/
def endsApart (apart : Bool) (t : Text) : Bool :=
  t.foldl (fun _ c => !isIdentifierCharacter c) apart

theorem endsApart_append (apart : Bool) (t r : Text) :
    endsApart apart (t ++ r) = endsApart (endsApart apart t) r :=
  List.foldl_append

theorem endsApart_of_all {t : Text} (hne : t ≠ []) (h : t.all isIdentifierCharacter = true)
    (apart : Bool) : endsApart apart t = false := by
  have hlast : isIdentifierCharacter (t.getLast hne) = true :=
    List.all_eq_true.mp h _ (List.getLast_mem hne)
  rw [← List.dropLast_concat_getLast hne, endsApart_append, endsApart, List.foldl_cons,
    List.foldl_nil, hlast]
  rfl

namespace Mark

/-- Stretches without delimiters but those of their names, and no name right behind a word. -/
def Spaced : Bool → List Mark → Prop
  | _, [] => True
  | apart, .plain t :: more => '#' ∉ t ∧ Spaced (endsApart apart t) more
  | apart, .name n :: more => apart = true ∧ '#' ∉ n ∧ Spaced true more

theorem endsApart_written_name (apart : Bool) (n : Text) :
    endsApart apart (Mark.name n).written = true := by
  rw [written, bound, endsApart_append]
  rfl

theorem spaced_append {apart : Bool} {marks more : List Mark} :
    Spaced apart (marks ++ more) ↔
      Spaced apart marks ∧ Spaced (endsApart apart (marks.flatMap written)) more := by
  induction marks generalizing apart with
  | nil => simp [Spaced, endsApart]
  | cons mark marks ih =>
    rw [List.flatMap_cons, endsApart_append]
    cases mark with
    | plain t => rw [List.cons_append, Spaced, Spaced, ih, and_assoc, written]
    | name n =>
      rw [List.cons_append, Spaced, Spaced, ih, endsApart_written_name, and_assoc, and_assoc]

/-- Stretches as in `Spaced`, and no name right behind another one either. A value may then take the
place of a name whatever it ends in. -/
def Parted : Bool → List Mark → Prop
  | _, [] => True
  | apart, .plain t :: more => '#' ∉ t ∧ Parted (endsApart apart t) more
  | apart, .name n :: more => apart = true ∧ '#' ∉ n ∧ Parted false more

theorem Parted.mono {marks : List Mark} (h : Parted false marks) (apart : Bool) :
    Parted apart marks := by
  cases apart with
  | false => exact h
  | true =>
    induction marks with
    | nil => trivial
    | cons mark more ih =>
      cases mark with
      | plain t =>
        refine ⟨h.1, ?_⟩
        cases t with
        | nil => exact ih h.2
        | cons c r => exact h.2
      | name n => exact absurd h.1 Bool.false_ne_true

theorem Parted.spaced {apart : Bool} {marks : List Mark} (h : Parted apart marks) :
    Spaced apart marks := by
  induction marks generalizing apart with
  | nil => trivial
  | cons mark more ih =>
    cases mark with
    | plain t => exact ⟨h.1, ih h.2⟩
    | name n => exact ⟨h.1, h.2.1, ih (h.2.2.mono true)⟩

theorem Parted.append {apart : Bool} {marks more : List Mark} (h : Parted apart marks)
    (hmore : Parted false more) : Parted apart (marks ++ more) := by
  induction marks generalizing apart with
  | nil => exact hmore.mono apart
  | cons mark marks ih =>
    cases mark with
    | plain t => exact ⟨h.1, ih h.2⟩
    | name n => exact ⟨h.1, h.2.1, ih h.2.2⟩

/-! ## Occurrences -/

variable {apart : Bool} {marks : List Mark} {n m value : Text}

theorem written_name (n : Text) : (Mark.name n).written = '#' :: '#' :: (n ++ ['#', '#']) := rfl

/-- What stands ahead of a delimiter, from the start on, does not end in a word. -/
theorem endsApart_of_prefix (h : Spaced apart marks) {k : Text} (hk : '#' ∉ k)
    (hfront : k ++ ['#'] <+: marks.flatMap written) : endsApart apart k = true := by
  induction marks generalizing apart k with
  | nil => simp at hfront
  | cons mark more ih =>
    rw [List.flatMap_cons] at hfront
    cases mark with
    | plain t =>
      obtain ⟨ht, hmore⟩ := h
      -- the delimiter cannot stand within `t`, so all of `t` is ahead of it
      rcases List.prefix_or_prefix_of_prefix hfront (List.prefix_append t _) with hinside | hahead
      · exact absurd (hinside.subset (by simp)) ht
      · rcases List.prefix_concat_iff.mp hahead with rfl | ⟨k', rfl⟩
        · exact absurd (by simp) ht
        · rw [List.append_assoc, written, List.prefix_append_right_inj] at hfront
          rw [endsApart_append]
          exact ih hmore (fun hmem => hk (List.mem_append_right _ hmem)) hfront
    | name n =>
      cases k with
      | nil => exact h.1
      | cons c k =>
        rw [written_name, List.cons_append, List.cons_append, List.cons_prefix_cons] at hfront
        exact absurd (by simp [hfront.1]) hk

/-- A delimiter has no third character. -/
theorem not_prefix_hash (h : Spaced apart marks) (hne : n ≠ []) (hn : '#' ∉ n) (r : Text) :
    ¬ '#' :: (n ++ r) <+: marks.flatMap written := by
  intro hfront
  induction marks generalizing apart with
  | nil => simp at hfront
  | cons mark more ih =>
    rw [List.flatMap_cons] at hfront
    match mark, h with
    | .plain [], h => exact ih h.2 hfront
    | .plain (c :: t), h =>
      rw [written, List.cons_append, List.cons_prefix_cons] at hfront
      exact h.1 (hfront.1 ▸ List.mem_cons_self)
    | .name m, h =>
      cases n with
      | nil => exact hne rfl
      | cons c n =>
        simp only [written_name, List.cons_append, List.cons_prefix_cons] at hfront
        exact hn (by simp [hfront.2.1])

/-! ## Replacing a name -/

/-- The stretch with the value in place of a bound name. -/
def replaced (n value : Text) : Mark → Text
  | .plain t => t
  | .name m => if m = n then value else bound m

theorem replaceFrom_self (n value r : Text) :
    replaceFrom (bound n) value 0 (bound n ++ r) = value ++ replaceFrom (bound n) value 0 r :=
  replaceFrom_mark value r

theorem prefix_delimiter_iff {r : Text} (hn : '#' ∉ n) (hm : '#' ∉ m) :
    n ++ ['#', '#'] <+: m ++ '#' :: '#' :: r ↔ n = m := by
  constructor
  · intro hfront
    obtain ⟨rest, hrest⟩ := hfront
    have hcut := congrArg (cutFirst? '#') hrest
    rw [List.append_assoc, List.cons_append, cutFirst?_append hn, cutFirst?_append hm] at hcut
    exact (Prod.mk.inj (Option.some.inj hcut)).1
  · rintro rfl
    exact ⟨r, by simp⟩

/-- The four characters of the delimiters of another name begin no occurrence either. -/
theorem replaceFrom_other {r : Text} (hn : '#' ∉ n) (hm : '#' ∉ m) (hne : n ≠ m)
    (hname : ¬ n ++ ['#', '#'] <+: r) (hhash : ¬ '#' :: (n ++ ['#', '#']) <+: r) :
    replaceFrom (bound n) value 0 (bound m ++ r) = bound m ++ replaceFrom (bound n) value 0 r := by
  have hbound : ∀ k, bound k = '#' :: '#' :: (k ++ ['#', '#']) := fun _ => rfl
  have hfirst : ¬ bound n <+: '#' :: '#' :: (m ++ '#' :: '#' :: r) := by
    simp only [hbound, List.cons_prefix_cons, true_and]
    exact fun h => hne ((prefix_delimiter_iff hn hm).mp h)
  have hsecond : ¬ bound n <+: '#' :: (m ++ '#' :: '#' :: r) := by
    simp only [hbound, List.cons_prefix_cons, true_and]
    intro h
    match m, n with
    | d :: m, n => exact hm ((List.cons_prefix_cons.mp h).1 ▸ List.mem_cons_self)
    | [], c :: n =>
      obtain ⟨-, hrest⟩ := List.cons_prefix_cons.mp h
      exact hn ((List.cons_prefix_cons.mp hrest).1 ▸ List.mem_cons_self)
  have hthird : ¬ bound n <+: '#' :: '#' :: r := by
    simpa only [hbound, List.cons_prefix_cons, true_and] using hname
  have hfourth : ¬ bound n <+: '#' :: r := by
    simpa only [hbound, List.cons_prefix_cons, true_and] using hhash
  calc replaceFrom (bound n) value 0 (bound m ++ r)
      = replaceFrom (bound n) value 0 ('#' :: '#' :: (m ++ '#' :: '#' :: r)) := by
        rw [hbound m]
        simp
    _ = '#' :: '#' :: (m ++ replaceFrom (bound n) value 0 ('#' :: '#' :: r)) := by
        rw [replaceFrom_cons hfirst, replaceFrom_cons hsecond, hbound, replaceFrom_append hm]
    _ = '#' :: '#' :: (m ++ '#' :: '#' :: replaceFrom (bound n) value 0 r) := by
        rw [replaceFrom_cons hthird, replaceFrom_cons hfourth]
    _ = bound m ++ replaceFrom (bound n) value 0 r := by
        rw [hbound m]
        simp

/-- A name that ends in a word is replaced where it is bound, and nothing else is. -/
theorem replaceFrom_written (h : Spaced apart marks) (hn : '#' ∉ n)
    (hword : endsApart true n = false) (value : Text) :
    replaceFrom (bound n) value 0 (marks.flatMap written) = marks.flatMap (replaced n value) := by
  have hnil : n ≠ [] := by
    rintro rfl
    cases hword
  induction marks generalizing apart with
  | nil => rfl
  | cons mark more ih =>
    rw [List.flatMap_cons, List.flatMap_cons]
    cases mark with
    | plain t => rw [← ih h.2, written, replaced, bound, delimiter, List.append_assoc,
        List.cons_append, replaceFrom_append h.1]
    | name m =>
      obtain ⟨-, hm, hmore⟩ := h
      rw [written, replaced, ← ih hmore]
      split
      case isTrue heq => rw [heq, replaceFrom_self]
      case isFalse hne =>
        refine replaceFrom_other hn hm (Ne.symm hne) (fun hfront => ?_)
          (not_prefix_hash hmore hnil hn _)
        -- between `m` and the next bound name stands `n`, which a word ends
        have hapart := endsApart_of_prefix hmore hn
          ((List.prefix_append (n ++ ['#']) ['#']).trans (by simpa using hfront))
        rw [hword] at hapart
        cases hapart

end Mark

/-! ## Components of a size -/

/-- The stretches of a size, given those of its components. -/
def joined : List (List Mark) → List Mark
  | [] => []
  | component :: more => component ++ more.flatMap (.plain [','] :: ·)

variable {components : List (List Mark)} {n : Text}

theorem flatMap_joined {f : Mark → Text} (hf : f (.plain [',']) = [',']) :
    (joined components).flatMap f = join [','] (components.map (·.flatMap f)) := by
  cases components with
  | nil => rfl
  | cons component more =>
    rw [joined, List.flatMap_append, List.map_cons, join_cons, List.flatMap_assoc,
      List.flatMap_map]
    simp only [List.flatMap_cons, hf]

theorem spaced_joined (h : ∀ component ∈ components, Mark.Spaced true component) :
    Mark.Spaced true (joined components) := by
  have hbehind : ∀ (more : List (List Mark)) (apart : Bool),
      (∀ component ∈ more, Mark.Spaced true component) →
      Mark.Spaced apart (more.flatMap (.plain [','] :: ·)) := by
    intro more
    induction more with
    | nil => exact fun _ _ => trivial
    | cons component more ih =>
      intro apart h
      obtain ⟨hfirst, hmore⟩ := List.forall_mem_cons.mp h
      rw [List.flatMap_cons, List.cons_append]
      exact ⟨by decide, Mark.spaced_append.mpr ⟨hfirst, ih _ hmore⟩⟩
  cases components with
  | nil => trivial
  | cons component more =>
    obtain ⟨hfirst, hmore⟩ := List.forall_mem_cons.mp h
    exact Mark.spaced_append.mpr ⟨hfirst, hbehind more _ hmore⟩

/-- The component with other stretches in place of a name that it consists of. -/
def swap (n : Text) (value component : List Mark) : List Mark :=
  if component = [.name n] then value else component

/-- A name that is bound only as a whole component is replaced in each of these. -/
theorem replaceAll_join (hspaced : ∀ component ∈ components, Mark.Spaced true component)
    (hwhole : ∀ component ∈ components, .name n ∈ component → component = [.name n])
    (hn : '#' ∉ n) (hword : endsApart true n = false) (value : List Mark) :
    replaceAll (bound n) (value.flatMap Mark.written)
        (join [','] (components.map (·.flatMap Mark.written))) =
      join [','] ((components.map (swap n value)).map (·.flatMap Mark.written)) := by
  have hcomponent : ∀ component ∈ components,
      component.flatMap (Mark.replaced n (value.flatMap Mark.written)) =
        (swap n value component).flatMap Mark.written := by
    intro component hc
    unfold swap
    split
    case isTrue heq => simp [heq, Mark.replaced]
    case isFalse hne =>
      rw [List.flatMap_def, List.flatMap_def]
      refine congrArg List.flatten (List.map_congr_left fun mark hmark => ?_)
      cases mark with
      | plain t => rfl
      | name m =>
        have hm : m ≠ n := fun heq => hne (hwhole component hc (heq ▸ hmark))
        rw [Mark.replaced, if_neg hm, Mark.written]
  rw [← flatMap_joined rfl, replaceAll, Mark.replaceFrom_written (spaced_joined hspaced) hn hword,
    flatMap_joined rfl, List.map_map]
  exact congrArg (join [',']) (List.map_congr_left hcomponent)

namespace Formula

/-! ## Formulas -/

theorem marks_other {c : Char} (h : isIdentifierCharacter c = false) (r : Text) :
    marks (c :: r) = .plain [c] :: marks r := by
  rw [marks, pieces_other h, List.map_cons, marks]
  rfl

theorem marks_word {w r : Text} (hne : w ≠ []) (hw : w.all isIdentifierCharacter = true)
    (hr : startsApart r = true) :
    marks (w ++ r) = (if isMention w then .name w else .plain w) :: marks r := by
  rw [marks, pieces_word hne hw hr, List.map_cons, marks]
  rfl

theorem parted_marks {t : Text} (h : '#' ∉ t) : Mark.Parted true (marks t) := by
  suffices hall : ∀ apart, (apart = true ∨ startsApart t = true) →
      Mark.Parted apart (marks t) from hall true (.inl rfl)
  induction t using wordInduction with
  | nil => exact fun _ _ => trivial
  | other c r hc ih =>
    obtain ⟨hne, hr⟩ := List.ne_and_not_mem_of_not_mem_cons h
    intro apart _
    rw [marks_other hc]
    refine ⟨by simpa using hne, ih hr _ (.inl ?_)⟩
    simp [endsApart, hc]
  | word w r hne hw hr ih =>
    rw [List.mem_append, not_or] at h
    intro apart hapart
    have hclear : apart = true := by
      refine hapart.resolve_right ?_
      obtain ⟨c, w, rfl⟩ := List.exists_cons_of_ne_nil hne
      have hc : isIdentifierCharacter c = true := List.all_eq_true.mp hw c List.mem_cons_self
      simp [startsApart, hc]
    rw [marks_word hne hw hr]
    split
    · exact ⟨hclear, h.1, ih h.2 _ (.inr hr)⟩
    · exact ⟨h.1, ih h.2 _ (.inr hr)⟩

theorem spaced_marks {t : Text} (h : '#' ∉ t) : Mark.Spaced true (marks t) :=
  (parted_marks h).spaced

end Formula
end StructTables.Macro

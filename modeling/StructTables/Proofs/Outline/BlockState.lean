import StructTables.Proofs.Comment.Search
import StructTables.Proofs.Outline.Trace

/-! # Openings and block comments

Within structures the outline follows block comments from one delimiter to the next. Outside of them
it has a rule of its own, which looks at whole lines: a block counts if it begins its line and its end
is not on that line, and it counts up to the first line with an end. The two agree as long as no block
is left open in another way, and then nothing is opened within a block. -/

namespace StructTables.Comment
open Text

theorem hasEnd_cons (c : Char) (r : Text) :
    hasEnd (c :: r) = (startsWith (c :: r) ['*', '/'] || hasEnd r) := by
  unfold hasEnd
  rw [cut?]
  split
  case isTrue h => simp [h]
  case isFalse h => simp [h]

theorem openAfter_of_no_end {line : Text} (h : hasEnd line = false) : openAfter true line = true := by
  have hcut : cut? ['*', '/'] line = none := by simpa [hasEnd] using h
  rw [openAfter_true, hcut, Option.elim_none]

/-- A block that begins a line without an end on it is open behind the line. -/
theorem openAfter_of_beginsBlock {line : Text} (hb : beginsBlock line = true)
    (h : hasEnd line = false) (isOpen : Bool) : openAfter isOpen line = true := by
  cases isOpen with
  | true => exact openAfter_of_no_end h
  | false =>
    obtain ⟨r, rfl⟩ : ['/', '*'] <+: line := List.isPrefixOf_iff_prefix.mp hb
    have hr : hasEnd r = false := by
      simp only [List.cons_append, List.nil_append, hasEnd_cons, Bool.or_eq_false_iff] at h
      exact h.2.2
    exact openAfter_of_no_end hr

end StructTables.Comment

namespace StructTables.Outline
open Text Comment

/-! ## The two rules on one line -/

/-- A line with the place ahead of it, and whether a block comment is open there. -/
structure Step where
  place : Place
  blockOpen : Bool
  line : Text
  deriving DecidableEq

def stepsFrom (number : Nat) (place : Place) (isOpen : Bool) : List Text → List Step
  | [] => []
  | line :: below =>
    ⟨place, isOpen, line⟩ ::
      stepsFrom (number + 1) (place.next number line below) (openAfter isOpen line) below

/-- The lines that a source is broken into, one step for each. -/
def steps (lines : List Text) : List Step := stepsFrom 1 .outside false (brokenLines lines)

/-- Whether the line belongs to a structure but does not close it. -/
def Step.isWithin (step : Step) : Bool :=
  match step.place with
  | .outside => (opening? step.line).isSome
  | .comment => false
  | .inside _ _ isOpen => isOpen || !closes step.line

/-- Whether the outline takes note of the block that the line leaves open, if it does: either the line
lies within a structure, or it has no end of a block on it and is in a block or begins with one. -/
def Step.isFollowed (step : Step) : Bool :=
  step.isWithin || !openAfter step.blockOpen step.line ||
    !hasEnd step.line && (step.blockOpen || beginsBlock step.line)

theorem beginsBlock_of_closes {line : Text} (h : closes line = true) : beginsBlock line = false := by
  obtain ⟨r, rfl⟩ : ['}'] <+: line := List.isPrefixOf_iff_prefix.mp h
  rfl

theorem blockOpen_next {place : Place} {isOpen : Bool} {line : Text} (h : place.blockOpen = isOpen)
    (hfollowed : (Step.mk place isOpen line).isFollowed = true) (number : Nat) (below : List Text) :
    (place.next number line below).blockOpen = openAfter isOpen line := by
  subst h
  match place with
  | .comment =>
    show (if hasEnd line then Place.outside else .comment).blockOpen = openAfter true line
    split
    case isTrue hend => simpa [Step.isFollowed, Step.isWithin, Place.blockOpen, hend] using hfollowed
    case isFalse hend => exact (openAfter_of_no_end (by simpa using hend)).symm
  | .outside =>
    cases ho : opening? line with
    | some found => simp [Place.next, ho, Place.behind, Place.blockOpen]
    | none =>
      simp only [Place.next, ho]
      split
      case isTrue hblock =>
        obtain ⟨hb, hend⟩ := Bool.and_eq_true_iff.mp hblock
        exact (openAfter_of_beginsBlock hb (by simpa using hend) _).symm
      case isFalse hblock =>
        have hline : openAfter false line = false := by
          simpa [Step.isFollowed, Step.isWithin, Place.blockOpen, ho, Bool.and_comm (!hasEnd line),
            Bool.eq_false_iff.mpr hblock] using hfollowed
        exact hline.symm
  | .inside opening body true => rfl
  | .inside opening body false =>
    cases hc : closes line with
    | true =>
      simp only [Step.isFollowed, Step.isWithin, Place.blockOpen, hc, beginsBlock_of_closes hc,
        Bool.not_true, Bool.false_or, Bool.or_false, Bool.and_false, Bool.not_eq_true'] at hfollowed
      simp [Place.next, hc, Place.blockOpen, hfollowed]
    | false =>
      cases hr : reopening? line below <;>
        simp [Place.next, hc, hr, Place.behind, Place.blockOpen]

/-! ## Openings -/

/-- The structure that a region opens. -/
def Region.opening? : Region → Option Opening
  | .outside _ => none
  | .abandoned opening => some opening
  | .closed opening _ _ => some opening
  | .unclosed opening => some opening

theorem Place.eq_inside_of_region? {place : Place} {line : Text} {below : List Text}
    {region : Region} {opening : Opening} (h : place.region? line below = some region)
    (ho : region.opening? = some opening) : ∃ body isOpen, place = .inside opening body isOpen := by
  match place with
  | .comment => cases h
  | .outside =>
    simp only [Place.region?] at h
    split at h <;> cases h
    cases ho
  | .inside other body true => cases h
  | .inside other body false =>
    refine ⟨body, false, ?_⟩
    simp only [Place.region?] at h
    split at h
    · cases h
      cases ho
      rfl
    · split at h <;> cases h
      cases ho
      rfl

/-- The invariant of the run is that the place says whether a block is open. -/
theorem opening_of_mem_regionsFrom {number : Nat} {place : Place} {isOpen : Bool}
    {lines : List Text} {region : Region} {opening : Opening}
    (h : region ∈ regionsFrom number place lines) (ho : region.opening? = some opening)
    (hplace : place.blockOpen = isOpen)
    (hfollowed : ∀ step ∈ stepsFrom number place isOpen lines, step.isFollowed = true) :
    (∃ body commentOpen, place = .inside opening body commentOpen) ∨
    ∃ before line after, lines = before ++ line :: after ∧
      opening.line = number + before.length ∧
      Outline.opening? line = some (opening.form, opening.name) ∧
      before.foldl openAfter isOpen = false := by
  induction lines generalizing number place isOpen with
  | nil =>
    match place with
    | .inside other body commentOpen =>
      obtain rfl := List.mem_singleton.mp h
      cases ho
      exact .inl ⟨body, commentOpen, rfl⟩
    | .outside => cases h
    | .comment => cases h
  | cons line below ih =>
    obtain ⟨hline, hbelow⟩ := List.forall_mem_cons.mp hfollowed
    rcases mem_regionsFrom_cons h with hregion | hrest
    · exact .inl (Place.eq_inside_of_region? hregion ho)
    · rcases ih hrest (blockOpen_next hplace hline number below) hbelow with
        ⟨body, commentOpen, hnext⟩ | ⟨before, first, after, rfl, hnumber, hopens, hclear⟩
      · rcases Place.next_eq_inside hnext with
          ⟨ahead, was, rfl, -⟩ | ⟨hopens, hnumber, hclear, -⟩
        · exact .inl ⟨ahead, was, rfl⟩
        · exact .inr ⟨[], line, below, rfl, hnumber, hopens, hplace ▸ hclear⟩
      · refine .inr ⟨line :: before, first, after, rfl, ?_, hopens, hclear⟩
        rw [hnumber, List.length_cons]
        omega

/-- Nothing is opened on a line that begins within a block comment, if the outline takes note of every
block that a line outside of structures leaves open. -/
theorem opened_outside_blocks {lines : List Text}
    (hfollowed : ∀ step ∈ steps lines, step.isFollowed = true) :
    ∀ region ∈ regions lines, ∀ opening, region.opening? = some opening →
      ∃ before line after, brokenLines lines = before ++ line :: after ∧
        opening.line = before.length + 1 ∧ opening? line = some (opening.form, opening.name) ∧
        before.foldl openAfter false = false := by
  intro region hregion opening ho
  rcases opening_of_mem_regionsFrom hregion ho rfl hfollowed with
    ⟨body, commentOpen, hplace⟩ | ⟨before, line, after, hlines, hnumber, hopens, hclear⟩
  · cases hplace
  · exact ⟨before, line, after, hlines, hnumber.trans (Nat.add_comm _ _), hopens, hclear⟩

/-- A block that begins a line hides what looks like an opening, and the one behind an opening line is
followed as well. -/
theorem opened_behind_block :
    let lines := ["/* one".toList, "struct Hidden \x7b".toList, "*/".toList,
      "struct Shown \x7b /* two".toList, "struct Hidden \x7b".toList, "*/".toList, "\x7d;".toList]
    (∀ step ∈ steps lines, step.isFollowed = true) ∧
      ∀ region ∈ regions lines, ∀ opening, region.opening? = some opening →
        ∃ before line after, brokenLines lines = before ++ line :: after ∧
          opening.line = before.length + 1 ∧
          opening? line = some (opening.form, opening.name) ∧
          before.foldl openAfter false = false := by
  intro lines
  have hfollowed : ∀ step ∈ steps lines, step.isFollowed = true := by decide +kernel
  exact ⟨hfollowed, opened_outside_blocks hfollowed⟩

/-- A block that begins behind code is not seen, so a structure is opened in the middle of it. -/
theorem opened_within_block :
    ¬ ∀ (lines : List Text), ∀ region ∈ regions lines, ∀ opening, region.opening? = some opening →
      ∃ before line after, brokenLines lines = before ++ line :: after ∧
        opening.line = before.length + 1 ∧ opening? line = some (opening.form, opening.name) ∧
        before.foldl openAfter false = false := by
  intro h
  let lines := ["int x; /* one".toList, "struct Hidden \x7b".toList, "int a;".toList,
    "\x7d;".toList, "*/".toList]
  obtain ⟨before, line, after, hlines, hnumber, -, hclear⟩ :=
    h lines (.closed ⟨.tagged, "Hidden".toList, 2⟩ ["int a;".toList] "\x7d;".toList)
      (by decide +kernel) _ rfl
  have hbroken : brokenLines lines = lines := by decide +kernel
  have hlength : before.length = 1 := by simpa using hnumber.symm
  have hbefore : before = lines.take 1 := by
    rw [← hbroken, hlines, ← hlength, List.take_left]
  rw [hbefore] at hclear
  exact absurd hclear (by decide +kernel)

end StructTables.Outline

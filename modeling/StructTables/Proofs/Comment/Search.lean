import Mathlib.Logic.Relation
import StructTables.Proofs.Comment.Following

/-! # Searching for delimiters

Whether a block is open behind a line can be found out in two ways. One goes over the line character
by character. The other searches for the next delimiter that counts and goes on behind it, until there
is none. Both come to an end on every line, and with the same answer. -/

namespace StructTables.Comment
open Text

/-! ## From character to character -/

/-- How far a line has been gone over. -/
structure Position where
  isOpen : Bool
  rest : Text

/-- Delimiters are passed as a whole, so that no two of them share a character. -/
inductive Position.Step : Position → Position → Prop
  | opens (r : Text) : Step ⟨false, '/' :: '*' :: r⟩ ⟨true, r⟩
  | hides (r : Text) : Step ⟨false, '/' :: '/' :: r⟩ ⟨false, []⟩
  | closes (r : Text) : Step ⟨true, '*' :: '/' :: r⟩ ⟨false, r⟩
  | passesCode {c : Char} {r : Text} (h : begins (c :: r) = false) :
      Step ⟨false, c :: r⟩ ⟨false, r⟩
  | passesComment {c : Char} {r : Text} (h : startsWith (c :: r) ['*', '/'] = false) :
      Step ⟨true, c :: r⟩ ⟨true, r⟩

theorem openAfter_of_not_ends {c : Char} {r : Text} (h : startsWith (c :: r) ['*', '/'] = false) :
    openAfter true (c :: r) = openAfter true r := by
  rw [openAfter]
  · rintro s hopen
    cases hopen
  · rintro s hopen
    cases hopen
  · rintro s - hc hr
    cases hc
    subst hr
    simp [startsWith, List.isPrefixOf] at h

theorem Position.Step.openAfter_eq {a b : Position} (h : a.Step b) :
    openAfter a.isOpen a.rest = openAfter b.isOpen b.rest := by
  cases h with
  | opens | hides | closes => rfl
  | passesCode h => exact openAfter_of_not_begins h
  | passesComment h => exact openAfter_of_not_ends h

theorem Position.exists_step (isOpen : Bool) (c : Char) (r : Text) :
    ∃ next : Position, Step ⟨isOpen, c :: r⟩ next ∧ next.rest.length ≤ r.length := by
  cases isOpen with
  | false =>
    cases hblock : beginsBlock (c :: r) with
    | true =>
      obtain ⟨s, hs⟩ := startsWith_pair_iff.mp hblock
      obtain ⟨rfl, rfl⟩ := List.cons.inj hs
      exact ⟨_, .opens s, Nat.le_succ _⟩
    | false =>
      cases hline : beginsLine (c :: r) with
      | true =>
        obtain ⟨s, hs⟩ := startsWith_pair_iff.mp hline
        obtain ⟨rfl, rfl⟩ := List.cons.inj hs
        exact ⟨_, .hides s, Nat.zero_le _⟩
      | false => exact ⟨_, .passesCode (by rw [begins, hblock, hline]; rfl), Nat.le_refl _⟩
  | true =>
    cases hend : startsWith (c :: r) ['*', '/'] with
    | true =>
      obtain ⟨s, hs⟩ := startsWith_pair_iff.mp hend
      obtain ⟨rfl, rfl⟩ := List.cons.inj hs
      exact ⟨_, .closes s, Nat.le_succ _⟩
    | false => exact ⟨_, .passesComment hend, Nat.le_refl _⟩

theorem Position.exists_end (position : Position) :
    ∃ isOpen, Relation.ReflTransGen Step position ⟨isOpen, []⟩ := by
  induction hn : position.rest.length using Nat.strongRecOn generalizing position with
  | _ n ih =>
    obtain ⟨isOpen, rest⟩ := position
    cases rest with
    | nil => exact ⟨isOpen, .refl⟩
    | cons c r =>
      obtain ⟨next, hstep, hlength⟩ := exists_step isOpen c r
      obtain ⟨last, hsteps⟩ := ih next.rest.length (hn ▸ Nat.lt_succ_of_le hlength) next rfl
      exact ⟨last, .head hstep hsteps⟩

theorem Position.openAfter_eq_of_steps {a b : Position} (h : Relation.ReflTransGen Step a b) :
    openAfter a.isOpen a.rest = openAfter b.isOpen b.rest := by
  induction h with
  | refl => rfl
  | tail _ hstep ih => exact ih.trans hstep.openAfter_eq

theorem Position.steps_iff (isOpen last : Bool) (t : Text) :
    Relation.ReflTransGen Step ⟨isOpen, t⟩ ⟨last, []⟩ ↔ last = openAfter isOpen t := by
  have hvalue : ∀ {last}, Relation.ReflTransGen Step ⟨isOpen, t⟩ ⟨last, []⟩ →
      last = openAfter isOpen t := fun {last} h => by
    have hend : openAfter last [] = last := by cases last <;> rfl
    exact hend.symm.trans (openAfter_eq_of_steps h).symm
  refine ⟨hvalue, ?_⟩
  rintro rfl
  obtain ⟨other, hother⟩ := exists_end ⟨isOpen, t⟩
  exact hvalue hother ▸ hother

/-! ## From delimiter to delimiter -/

/-- One round of a search: its answer, or where the search goes on. Within a block it is the next end
that counts; outside, the next block, if no line comment begins ahead of it. -/
def round (isOpen : Bool) (t : Text) : Bool ⊕ Bool × Text :=
  if isOpen then
    match cut? ['*', '/'] t with
    | some (_, after) => .inr (false, after)
    | none => .inl true
  else
    match cut? ['/', '*'] t with
    | some (before, after) =>
      if (cut? ['/', '/'] t).all fun parts => before.length < parts.1.length then .inr (true, after)
      else .inl false
    | none => .inl false

/-- The search from the given text on takes a number of rounds and comes to an answer. -/
inductive Searches : Nat → Bool → Text → Bool → Prop
  | ends {isOpen answer : Bool} {t : Text} (h : round isOpen t = .inl answer) :
      Searches 1 isOpen t answer
  | goesOn {rounds : Nat} {isOpen next answer : Bool} {t rest : Text}
      (h : round isOpen t = .inr (next, rest)) (hmore : Searches rounds next rest answer) :
      Searches (rounds + 1) isOpen t answer

/-- Within a block, whether one is open behind the text is decided behind the next end. -/
theorem openAfter_true (t : Text) :
    openAfter true t =
      (cut? ['*', '/'] t).elim true fun parts => openAfter false parts.2 := by
  induction t with
  | nil => rfl
  | cons c r ih =>
    cases hend : startsWith (c :: r) ['*', '/'] with
    | true =>
      obtain ⟨s, hs⟩ := startsWith_pair_iff.mp hend
      rw [cut?, if_pos hend, hs]
      rfl
    | false =>
      rw [openAfter_of_not_ends hend, cut?, if_neg (by simp [hend]), ih]
      cases cut? ['*', '/'] r <;> rfl

/-- Outside a block, it is decided behind the next block, unless a line comment begins ahead of it. -/
theorem openAfter_false (t : Text) :
    openAfter false t =
      (cut? ['/', '*'] t).elim false fun parts =>
        (cut? ['/', '/'] t).all (fun others => parts.1.length < others.1.length) &&
          openAfter true parts.2 := by
  induction t with
  | nil => rfl
  | cons c r ih =>
    cases hblock : startsWith (c :: r) ['/', '*'] with
    | true =>
      obtain ⟨s, hs⟩ := startsWith_pair_iff.mp hblock
      obtain ⟨rfl, rfl⟩ := List.cons.inj hs
      have hhere : cut? ['/', '*'] ('/' :: '*' :: s) = some ([], s) := rfl
      have hbehind : cut? ['/', '/'] ('/' :: '*' :: s) =
          (cut? ['/', '/'] ('*' :: s)).map fun parts => ('/' :: parts.1, parts.2) := rfl
      rw [hhere, hbehind]
      cases cut? ['/', '/'] ('*' :: s) <;> simp [openAfter]
    | false =>
      rw [cut?, if_neg (by simp [hblock])]
      cases hline : startsWith (c :: r) ['/', '/'] with
      | true =>
        obtain ⟨s, hs⟩ := startsWith_pair_iff.mp hline
        rw [cut?, if_pos hline, hs]
        cases cut? ['/', '*'] r <;> simp [openAfter]
      | false =>
        have hbegins : begins (c :: r) = false := by
          rw [begins, beginsBlock, hblock, beginsLine, hline]
          rfl
        rw [openAfter_of_not_begins hbegins, cut?, if_neg (by simp [hline]), ih]
        cases cut? ['/', '*'] r <;> cases cut? ['/', '/'] r <;> simp

/-- A round settles the question, or puts it again for the text behind a delimiter. -/
theorem openAfter_eq_round (isOpen : Bool) (t : Text) :
    openAfter isOpen t = (round isOpen t).elim id fun next => openAfter next.1 next.2 := by
  cases isOpen with
  | true =>
    rw [openAfter_true, round, if_pos rfl]
    cases cut? ['*', '/'] t <;> rfl
  | false =>
    rw [openAfter_false, round, if_neg Bool.false_ne_true]
    cases cut? ['/', '*'] t with
    | none => rfl
    | some parts =>
      dsimp only [Option.elim_some]
      cases (cut? ['/', '/'] t).all fun others => parts.1.length < others.1.length <;> rfl

variable {isOpen next answer : Bool} {t rest : Text}

theorem openAfter_of_answer (h : round isOpen t = .inl answer) : openAfter isOpen t = answer := by
  rw [openAfter_eq_round, h]
  rfl

theorem openAfter_of_next (h : round isOpen t = .inr (next, rest)) :
    openAfter isOpen t = openAfter next rest := by
  rw [openAfter_eq_round, h]
  rfl

theorem length_round (h : round isOpen t = .inr (next, rest)) :
    rest.length + 2 ≤ t.length := by
  have hcut : ∀ {mark before : Text}, mark.length = 2 → cut? mark t = some (before, rest) →
      rest.length + 2 ≤ t.length := fun hmark hcut => by
    rw [eq_of_cut? hcut, List.length_append, List.length_append, hmark]
    omega
  cases isOpen with
  | true =>
    rw [round, if_pos rfl] at h
    split at h
    case h_1 before after hparts =>
      cases h
      exact hcut rfl hparts
    case h_2 => cases h
  | false =>
    rw [round, if_neg Bool.false_ne_true] at h
    split at h
    case h_1 before after hparts =>
      split at h
      case isTrue =>
        cases h
        exact hcut rfl hparts
      case isFalse => cases h
    case h_2 => cases h

theorem Searches.answer_eq {rounds : Nat} (h : Searches rounds isOpen t answer) :
    answer = openAfter isOpen t := by
  induction h with
  | ends h => exact (openAfter_of_answer h).symm
  | goesOn h _ ih => exact ih.trans (openAfter_of_next h).symm

theorem Searches.rounds_eq {m n : Nat} {other : Bool} (h : Searches m isOpen t answer)
    (h' : Searches n isOpen t other) : m = n := by
  induction h generalizing n with
  | ends h =>
    cases h' with
    | ends => rfl
    | goesOn h' => rw [h] at h'; cases h'
  | goesOn h _ ih =>
    cases h' with
    | ends h' => rw [h] at h'; cases h'
    | goesOn h' hmore =>
      rw [h] at h'
      cases h'
      rw [ih hmore]

theorem exists_searches (isOpen : Bool) (t : Text) :
    ∃ rounds ≤ t.length / 2 + 1, Searches rounds isOpen t (openAfter isOpen t) := by
  induction hn : t.length using Nat.strongRecOn generalizing isOpen t with
  | _ n ih =>
    cases hround : round isOpen t with
    | inl answer =>
      rw [openAfter_of_answer hround]
      exact ⟨1, Nat.le_add_left 1 _, .ends hround⟩
    | inr parts =>
      obtain ⟨next, rest⟩ := parts
      have hlength := length_round hround
      obtain ⟨rounds, hrounds, hmore⟩ := ih rest.length (by omega) next rest rfl
      rw [openAfter_of_next hround]
      exact ⟨rounds + 1, by omega, .goesOn hround hmore⟩

/-- On every line, and whatever is open ahead of it, going over the line character by character ends,
and so does the search, which takes a round for each delimiter that it finds and one more. Both end
with the answer that a line is said to have. -/
theorem openAfter_automaton (isOpen : Bool) (line : Text) :
    (∀ last, Relation.ReflTransGen Position.Step ⟨isOpen, line⟩ ⟨last, []⟩ ↔
      last = openAfter isOpen line) ∧
    ∃ rounds ≤ line.length / 2 + 1, ∀ n answer,
      Searches n isOpen line answer ↔ n = rounds ∧ answer = openAfter isOpen line := by
  refine ⟨fun last => Position.steps_iff isOpen last line, ?_⟩
  obtain ⟨rounds, hrounds, hsearches⟩ := exists_searches isOpen line
  refine ⟨rounds, hrounds, fun n answer => ⟨fun h => ⟨h.rounds_eq hsearches, h.answer_eq⟩, ?_⟩⟩
  rintro ⟨rfl, rfl⟩
  exact hsearches

/-- Delimiters that share a character with another: the first one on the line counts. -/
example : openAfter false "/*/".toList = true ∧ openAfter false "//*".toList = false ∧
    openAfter true "*//".toList = false := by decide

end StructTables.Comment

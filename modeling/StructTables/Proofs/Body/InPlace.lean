import StructTables.Proofs.Body.Assembly

/-! # Growing a structure in place

An assembly keeps the members that a body adds apart from those that were there, and a remark goes to
the last that it has. A structure can also grow in place: a member goes behind all others, its place is
remembered, and a remark goes to the member at that place. Whatever a body holds, the place is that of
the last member, never that of one from before, and the structure is the one that the assembly gives. -/

namespace StructTables.Body
open Text Declaration

/-- A structure that a body adds to, and the place of the last member that came from the body. -/
structure InPlace where
  grown : Structure
  collector : Macro.Collector
  last? : Option Nat := none
  log : List Event := []

/-- Appends a remark to the member at a place, if one is given. -/
def describeAt (remark : Text) (members : List Member) : Option Nat → List Member
  | none => members
  | some place => members.modify place (·.describe remark)

namespace InPlace

def report (state : InPlace) (event : Event) : InPlace :=
  { state with log := state.log ++ [event] }

/-- Appends a remark to the member at the remembered place. -/
def describe (state : InPlace) (remark : Text) : InPlace :=
  let members := describeAt remark state.grown.members state.last?
  { state with grown := { state.grown with members := members } }

/-- Adds a member and remembers its place, unless there is one of that name already. -/
def push (state : InPlace) (m : Member) : InPlace :=
  { state with
    grown := state.grown.push m
    last? := if state.grown.contains m.name then state.last? else some state.grown.members.length }

def add (state : InPlace) : Entry → InPlace
  | .invalid source => state.report (.warning (.invalidMember state.grown.name source))
  | .remark text => state.describe text
  | .variable dataType declarator description =>
    if state.grown.contains declarator.name then
      state.report (.duplicate state.grown.name declarator.name)
    else
      let (m, collector) := memberOf state.collector dataType declarator description
      { state with collector := collector }.push m

/-- The structure is what the assembly makes of the one from before. Once a member has been added, and
no sooner, a place is remembered, and it is the last one. -/
structure Mirrors (state : InPlace) (owner : Structure) (assembly : Assembly) : Prop where
  grown : state.grown = withAdded owner assembly
  collector : state.collector = assembly.collector
  last : ∀ place, state.last? = some place ↔
    assembly.added ≠ [] ∧ place + 1 = state.grown.members.length
  log : state.log = assembly.log

/-- No place is remembered at the start, so a member from before is not described. -/
theorem mirrors_start (owner : Structure) (collector : Macro.Collector) (log : List Event) :
    Mirrors { grown := owner, collector := collector, log := log } owner
      { collector := collector, log := log } := by
  refine ⟨?_, rfl, fun place => ⟨?_, ?_⟩, rfl⟩
  · rw [withAdded, List.append_nil]
  · intro hplace
    cases hplace
  · intro hadded
    exact absurd rfl hadded.1

variable {state : InPlace} {owner : Structure} {assembly : Assembly}

theorem Mirrors.contains (h : state.Mirrors owner assembly) (name : Text) :
    state.grown.contains name = assembly.contains owner name := by
  rw [h.grown, contains_withAdded]

theorem Mirrors.report (h : state.Mirrors owner assembly) (event : Event) :
    (state.report event).Mirrors owner (assembly.report event) :=
  ⟨h.grown, h.collector, h.last, congrArg (· ++ [event]) h.log⟩

theorem Mirrors.collected (h : state.Mirrors owner assembly) (collector : Macro.Collector) :
    ({ state with collector := collector }).Mirrors owner { assembly with collector := collector } :=
  ⟨h.grown, rfl, h.last, h.log⟩

theorem length_describeAt (remark : Text) (members : List Member) (place? : Option Nat) :
    (describeAt remark members place?).length = members.length := by
  cases place? with
  | none => rfl
  | some place => exact List.length_modify _ members place

/-- At the last place of all, a remark goes to the last member that was added. -/
theorem describeAt_append {members added : List Member} {last? : Option Nat}
    (h : ∀ place, last? = some place ↔ added ≠ [] ∧ place + 1 = (members ++ added).length)
    (remark : Text) :
    describeAt remark (members ++ added) last? = members ++ describeLast remark added := by
  rcases List.eq_nil_or_concat added with rfl | ⟨ahead, m, rfl⟩
  · have hlast : last? = none :=
      Option.eq_none_iff_forall_ne_some.mpr fun place hplace => ((h place).mp hplace).1 rfl
    rw [hlast]
    rfl
  · have hlast : last? = some (members ++ ahead).length := by
      refine (h _).mpr ⟨by simp, ?_⟩
      simp [Nat.add_assoc]
    rw [hlast, List.concat_eq_append, describeLast_concat, ← List.append_assoc, ← List.append_assoc,
      describeAt, List.modify_eq_take_drop, List.take_left, List.drop_left]
    rfl

theorem Mirrors.describe (h : state.Mirrors owner assembly) (remark : Text) :
    (state.describe remark).Mirrors owner (assembly.add owner (.remark remark)) := by
  have hmembers : state.grown.members = owner.members ++ assembly.added := by rw [h.grown, withAdded]
  refine ⟨?_, h.collector, fun place => ?_, h.log⟩
  · have hlast := h.last
    rw [hmembers] at hlast
    rw [InPlace.describe, hmembers, describeAt_append hlast, h.grown]
    rfl
  · show state.last? = some place ↔ describeLast remark assembly.added ≠ [] ∧
      place + 1 = (describeAt remark state.grown.members state.last?).length
    rw [length_describeAt, h.last]
    exact and_congr_left' (not_congr (describeLast_eq_nil_iff remark assembly.added).symm)

theorem Mirrors.push (h : state.Mirrors owner assembly) {m : Member}
    (hnew : assembly.contains owner m.name = false) :
    (state.push m).Mirrors owner { assembly with added := assembly.added ++ [m] } := by
  have hgrown : state.grown.contains m.name = false := (h.contains m.name).trans hnew
  have hpush : state.grown.push m = { state.grown with members := state.grown.members ++ [m] } := by
    rw [Structure.push, hgrown, if_neg Bool.false_ne_true]
  refine ⟨?_, h.collector, fun place => ?_, h.log⟩
  · show state.grown.push m = _
    rw [hpush, h.grown, withAdded, withAdded, List.append_assoc]
  · have hlast : (state.push m).last? = some state.grown.members.length := by
      rw [InPlace.push, hgrown, if_neg Bool.false_ne_true]
    have hlength : (state.push m).grown.members.length = state.grown.members.length + 1 := by
      rw [InPlace.push, hpush, List.length_append]
      rfl
    rw [hlast, hlength, Option.some_inj, Nat.add_right_cancel_iff, eq_comm]
    exact (and_iff_right (List.append_ne_nil_of_right_ne_nil _ (List.cons_ne_nil m []))).symm

theorem Mirrors.add (h : state.Mirrors owner assembly) (entry : Entry) :
    (state.add entry).Mirrors owner (assembly.add owner entry) := by
  have hname : state.grown.name = owner.name := by rw [h.grown, withAdded]
  rcases entry with ⟨dataType, declarator, description⟩ | text | source
  · rw [InPlace.add, h.contains, hname, h.collector]
    cases hdup : assembly.contains owner declarator.name with
    | true =>
      rw [add_duplicate hdup, if_pos rfl]
      exact h.report _
    | false =>
      rw [add_variable hdup, if_neg Bool.false_ne_true]
      exact (h.collected _).push hdup
  · exact h.describe text
  · rw [InPlace.add, hname]
    exact h.report _

/-- Growing in place never parts from assembling, whatever the entries are. -/
theorem Mirrors.foldl (h : state.Mirrors owner assembly) (entries : List Entry) :
    (entries.foldl InPlace.add state).Mirrors owner (entries.foldl (Assembly.add owner) assembly) := by
  induction entries generalizing state assembly with
  | nil => exact h
  | cons entry more ih => exact ih (h.add entry)

end InPlace
end StructTables.Body

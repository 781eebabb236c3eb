import Mathlib.Data.List.Forall2
import StructTables.Proofs.Body.Names

/-! # The variables that become members

Of the variables that a body declares, those become members whose names are new. Without remarks on lines
of their own, each of these members is what its declaration says. -/

namespace StructTables.Body
open Text Declaration

/-! ## New names -/

section FirstNamed

variable {α β : Type}

/-- The items with new names: neither taken from the start nor given to an item ahead. -/
def firstNamed (name : α → Text) (taken : List Text) : List α → List α
  | [] => []
  | a :: more =>
    if name a ∈ taken then firstNamed name taken more
    else a :: firstNamed name (taken ++ [name a]) more

variable {name : α → Text} {taken : List Text} {items : List α} {a : α}

theorem firstNamed_map {named : β → Text} {f : α → β} (h : ∀ a ∈ items, named (f a) = name a)
    (taken : List Text) : firstNamed named taken (items.map f) = (firstNamed name taken items).map f := by
  induction items generalizing taken with
  | nil => rfl
  | cons a more ih =>
    obtain ⟨ha, hmore⟩ := List.forall_mem_cons.mp h
    rw [List.map_cons, firstNamed, firstNamed, ih hmore, ih hmore, ha]
    split <;> rfl

theorem exists_mem_firstNamed (ha : a ∈ items) (hnew : name a ∉ taken) :
    ∃ b ∈ firstNamed name taken items, name b = name a := by
  induction items generalizing taken with
  | nil => cases ha
  | cons b more ih =>
    rw [firstNamed]
    by_cases hb : name b ∈ taken
    · rw [if_pos hb]
      rcases List.mem_cons.mp ha with rfl | ha
      · exact absurd hb hnew
      · exact ih ha hnew
    · rw [if_neg hb]
      by_cases hsame : name b = name a
      · exact ⟨b, List.mem_cons_self, hsame⟩
      · rcases List.mem_cons.mp ha with rfl | ha
        · exact absurd rfl hsame
        · have htaken : name a ∉ taken ++ [name b] :=
            List.not_mem_append hnew fun hmem => hsame (List.mem_singleton.mp hmem).symm
          obtain ⟨c, hc, heq⟩ := ih ha htaken
          exact ⟨c, List.mem_cons_of_mem _ hc, heq⟩

theorem mem_of_mem_firstNamed (h : a ∈ firstNamed name taken items) : a ∈ items ∧ name a ∉ taken := by
  induction items generalizing taken with
  | nil => cases h
  | cons b more ih =>
    rw [firstNamed] at h
    by_cases hb : name b ∈ taken
    · rw [if_pos hb] at h
      exact (ih h).imp_left (List.mem_cons_of_mem _)
    · rw [if_neg hb] at h
      rcases List.mem_cons.mp h with rfl | h
      · exact ⟨List.mem_cons_self, hb⟩
      · obtain ⟨hmem, htaken⟩ := ih h
        exact ⟨List.mem_cons_of_mem _ hmem, fun hold => htaken (List.mem_append_left _ hold)⟩

theorem exists_of_mem_forall₂ {R : α → β → Prop} {others : List β} (h : List.Forall₂ R items others)
    (ha : a ∈ items) : ∃ b ∈ others, R a b := by
  induction h with
  | nil => cases ha
  | cons hfirst _ ih =>
    rcases List.mem_cons.mp ha with rfl | ha
    · exact ⟨_, List.mem_cons_self, hfirst⟩
    · obtain ⟨b, hb, hrest⟩ := ih ha
      exact ⟨b, List.mem_cons_of_mem _ hb, hrest⟩

theorem forall₂_imp_of_mem {R S : α → β → Prop} {others : List β} (h : List.Forall₂ R items others)
    (himp : ∀ a, ∀ b ∈ others, R a b → S a b) : List.Forall₂ S items others := by
  induction h with
  | nil => exact .nil
  | cons hfirst _ ih =>
    obtain ⟨hhead, hrest⟩ : (∀ a, R a _ → S a _) ∧ ∀ a, ∀ b ∈ _, R a b → S a b :=
      ⟨fun a => himp a _ List.mem_cons_self, fun a b hb => himp a b (List.mem_cons_of_mem _ hb)⟩
    exact .cons (hhead _ hfirst) (ih hrest)

end FirstNamed

/-! ## Members -/

/-- A variable as a body declares it. -/
structure Declared where
  dataType : Text
  declarator : Declarator
  description : Text

def Declared.name (v : Declared) : Text := v.declarator.name

def Entry.declared? : Entry → Option Declared
  | .variable dataType declarator description => some ⟨dataType, declarator, description⟩
  | .remark _ | .invalid _ => none

def Entry.isRemark : Entry → Bool
  | .remark _ => true
  | .variable .. | .invalid _ => false

theorem declared?_map_entryOf {declarators : List Declarator} (h : ∀ d ∈ declarators, d.name ≠ [])
    (dataType description source : Text) :
    (declarators.map (entryOf dataType description source)).filterMap Entry.declared? =
      declarators.map (Declared.mk dataType · description) := by
  rw [List.filterMap_map, ← List.filterMap_eq_map]
  refine List.filterMap_congr fun d hd => ?_
  have hname : d.name.isEmpty = false := by simpa using h d hd
  rw [Function.comp_apply, entryOf, hname]
  rfl

theorem isRemark_entryOf (dataType description source : Text) (declarator : Declarator) :
    (entryOf dataType description source declarator).isRemark = false := by
  unfold entryOf
  split <;> rfl

/-- The member that a variable becomes, but for its size. -/
structure Declared.Becomes (v : Declared) (m : Member) : Prop where
  name : m.name = v.name
  dataType : m.dataType = typeOf v.dataType v.declarator.stars
  description : m.description = v.description

/-- Without remarks, a body adds a member for each variable with a new name, in order. -/
theorem exists_added {entries : List Entry} (h : ∀ entry ∈ entries, entry.isRemark = false)
    (owner : Structure) (assembly : Assembly) :
    ∃ more, (entries.foldl (Assembly.add owner) assembly).added = assembly.added ++ more ∧
      List.Forall₂ (fun m (v : Declared) => v.Becomes m) more
        (firstNamed Declared.name (assembly.names owner) (entries.filterMap Entry.declared?)) := by
  induction entries generalizing assembly with
  | nil => exact ⟨[], (List.append_nil _).symm, .nil⟩
  | cons entry rest ih =>
    obtain ⟨hentry, hrest⟩ := List.forall_mem_cons.mp h
    match entry with
    | .remark text => cases hentry
    | .invalid source => exact ih hrest (assembly.add owner (.invalid source))
    | .variable dataType declarator description =>
      have hdeclared : (Entry.variable dataType declarator description :: rest).filterMap
          Entry.declared? = ⟨dataType, declarator, description⟩ :: rest.filterMap Entry.declared? := rfl
      have hname : Declared.name ⟨dataType, declarator, description⟩ = declarator.name := rfl
      rw [hdeclared, firstNamed, hname, List.foldl_cons]
      by_cases hdup : assembly.contains owner declarator.name = true
      · rw [if_pos (Assembly.contains_iff.mp hdup), add_duplicate hdup]
        exact ih hrest _
      · rw [if_neg (mt Assembly.contains_iff.mpr hdup), add_variable (Bool.eq_false_iff.mpr hdup)]
        obtain ⟨more, hadded, hmore⟩ := ih hrest
          (Assembly.mk (memberOf assembly.collector dataType declarator description).2
            (assembly.added ++ [(memberOf assembly.collector dataType declarator description).1])
            assembly.log)
        refine ⟨_, hadded.trans (List.append_assoc _ _ _), .cons ⟨rfl, rfl, rfl⟩ ?_⟩
        have hnames : Assembly.names owner
            { collector := (memberOf assembly.collector dataType declarator description).2
              added := assembly.added ++
                [(memberOf assembly.collector dataType declarator description).1]
              log := assembly.log } = assembly.names owner ++ [declarator.name] := by
          simp [Assembly.names, memberOf]
        rw [hnames] at hmore
        exact hmore

/-- The members that a body without remarks adds to a structure. -/
theorem exists_members {body : List Text} (h : ∀ entry ∈ read body, entry.isRemark = false)
    (owner : Structure) (collector : Macro.Collector) :
    ∃ added, (owner.addBody collector body).1.members = owner.members ++ added ∧
      List.Forall₂ (fun m (v : Declared) => v.Becomes m) added
        (firstNamed Declared.name (owner.members.map Member.name)
          ((read body).filterMap Entry.declared?)) := by
  obtain ⟨added, hadded, hmembers⟩ := exists_added h owner { collector := collector }
  have hnames : Assembly.names owner { collector := collector } = owner.members.map Member.name :=
    List.append_nil _
  rw [hnames] at hmembers
  exact ⟨added, congrArg (owner.members ++ ·) hadded, hmembers⟩

end StructTables.Body

import StructTables.Proofs.Group.Agreement

/-! # The order of groups

Groups that keep clear of each other may be converted in any order. Each is converted as it would be by
itself on the tree at the start, and what it writes is still there at the end. -/

namespace StructTables.Group
open Text FileTree

/-! ## Runs -/

/-- How far a run has come: the tree, and the results of the groups that have been converted. -/
structure Progress where
  tree : FileTree
  results : List (Option (Except ConversionError Conversion))

/-- Converts the group at the given place of the list. -/
def convertAt (options : Options) (groups : List Group) (progress : Progress) (place : Nat) : Progress :=
  match groups[place]? with
  | none => progress
  | some group =>
    let outcome := group.convert options progress.tree
    { tree := outcome.tree, results := progress.results.set place (some outcome.result) }

/-- Converts the groups at the given places, one after the other. -/
def convertInOrder (options : Options) (tree : FileTree) (groups : List Group) (order : List Nat) :
    Progress :=
  order.foldl (convertAt options groups) ⟨tree, List.replicate groups.length none⟩

variable {options : Options} {tree : FileTree} {groups : List Group}

theorem convertAt_of_getElem? {place : Nat} {group : Group} (h : groups[place]? = some group)
    (progress : Progress) :
    convertAt options groups progress place =
      { tree := (group.convert options progress.tree).tree
        results := progress.results.set place (some (group.convert options progress.tree).result) } := by
  rw [convertAt, h]

theorem finalTree_cons (tree : FileTree) (outcome : Outcome) (more : List Outcome) :
    finalTree tree (outcome :: more) = finalTree outcome.tree more := by
  cases more <;> rfl

theorem set_length_append_replicate {α : Type} (first : List (Option α)) (count : Nat) (x : Option α) :
    (first ++ List.replicate (count + 1) none).set first.length x =
      (first ++ [x]) ++ List.replicate count none := by
  simp [List.replicate_succ]

/-- Converting the rest of the groups in the order of the list, once the first ones have results. -/
theorem foldl_convertAt_rest (options : Options) (tree : FileTree) (first rest : List Group)
    (results : List (Option (Except ConversionError Conversion)))
    (hlength : results.length = first.length) :
    (List.range' first.length rest.length).foldl (convertAt options (first ++ rest))
        ⟨tree, results ++ List.replicate rest.length none⟩ =
      ⟨finalTree tree (convertAll options tree rest),
        results ++ ((convertAll options tree rest).map Outcome.result).map some⟩ := by
  induction rest generalizing first tree results with
  | nil => rfl
  | cons group more ih =>
    let outcome := group.convert options tree
    have hgroup : (first ++ group :: more)[first.length]? = some group := by simp
    have hmore := ih outcome.tree (first ++ [group]) (results ++ [some outcome.result])
      (by simp [hlength])
    rw [List.length_append, List.length_singleton, List.append_assoc, List.singleton_append] at hmore
    rw [List.length_cons, List.range'_succ, List.foldl_cons, convertAt_of_getElem? hgroup, ← hlength,
      set_length_append_replicate, hlength, hmore, convertAll, finalTree_cons, List.map_cons,
      List.map_cons, List.append_assoc, List.singleton_append]

/-- Converting all groups is converting them in the order of the list. -/
theorem convertInOrder_range (options : Options) (tree : FileTree) (groups : List Group) :
    convertInOrder options tree groups (List.range groups.length) =
      { tree := finalTree tree (convertAll options tree groups)
        results := ((convertAll options tree groups).map Outcome.result).map some } := by
  rw [convertInOrder, List.range_eq_range']
  exact foldl_convertAt_rest options tree [] groups [] rfl

/-! ## Keeping apart -/

/-- Groups that keep clear of each other: neither writes where the other reads or writes. -/
structure Apart (options : Options) (tree : FileTree) (group other : Group) : Prop where
  clear : KeepsClear (group.places options tree) (tree.places (other.paths options))
  cleared : KeepsClear (other.places options tree) (tree.places (group.paths options))

instance (group other : Group) : Decidable (Apart options tree group other) :=
  decidable_of_iff
    (KeepsClear (group.places options tree) (tree.places (other.paths options)) ∧
      KeepsClear (other.places options tree) (tree.places (group.paths options)))
    ⟨fun h => ⟨h.1, h.2⟩, fun h => ⟨h.clear, h.cleared⟩⟩

theorem Apart.symm {group other : Group} (h : Apart options tree group other) :
    Apart options tree other group :=
  ⟨h.cleared, h.clear⟩

/-- Groups that may be converted in any order. -/
structure Independent (options : Options) (tree : FileTree) (groups : List Group) : Prop where
  below : ∀ group ∈ groups, group.StaysBelow
  apart : groups.Pairwise (Apart options tree)

theorem Independent.apart_of_ne (h : Independent options tree groups) {place other : Nat}
    {group second : Group} (hgroup : groups[place]? = some group) (hsecond : groups[other]? = some second)
    (hne : place ≠ other) : Apart options tree group second := by
  obtain ⟨hplace, rfl⟩ := List.getElem?_eq_some_iff.mp hgroup
  obtain ⟨hother, rfl⟩ := List.getElem?_eq_some_iff.mp hsecond
  have hapart := List.pairwise_iff_getElem.mp h.apart
  rcases Nat.lt_or_gt_of_ne hne with hlt | hgt
  · exact hapart place other hplace hother hlt
  · exact (hapart other place hother hplace hgt).symm

theorem Apart.not_mem {group other : Group} (h : Apart options tree group other) {location : Location}
    (hmem : location ∈ group.places options tree) : location ∉ other.places options tree :=
  fun hother => h.clear location hmem location (places_subset tree hother) List.prefix_rfl

/-! ## What a run comes to -/

/-- A run that has converted the groups at the given places as they would be by themselves, and has
changed nothing else. -/
structure Settled (options : Options) (tree : FileTree) (groups : List Group) (settled : List Nat)
    (progress : Progress) : Prop where
  current : progress.tree.current = tree.current
  length : progress.results.length = groups.length
  results : ∀ {place group}, groups[place]? = some group →
    progress.results[place]? =
      some (if place ∈ settled then some (group.convert options tree).result else none)
  written : ∀ {place group}, place ∈ settled → groups[place]? = some group →
    ∀ location ∈ group.places options tree,
      progress.tree.node? location = (group.convert options tree).tree.node? location
  kept : ∀ {location}, (∀ place ∈ settled, ∀ group, groups[place]? = some group →
    location ∉ group.places options tree) → progress.tree.node? location = tree.node? location

theorem settled_start : Settled options tree groups [] ⟨tree, List.replicate groups.length none⟩ where
  current := rfl
  length := List.length_replicate
  results := by
    intro place group hgroup
    obtain ⟨hplace, -⟩ := List.getElem?_eq_some_iff.mp hgroup
    simp [hplace]
  written := fun hmem => absurd hmem List.not_mem_nil
  kept := fun _ => rfl

variable {settled : List Nat} {progress : Progress} {place : Nat} {group : Group}

/-- A group that has not been converted finds its paths as they were. -/
theorem Settled.agreeOn (h : Settled options tree groups settled progress)
    (hindependent : Independent options tree groups) (hgroup : groups[place]? = some group)
    (hnew : place ∉ settled) : AgreeOn (group.paths options) tree progress.tree := by
  refine ⟨h.current.symm, fun target htarget location hway => (h.kept ?_).symm⟩
  intro other hother second hsecond hmem
  have hne : other ≠ place := ne_of_mem_of_not_mem hother hnew
  exact (hindependent.apart_of_ne hsecond hgroup hne).clear location hmem target htarget hway

theorem Settled.convertAt (h : Settled options tree groups settled progress)
    (hindependent : Independent options tree groups) (hgroup : groups[place]? = some group)
    (hnew : place ∉ settled) :
    Settled options tree groups (settled ++ [place]) (convertAt options groups progress place) := by
  have hconverts := converts options progress.tree group
  have hplaces : group.places options progress.tree = group.places options tree :=
    places_of_current h.current group
  have hafter := convert_congr (h.agreeOn hindependent hgroup hnew)
    (hindependent.below group (List.mem_of_getElem? hgroup))
  rw [convertAt_of_getElem? hgroup]
  refine ⟨hconverts.current.trans h.current, List.length_set.trans h.length, ?_, ?_, ?_⟩
  · intro other second hsecond
    rw [List.getElem?_set]
    split
    case isTrue heq =>
      subst heq
      cases hgroup.symm.trans hsecond
      obtain ⟨hplace, -⟩ := List.getElem?_eq_some_iff.mp hgroup
      simp [h.length, hplace, hafter.result]
    case isFalse hne => simp [h.results hsecond, Ne.symm hne]
  · intro other second hmem hsecond location hlocation
    by_cases heq : other = place
    · subst heq
      cases hgroup.symm.trans hsecond
      have hcurrent := (converts options tree group).current
      refine (hafter.tree.node location ?_ location List.prefix_rfl).symm
      rw [places_congr hcurrent]
      exact places_subset tree hlocation
    · have hother : other ∈ settled := by simpa [heq] using hmem
      have hclear := (hindependent.apart_of_ne hsecond hgroup heq).not_mem hlocation
      rw [hconverts.node?_eq (hplaces ▸ hclear)]
      exact h.written hother hsecond location hlocation
  · intro location hnone
    have hgroupNone := hnone place (List.mem_append_right _ List.mem_cons_self) group hgroup
    rw [hconverts.node?_eq (hplaces ▸ hgroupNone)]
    exact h.kept fun other hother => hnone other (List.mem_append_left _ hother)

theorem Settled.foldl_convertAt (h : Settled options tree groups settled progress)
    (hindependent : Independent options tree groups) {order : List Nat}
    (hnodup : (settled ++ order).Nodup) (hplaces : ∀ place ∈ order, place < groups.length) :
    Settled options tree groups (settled ++ order)
      (order.foldl (Group.convertAt options groups) progress) := by
  induction order generalizing settled progress with
  | nil => rwa [List.append_nil]
  | cons place more ih =>
    have hnew : place ∉ settled :=
      fun hmem => (List.nodup_append.mp hnodup).2.2 place hmem place List.mem_cons_self rfl
    have hgroup := List.getElem?_eq_getElem (hplaces place List.mem_cons_self)
    rw [List.append_cons] at hnodup ⊢
    exact ih (h.convertAt hindependent hgroup hnew) hnodup
      fun other hother => hplaces other (List.mem_cons_of_mem _ hother)

theorem settled_convertInOrder (hindependent : Independent options tree groups) {order : List Nat}
    (hnodup : order.Nodup) (hplaces : ∀ place ∈ order, place < groups.length) :
    Settled options tree groups order (convertInOrder options tree groups order) :=
  settled_start.foldl_convertAt hindependent hnodup hplaces

/-! ## Orders -/

section Orders

variable {other : List Nat} {again : Progress}

theorem Settled.getElem?_eq (h : Settled options tree groups settled progress)
    (h' : Settled options tree groups other again) (hsame : place ∈ settled ↔ place ∈ other) :
    progress.results[place]? = again.results[place]? := by
  cases hgroup : groups[place]? with
  | some group => simp only [h.results hgroup, h'.results hgroup, hsame]
  | none =>
    have hplace := List.getElem?_eq_none_iff.mp hgroup
    rw [List.getElem?_eq_none (h.length ▸ hplace), List.getElem?_eq_none (h'.length ▸ hplace)]

/-- Runs leave the same at a location if they have both converted the groups that may write there. -/
theorem Settled.node?_eq (h : Settled options tree groups settled progress)
    (h' : Settled options tree groups other again) {location : Location}
    (hsame : ∀ place group, groups[place]? = some group → location ∈ group.places options tree →
      (place ∈ settled ↔ place ∈ other)) :
    progress.tree.node? location = again.tree.node? location := by
  by_cases hwritten : ∃ place ∈ settled, ∃ group, groups[place]? = some group ∧
      location ∈ group.places options tree
  · obtain ⟨place, hplace, group, hgroup, hmem⟩ := hwritten
    have hother := (hsame place group hgroup hmem).mp hplace
    exact (h.written hplace hgroup location hmem).trans (h'.written hother hgroup location hmem).symm
  · simp only [not_exists, not_and] at hwritten
    refine (h.kept hwritten).trans (h'.kept fun place hplace group hgroup hmem => ?_).symm
    exact hwritten place ((hsame place group hgroup hmem).mpr hplace) group hgroup hmem

theorem Settled.results_eq (h : Settled options tree groups settled progress)
    (hall : ∀ place < groups.length, place ∈ settled) :
    progress.results = groups.map fun group => some (group.convert options tree).result := by
  refine List.ext_getElem? fun place => ?_
  rw [List.getElem?_map]
  cases hgroup : groups[place]? with
  | some group =>
    obtain ⟨hplace, -⟩ := List.getElem?_eq_some_iff.mp hgroup
    rw [h.results hgroup, if_pos (hall place hplace), Option.map_some]
  | none =>
    have hplace := List.getElem?_eq_none_iff.mp hgroup
    exact List.getElem?_eq_none (h.length ▸ hplace)

end Orders

theorem settled_of_perm (hindependent : Independent options tree groups) {order : List Nat}
    (horder : order.Perm (List.range groups.length)) :
    Settled options tree groups order (convertInOrder options tree groups order) :=
  settled_convertInOrder hindependent (horder.nodup_iff.mpr List.nodup_range)
    fun _ hplace => List.mem_range.mp (horder.mem_iff.mp hplace)

theorem settled_convertAll (hindependent : Independent options tree groups) :
    Settled options tree groups (List.range groups.length)
      { tree := finalTree tree (convertAll options tree groups)
        results := ((convertAll options tree groups).map Outcome.result).map some } := by
  rw [← convertInOrder_range]
  exact settled_of_perm hindependent (.refl _)

theorem results_convertAll (hindependent : Independent options tree groups) :
    (convertAll options tree groups).map Outcome.result =
      groups.map fun group => (group.convert options tree).result := by
  have hresults := (settled_convertAll hindependent).results_eq fun _ => List.mem_range.mpr
  exact (List.map_inj_right fun _ _ => Option.some.inj).mp (hresults.trans List.map_map.symm)

/-- Independent groups may be converted in any order. The results stand in the order of the list and are
those that each group has by itself on the tree at the start; what is at its outputs in the end is what
it would leave there by itself; nothing else is changed; and leaving out one of the groups, one that fails
or another, makes no difference but to its own result and outputs. -/
theorem convertInOrder_of_independent (hindependent : Independent options tree groups) {order : List Nat}
    (horder : order.Perm (List.range groups.length)) :
    let alone := fun group : Group => group.convert options tree
    let outcomes := convertAll options tree groups
    let run := convertInOrder options tree groups order
    run.results = groups.map (fun group => some (alone group).result) ∧
      outcomes.map Outcome.result = groups.map (fun group => (alone group).result) ∧
      run.tree.Alike (finalTree tree outcomes) ∧
      (∀ group ∈ groups, ∀ location ∈ group.places options tree,
        run.tree.node? location = (alone group).tree.node? location) ∧
      (∀ location, (∀ group ∈ groups, location ∉ group.places options tree) →
        run.tree.node? location = tree.node? location) ∧
      ∀ place,
        let without := convertInOrder options tree groups (order.erase place)
        (∀ other, other ≠ place → without.results[other]? = run.results[other]?) ∧
          ∀ location,
            (∀ group, groups[place]? = some group → location ∉ group.places options tree) →
              without.tree.node? location = run.tree.node? location := by
  intro alone outcomes run
  have hmem : ∀ place, place ∈ order ↔ place < groups.length :=
    fun place => horder.mem_iff.trans List.mem_range
  have hrun := settled_of_perm hindependent horder
  have hall := settled_convertAll hindependent
  refine ⟨hrun.results_eq fun place => (hmem place).mpr, results_convertAll hindependent,
    ⟨hrun.current.trans hall.current.symm, fun location => ?_⟩, ?_, ?_, fun place => ?_⟩
  · exact hrun.node?_eq hall fun _ _ _ _ => horder.mem_iff
  · intro group hgroup
    obtain ⟨place, hplace⟩ := List.mem_iff_getElem?.mp hgroup
    have hlt := (List.getElem?_eq_some_iff.mp hplace).1
    exact hrun.written ((hmem place).mpr hlt) hplace
  · exact fun location hnone => hrun.kept fun _ _ group hgroup => hnone group (List.mem_of_getElem? hgroup)
  · have hwithout := settled_convertInOrder hindependent
      ((horder.nodup_iff.mpr List.nodup_range).erase place)
      fun other hother => (hmem other).mp (List.mem_of_mem_erase hother)
    refine ⟨fun other hother => hwithout.getElem?_eq hrun (List.mem_erase_of_ne hother),
      fun location hnone => ?_⟩
    refine hwithout.node?_eq hrun fun other group hgroup hlocation => List.mem_erase_of_ne ?_
    rintro rfl
    exact hnone group hgroup hlocation

/-- Of three groups with one header, the second has no directory to write to, and the third fails at its
extract, behind its sheet. The first is converted all the same, last of the three or not. -/
theorem convertInOrder_of_failures :
    let tree : FileTree :=
      ⟨[(["a.h".toList], .file (encodeUtf8 "struct A \x7b\nint a;\n\x7d;\n".toList)),
        (["c.csv.json".toList], .directory)], []⟩
    let groups : List Group :=
      ["a.csv", "none/b.csv", "c.csv"].map fun output => ⟨"G".toList, [], output.toList, ["a.h".toList]⟩
    let options : Options := { exportJson := true }
    let run := convertInOrder options tree groups [2, 1, 0]
    run.results.map (·.map Except.isOk) = [some true, some false, some false] ∧
      run.tree.Alike (finalTree tree (convertAll options tree groups)) ∧
      run.tree.node? ["none".toList] = none ∧
      ∀ location ∉ [["a.csv".toList], ["a.csv.json".toList]],
        (convertInOrder options tree groups [2, 1]).tree.node? location = run.tree.node? location := by
  intro tree groups options run
  have hindependent : Independent options tree groups := ⟨by decide +kernel, by decide +kernel⟩
  obtain ⟨hresults, -, halike, -, hkept, hwithout⟩ :=
    convertInOrder_of_independent hindependent (show [2, 1, 0].Perm [0, 1, 2] by decide)
  refine ⟨?_, halike, hkept _ (by decide +kernel), fun location hlocation => ?_⟩
  · rw [hresults]
    decide +kernel
  · refine (hwithout 0).2 location fun group hgroup hmem => hlocation ?_
    cases hgroup
    exact hmem

end StructTables.Group

import StructTables.FileTree
import StructTables.Proofs.Path

/-! # Files that are put into a tree

A file is put where no directory is. Names are only looked up in directories, so all that could be
followed before can be followed afterwards, and the file is found under the path that it was written
to. -/

namespace StructTables.FileTree
open Text

variable {tree : FileTree} {location : Location} {path : Text}

/-! ## What there is -/

theorem node?_put_self (h : location ≠ []) (tree : FileTree) (content : Bytes) :
    (tree.put location content).node? location = some (.file content) := by
  simp [node?, put, h]

theorem node?_put_of_ne {other : Location} (h : other ≠ location) (tree : FileTree)
    (content : Bytes) : (tree.put location content).node? other = tree.node? other := by
  unfold node? put
  rw [List.find?_cons_of_neg (by simpa using Ne.symm h)]

theorem node?_put_ne_directory {other : Location} (h : tree.node? other ≠ some .directory)
    (location : Location) (content : Bytes) :
    (tree.put location content).node? other ≠ some .directory := by
  by_cases heq : other = location
  · have hne : location ≠ [] := by
      rintro rfl
      exact h (heq ▸ rfl)
    rw [heq, node?_put_self hne]
    simp
  · rwa [node?_put_of_ne heq]

/-! ## Following names -/

theorem eq_of_follow {first last : Location} {names : List Text}
    (h : tree.follow first names = .ok last) : last = names.foldl stepFrom first := by
  induction names generalizing first with
  | nil => exact (Except.ok.inj h).symm
  | cons name more ih =>
    rw [follow] at h
    split at h
    · cases h
    · cases h
    · exact ih h

theorem follow_append {first parent : Location} {names : List Text}
    (h : tree.follow first names = .ok parent) (more : List Text) :
    tree.follow first (names ++ more) = tree.follow parent more := by
  induction names generalizing first with
  | nil => exact Except.ok.inj h ▸ rfl
  | cons name rest ih =>
    rw [List.cons_append, follow]
    rw [follow] at h
    split at h
    · cases h
    · cases h
    · exact ih h

/-- Putting a file does not get in the way of names that could be followed. -/
theorem follow_put {first last : Location} {names : List Text}
    (hnew : tree.node? location ≠ some .directory) (h : tree.follow first names = .ok last)
    (content : Bytes) : (tree.put location content).follow first names = .ok last := by
  induction names generalizing first with
  | nil => exact h
  | cons name more ih =>
    rw [follow] at h ⊢
    split at h
    case h_1 => cases h
    case h_2 => cases h
    case h_3 hdirectory =>
      have hne : first ≠ location := by
        rintro rfl
        exact hnew hdirectory
      rw [node?_put_of_ne hne, hdirectory]
      exact ih h

/-! ## Writing to a path -/

/-- What it takes to write to a path: its last name is one that a file can have, the names ahead of it
lead to a directory, and there is no directory of that name. -/
structure Writable (tree : FileTree) (path : Text) (parents : List Text) (name : Text)
    (parent : Location) : Prop where
  nonempty : path ≠ []
  noSlash : Path.endsInSlash path = false
  steps : Path.steps path = parents ++ [name]
  proper : name ≠ ['.'] ∧ name ≠ ['.', '.']
  follows : tree.follow (tree.origin path) parents = .ok parent
  directory : tree.node? parent = some .directory
  free : tree.node? (parent ++ [name]) ≠ some .directory

variable {parents : List Text} {name : Text} {parent : Location}

theorem Writable.target (h : tree.Writable path parents name parent) :
    tree.target path = .ok (parent ++ [name]) := by
  have hempty : path.isEmpty = false := by simpa using h.nonempty
  simp [FileTree.target, hempty, h.steps, h.follows, h.directory, h.noSlash, h.proper, h.free]

theorem writable_of_target (h : tree.target path = .ok location) :
    ∃ parents name parent, tree.Writable path parents name parent ∧
      location = parent ++ [name] := by
  unfold target at h
  split at h
  case isTrue => cases h
  case isFalse hpath =>
    simp only at h
    split at h
    case h_1 => cases h
    case h_2 parent hfollow =>
      split at h
      case h_4 name hparent hname =>
        split at h
        case isTrue => cases h
        case isFalse hends =>
          split at h
          case isTrue => cases h
          case isFalse hfree =>
            simp only [Bool.or_eq_true, decide_eq_true_eq, not_or, Bool.not_eq_true] at hends
            obtain ⟨parents, hsteps⟩ := List.getLast?_eq_some_iff.mp hname
            rw [hsteps, List.dropLast_concat] at hfollow
            exact ⟨parents, name, parent,
              ⟨by simpa using hpath, hends.1.1, hsteps, ⟨hends.1.2, hends.2⟩, hfollow, hparent,
                hfree⟩, (Except.ok.inj h).symm⟩
      all_goals cases h

theorem Writable.put (h : tree.Writable path parents name parent)
    (hnew : tree.node? location ≠ some .directory) (content : Bytes) :
    (tree.put location content).Writable path parents name parent where
  nonempty := h.nonempty
  noSlash := h.noSlash
  steps := h.steps
  proper := h.proper
  follows := follow_put hnew h.follows content
  directory := by
    have hne : parent ≠ location := by
      rintro rfl
      exact hnew h.directory
    rw [node?_put_of_ne hne, h.directory]
  free := node?_put_ne_directory h.free location content

/-- Where a file could be written, it can still be written once another file has been. -/
theorem target_put {place : Location} (h : tree.target path = .ok place)
    (hnew : tree.node? location ≠ some .directory) (content : Bytes) :
    (tree.put location content).target path = .ok place := by
  obtain ⟨parents, name, parent, hwritable, rfl⟩ := writable_of_target h
  exact (hwritable.put hnew content).target

theorem node?_of_target (h : tree.target path = .ok location) :
    location ≠ [] ∧ tree.node? location ≠ some .directory := by
  obtain ⟨parents, name, parent, hwritable, rfl⟩ := writable_of_target h
  exact ⟨by simp, hwritable.free⟩

/-- A path that can be written to, and what there is at the place of its file. -/
structure Holds (tree : FileTree) (path : Text) (location : Location) (content : Bytes) : Prop where
  target : tree.target path = .ok location
  node : tree.node? location = some (.file content)

theorem holds_put (h : tree.target path = .ok location) (content : Bytes) :
    (tree.put location content).Holds path location content :=
  ⟨target_put h (node?_of_target h).2 content, node?_put_self (node?_of_target h).1 tree content⟩

theorem Holds.put {content : Bytes} (h : tree.Holds path location content) {place : Location}
    (hfree : tree.node? place ≠ some .directory) (hne : location ≠ place) (other : Bytes) :
    (tree.put place other).Holds path location content :=
  ⟨target_put h.target hfree other, (node?_put_of_ne hne tree other).trans h.node⟩

theorem Holds.read {content : Bytes} (h : tree.Holds path location content) :
    tree.read path = .ok content := by
  obtain ⟨parents, name, parent, hwritable, rfl⟩ := writable_of_target h.target
  have hempty : path.isEmpty = false := by simpa using hwritable.nonempty
  have hfollow : tree.follow (tree.origin path) (Path.steps path) = .ok (parent ++ [name]) := by
    rw [hwritable.steps, follow_append hwritable.follows, follow, hwritable.directory]
    simp [follow, stepFrom, hwritable.proper]
  simp [FileTree.read, find, hempty, hfollow, h.node, hwritable.noSlash]

/-- The JSON of an output has a place of its own. -/
theorem target_json_ne {other : FileTree} {place : Location} (h : tree.target path = .ok location)
    (hjson : other.target (Path.json path) = .ok place) : place ≠ location := by
  obtain ⟨parents, name, parent, hwritable, rfl⟩ := writable_of_target h
  obtain ⟨jsonParents, jsonName, jsonParent, hjsonWritable, rfl⟩ := writable_of_target hjson
  obtain ⟨front, last, hsteps, hjsonSteps⟩ := Path.exists_steps_json hwritable.nonempty
    hwritable.noSlash
  have hname : name = last :=
    List.singleton_inj.mp (List.append_inj_right' (hwritable.steps.symm.trans hsteps) rfl)
  have hjsonName : jsonName = last ++ ".json".toList :=
    List.singleton_inj.mp (List.append_inj_right' (hjsonWritable.steps.symm.trans hjsonSteps) rfl)
  intro heq
  have hlast := List.singleton_inj.mp (List.append_inj_right' heq rfl)
  rw [hname, hjsonName] at hlast
  exact absurd (congrArg List.length hlast) (by simp)

end StructTables.FileTree

import StructTables.Proofs.FileTree.Putting

/-! # Where paths lead

A path that does not go up only asks for what there is on the way to its location. Trees that agree
there cannot be told apart by reading the path or by writing to it, and a file that is put elsewhere
makes no difference. -/

namespace StructTables.FileTree
open Text

/-- The location that a path leads to, whether something is there or not. The empty path leads
nowhere. -/
def locate? (tree : FileTree) (path : Text) : Option Location :=
  if path.isEmpty then none else some ((Path.steps path).foldl stepFrom (tree.origin path))

def places (tree : FileTree) (paths : List Text) : List Location := paths.filterMap tree.locate?

variable {tree a b : FileTree} {path : Text} {paths : List Text}

theorem locate?_congr (h : a.current = b.current) (path : Text) : a.locate? path = b.locate? path := by
  rw [locate?, locate?, origin, origin, h]

theorem places_congr (h : a.current = b.current) (paths : List Text) :
    a.places paths = b.places paths :=
  congrArg (paths.filterMap ·) (funext (locate?_congr h))

theorem locate?_of_target {location : Location} (h : tree.target path = .ok location) :
    tree.locate? path = some location := by
  obtain ⟨parents, name, parent, hwritable, rfl⟩ := writable_of_target h
  have hempty : path.isEmpty = false := by simpa using hwritable.nonempty
  rw [locate?, hempty, if_neg Bool.false_ne_true, hwritable.steps, List.foldl_append,
    ← eq_of_follow hwritable.follows]
  simp [stepFrom, hwritable.proper]

theorem mem_places_of_target {location : Location} (hpath : path ∈ paths)
    (h : tree.target path = .ok location) : location ∈ tree.places paths :=
  List.mem_filterMap.mpr ⟨path, hpath, locate?_of_target h⟩

/-- Names that do not lead up lead on from where they start. -/
theorem prefix_foldl_stepFrom {names : List Text} (hup : ['.', '.'] ∉ names) (first : Location) :
    first <+: names.foldl stepFrom first := by
  induction names generalizing first with
  | nil => exact List.prefix_rfl
  | cons name more ih =>
    obtain ⟨hname, hmore⟩ := List.ne_and_not_mem_of_not_mem_cons hup
    refine List.IsPrefix.trans ?_ (ih hmore (stepFrom first name))
    rw [stepFrom, if_neg (Ne.symm hname)]
    split
    · exact List.prefix_rfl
    · exact List.prefix_append first [name]

theorem prefix_foldl_dropLast {names : List Text} (hup : ['.', '.'] ∉ names) (first : Location) :
    names.dropLast.foldl stepFrom first <+: names.foldl stepFrom first := by
  rcases List.eq_nil_or_concat names with rfl | ⟨parents, name, hnames⟩
  · exact List.prefix_rfl
  · rw [List.concat_eq_append] at hnames
    subst hnames
    rw [List.dropLast_concat, List.foldl_append]
    exact prefix_foldl_stepFrom (fun hmem => hup (List.mem_append_right _ hmem)) _

/-! ## Agreement -/

/-- Trees that have the same at every location on the way to those that the paths lead to. -/
structure AgreeOn (paths : List Text) (a b : FileTree) : Prop where
  current : a.current = b.current
  node : ∀ place ∈ a.places paths, ∀ location, location <+: place →
    a.node? location = b.node? location

/-- Trees that have the same everywhere. -/
structure Alike (a b : FileTree) : Prop where
  current : a.current = b.current
  node : ∀ location, a.node? location = b.node? location

theorem Alike.agreeOn (h : a.Alike b) (paths : List Text) : AgreeOn paths a b :=
  ⟨h.current, fun _ _ location _ => h.node location⟩

theorem AgreeOn.mono (h : AgreeOn paths a b) {fewer : List Text} (hsubset : fewer ⊆ paths) :
    AgreeOn fewer a b := by
  refine ⟨h.current, fun place hplace => h.node place ?_⟩
  obtain ⟨path, hpath, hlocate⟩ := List.mem_filterMap.mp hplace
  exact List.mem_filterMap.mpr ⟨path, hsubset hpath, hlocate⟩

theorem node?_put_congr {location : Location} (h : a.node? location = b.node? location)
    (place : Location) (content : Bytes) :
    (a.put place content).node? location = (b.put place content).node? location := by
  by_cases heq : location = place
  · subst heq
    cases location with
    | nil => rfl
    | cons => rw [node?_put_self (List.cons_ne_nil _ _), node?_put_self (List.cons_ne_nil _ _)]
  · rw [node?_put_of_ne heq, node?_put_of_ne heq, h]

theorem AgreeOn.put (h : AgreeOn paths a b) (place : Location) (content : Bytes) :
    AgreeOn paths (a.put place content) (b.put place content) := by
  refine ⟨h.current, fun _ hmem location hway => ?_⟩
  exact node?_put_congr (h.node _ hmem location hway) place content

/-- Putting what is there already changes nothing. -/
theorem alike_put {location : Location} {content : Bytes}
    (h : tree.node? location = some (.file content)) : (tree.put location content).Alike tree := by
  refine ⟨rfl, fun other => ?_⟩
  by_cases heq : other = location
  · have hne : location ≠ [] := by
      rintro rfl
      cases h
    rw [heq, node?_put_self hne, h]
  · exact node?_put_of_ne heq tree content

theorem Alike.refl (tree : FileTree) : tree.Alike tree := ⟨rfl, fun _ => rfl⟩

theorem Alike.trans {c : FileTree} (h : a.Alike b) (h' : b.Alike c) : a.Alike c :=
  ⟨h.current.trans h'.current, fun location => (h.node location).trans (h'.node location)⟩

/-! ## Looking up in trees that agree -/

theorem follow_congr {names : List Text} (hup : ['.', '.'] ∉ names) {first : Location}
    (h : ∀ location, location <+: names.foldl stepFrom first → a.node? location = b.node? location) :
    a.follow first names = b.follow first names := by
  induction names generalizing first with
  | nil => rfl
  | cons name more ih =>
    rw [follow, follow, h first (prefix_foldl_stepFrom hup first)]
    split
    · rfl
    · rfl
    · exact ih (List.ne_and_not_mem_of_not_mem_cons hup).2 h

/-- What agreement on a path comes to. -/
theorem AgreeOn.node_of_prefix (h : AgreeOn paths a b) (hpath : path ∈ paths)
    (hempty : ¬ path.isEmpty = true) {location : Location}
    (hway : location <+: (Path.steps path).foldl stepFrom (a.origin path)) :
    a.node? location = b.node? location :=
  h.node _ (List.mem_filterMap.mpr ⟨path, hpath, if_neg hempty⟩) location hway

theorem AgreeOn.origin_eq (h : AgreeOn paths a b) (path : Text) : b.origin path = a.origin path := by
  rw [origin, origin, h.current]

theorem not_mem_steps (h : Path.goesUp path = false) : ['.', '.'] ∉ Path.steps path := by
  simpa [Path.goesUp] using h

theorem AgreeOn.find_eq (h : AgreeOn paths a b) (hpath : path ∈ paths)
    (hup : Path.goesUp path = false) : a.find path = b.find path := by
  unfold find
  rw [h.origin_eq]
  split
  case isTrue => rfl
  case isFalse hempty =>
    rw [← follow_congr (not_mem_steps hup) fun _ => h.node_of_prefix hpath hempty]
    cases hfollow : a.follow (a.origin path) (Path.steps path) with
    | error refusal => rfl
    | ok location =>
      have hlast : a.node? location = b.node? location :=
        h.node_of_prefix hpath hempty (eq_of_follow hfollow ▸ List.prefix_rfl)
      simp only [hlast]

theorem AgreeOn.pathExists_eq (h : AgreeOn paths a b) (hpath : path ∈ paths)
    (hup : Path.goesUp path = false) : a.pathExists path = b.pathExists path := by
  rw [pathExists, pathExists, h.find_eq hpath hup]

theorem AgreeOn.read_eq (h : AgreeOn paths a b) (hpath : path ∈ paths)
    (hup : Path.goesUp path = false) : a.read path = b.read path := by
  rw [read, read, h.find_eq hpath hup]

theorem AgreeOn.target_eq (h : AgreeOn paths a b) (hpath : path ∈ paths)
    (hup : Path.goesUp path = false) : a.target path = b.target path := by
  have hnames := not_mem_steps hup
  have hparents : ['.', '.'] ∉ (Path.steps path).dropLast :=
    fun hmem => hnames (List.dropLast_subset _ hmem)
  have hway := prefix_foldl_dropLast hnames (a.origin path)
  unfold target
  rw [h.origin_eq]
  split
  case isTrue => rfl
  case isFalse hempty =>
    simp only
    rw [← follow_congr hparents fun _ hbegins => h.node_of_prefix hpath hempty (hbegins.trans hway)]
    cases hfollow : a.follow (a.origin path) (Path.steps path).dropLast with
    | error refusal => rfl
    | ok parent =>
      have hparent := eq_of_follow hfollow
      have hdirectory : a.node? parent = b.node? parent :=
        h.node_of_prefix hpath hempty (hparent ▸ hway)
      simp only [hdirectory]
      split
      case h_4 name _ hlast =>
        split
        case isTrue => rfl
        case isFalse hends =>
          -- only here is the place of the file looked up
          simp only [Bool.or_eq_true, decide_eq_true_eq, not_or] at hends
          obtain ⟨parents, hsteps⟩ := List.getLast?_eq_some_iff.mp hlast
          have hplace : (Path.steps path).foldl stepFrom (a.origin path) = parent ++ [name] := by
            rw [hparent, hsteps, List.dropLast_concat, List.foldl_append]
            simp [stepFrom, hends]
          have hnode : a.node? (parent ++ [name]) = b.node? (parent ++ [name]) :=
            h.node_of_prefix hpath hempty (hplace ▸ List.prefix_rfl)
          rw [hnode]
      all_goals rfl

/-! ## Keeping clear -/

/-- None of the written locations is one of the others, or a directory on the way to one. -/
def KeepsClear (written others : List Location) : Prop :=
  ∀ location ∈ written, ∀ place ∈ others, ¬ location <+: place

instance (written others : List Location) : Decidable (KeepsClear written others) :=
  inferInstanceAs (Decidable (∀ location ∈ written, ∀ place ∈ others, ¬ location <+: place))

/-- Trees that differ at the written locations alone agree on the paths that these keep clear of. -/
theorem agreeOn_of_keepsClear {written : List Location} (hcurrent : a.current = b.current)
    (hclear : KeepsClear written (a.places paths))
    (hnode : ∀ location, location ∉ written → a.node? location = b.node? location) :
    AgreeOn paths a b :=
  ⟨hcurrent, fun place hplace location hway =>
    hnode location fun hmem => hclear location hmem place hplace hway⟩

end StructTables.FileTree

import StructTables.Proofs.Group.Outcomes

/-! # Conversions on trees that agree

A conversion asks for its paths only. On trees that agree on these it has the same result, and leaves
trees that agree on them again. -/

namespace StructTables.Group
open Text FileTree

/-- The paths that a conversion may read or write to. -/
def paths (options : Options) (group : Group) : List Text := group.inputs ++ group.outputs options

/-- Whether no path of a group leads up. -/
def StaysBelow (group : Group) : Prop := ∀ path ∈ group.output :: group.inputs, Path.goesUp path = false

instance (group : Group) : Decidable group.StaysBelow :=
  inferInstanceAs (Decidable (∀ path ∈ group.output :: group.inputs, Path.goesUp path = false))

variable {options : Options} {a b : FileTree} {group : Group}

theorem inputs_subset_paths : group.inputs ⊆ group.paths options := List.subset_append_left _ _

theorem output_mem_paths : group.output ∈ group.paths options :=
  List.mem_append_right _ List.mem_cons_self

theorem json_mem_paths (hexport : options.exportJson = true) :
    Path.json group.output ∈ group.paths options :=
  List.mem_append_right _ (by simp [outputs, hexport])

theorem places_subset (tree : FileTree) :
    group.places options tree ⊆ tree.places (group.paths options) :=
  List.filterMap_subset _ (List.subset_append_right _ _)

theorem StaysBelow.output (h : group.StaysBelow) : Path.goesUp group.output = false :=
  h _ List.mem_cons_self

theorem StaysBelow.input (h : group.StaysBelow) {input : Text} (hinput : input ∈ group.inputs) :
    Path.goesUp input = false :=
  h _ (List.mem_cons_of_mem _ hinput)

/-! ## Congruence -/

theorem scanInputs_congr {inputs : List Text} (hagree : AgreeOn inputs a b)
    (hbelow : ∀ input ∈ inputs, Path.goesUp input = false) (scan : Scan) :
    scanInputs a scan inputs = scanInputs b scan inputs := by
  induction inputs generalizing scan with
  | nil => rfl
  | cons input more ih =>
    have hinput : scanInput a scan input = scanInput b scan input := by
      rw [scanInput, scanInput, hagree.pathExists_eq List.mem_cons_self (hbelow _ List.mem_cons_self),
        hagree.read_eq List.mem_cons_self (hbelow _ List.mem_cons_self)]
    rw [scanInputs, scanInputs, hinput]
    split
    · rfl
    · exact ih (hagree.mono (List.subset_cons_self _ _))
        (fun other hother => hbelow other (List.mem_cons_of_mem _ hother)) _

/-- Conversions of a group that have the same result, on trees that agree on its paths. -/
structure AgreeAfter (options : Options) (group : Group) (first second : Outcome) : Prop where
  result : first.result = second.result
  tree : AgreeOn (group.paths options) first.tree second.tree

theorem convert_congr (hagree : AgreeOn (group.paths options) a b) (hbelow : group.StaysBelow) :
    AgreeAfter options group (group.convert options a) (group.convert options b) := by
  have hscan : ∀ {last}, scanInputs a (Scan.start group.name options) group.inputs = last →
      scanInputs b (Scan.start group.name options) group.inputs = last :=
    fun h => (scanInputs_congr (hagree.mono inputs_subset_paths) (fun _ => hbelow.input) _).symm.trans h
  have hsheet : a.target group.output = b.target group.output :=
    hagree.target_eq output_mem_paths hbelow.output
  have hextract : options.exportJson = true → ∀ location content,
      (a.put location content).target (Path.json group.output) =
        (b.put location content).target (Path.json group.output) :=
    fun hexport location content => (hagree.put location content).target_eq (json_mem_paths hexport)
      (Path.goesUp_json hbelow.output)
  have hconverts := converts options a group
  generalize group.convert options a = outcome at hconverts
  cases hconverts with
  | unread scanned =>
    rw [(Converts.unread (hscan scanned)).eq]
    exact ⟨rfl, hagree⟩
  | unwritten scanned sheet =>
    rw [(Converts.unwritten (hscan scanned) (hsheet.symm.trans sheet)).eq]
    exact ⟨rfl, hagree⟩
  | written scanned sheet alone =>
    rw [(Converts.written (hscan scanned) (hsheet.symm.trans sheet) alone).eq]
    exact ⟨rfl, hagree.put _ _⟩
  | unexported scanned sheet exports extract =>
    rw [(Converts.unexported (hscan scanned) (hsheet.symm.trans sheet) exports
      ((hextract exports _ _).symm.trans extract)).eq]
    exact ⟨rfl, hagree.put _ _⟩
  | exported scanned sheet exports extract =>
    rw [(Converts.exported (hscan scanned) (hsheet.symm.trans sheet) exports
      ((hextract exports _ _).symm.trans extract)).eq]
    exact ⟨rfl, (hagree.put _ _).put _ _⟩

end StructTables.Group

import StructTables.Proofs.Group.Order

/-! # Converting again

A conversion whose inputs are kept clear of reads the same again, and puts into its outputs what is there
already. -/

namespace StructTables.Group
open Text FileTree

variable {options : Options} {tree : FileTree} {groups : List Group} {group : Group}

/-! ## One group -/

/-- Whether a group writes to none of its own inputs. -/
def KeepsInputs (options : Options) (tree : FileTree) (group : Group) : Prop :=
  KeepsClear (group.places options tree) (tree.places group.inputs)

instance (group : Group) : Decidable (KeepsInputs options tree group) :=
  inferInstanceAs (Decidable (KeepsClear (group.places options tree) (tree.places group.inputs)))

/-- An outcome that comes about again on the tree that it leaves. -/
structure Repeats (options : Options) (group : Group) (outcome : Outcome) : Prop where
  result : (group.convert options outcome.tree).result = outcome.result
  tree : (group.convert options outcome.tree).tree.Alike outcome.tree

theorem Converts.repeats {outcome again : Outcome} (h : Converts options outcome.tree group again)
    (hresult : again.result = outcome.result) (htree : again.tree.Alike outcome.tree) :
    Repeats options group outcome := by
  rw [← h.eq] at hresult htree
  exact ⟨hresult, htree⟩

theorem Converts.scan_again {outcome : Outcome} (h : Converts options tree group outcome)
    (hbelow : group.StaysBelow) (hkeeps : KeepsInputs options tree group) (scan : Scan) :
    scanInputs outcome.tree scan group.inputs = scanInputs tree scan group.inputs :=
  (scanInputs_congr (agreeOn_of_keepsClear h.current.symm hkeeps fun _ hnone => (h.node?_eq hnone).symm)
    (fun _ => hbelow.input) scan).symm

theorem repeats_convert (hbelow : group.StaysBelow) (hkeeps : KeepsInputs options tree group) :
    Repeats options group (group.convert options tree) := by
  have hconverts := converts options tree group
  have hscan := fun scan => hconverts.scan_again hbelow hkeeps scan
  generalize group.convert options tree = outcome at hconverts hscan
  cases hconverts with
  | unread scanned => exact (Converts.unread ((hscan _).trans scanned)).repeats rfl (.refl _)
  | unwritten scanned sheet =>
    exact (Converts.unwritten ((hscan _).trans scanned) sheet).repeats rfl (.refl _)
  | @written scan location scanned sheet alone =>
    have hsheet := holds_put sheet (encodeUtf8 (group.conversion scan).sheet)
    exact (Converts.written ((hscan _).trans scanned) hsheet.target alone).repeats rfl
      (alike_put hsheet.node)
  | @unexported scan location refusal scanned sheet exports extract =>
    have hsheet := holds_put sheet (encodeUtf8 (group.conversion scan).sheet)
    have hagain := alike_put hsheet.node
    have hextract := (hagain.agreeOn [Path.json group.output]).target_eq List.mem_cons_self
      (Path.goesUp_json hbelow.output)
    exact (Converts.unexported ((hscan _).trans scanned) hsheet.target exports
      (hextract.trans extract)).repeats rfl hagain
  | @exported scan location place scanned sheet exports extract =>
    let sheetText := encodeUtf8 (group.conversion scan).sheet
    let extractText := encodeUtf8 (group.conversion scan).extract.render
    have hne : place ≠ location := target_json_ne sheet extract
    -- the sheet is written again beside the extract, and then the extract is
    have hsheet := (holds_put sheet sheetText).put (node?_of_target extract).2 hne.symm extractText
    have hextract := (holds_put extract extractText).put (node?_of_target hsheet.target).2 hne sheetText
    exact (Converts.exported ((hscan _).trans scanned) hsheet.target exports hextract.target).repeats rfl
      ((alike_put hextract.node).trans (alike_put hsheet.node))

/-! ## All groups -/

theorem Independent.congr {other : FileTree} (h : Independent options tree groups)
    (hcurrent : other.current = tree.current) : Independent options other groups := by
  refine ⟨h.below, h.apart.imp fun {group second} hapart => ⟨?_, ?_⟩⟩
  · rw [places_of_current hcurrent, places_congr hcurrent]
    exact hapart.clear
  · rw [places_of_current hcurrent, places_congr hcurrent]
    exact hapart.cleared

section Settled

variable {settled other : List Nat} {progress again : Progress} {place : Nat}

/-- Once a run has converted a group, the group finds its paths as it has left them itself. -/
theorem Settled.agreeOn_alone (h : Settled options tree groups settled progress)
    (hindependent : Independent options tree groups) (hplace : place ∈ settled)
    (hgroup : groups[place]? = some group) :
    AgreeOn (group.paths options) progress.tree (group.convert options tree).tree := by
  have hconverts := converts options tree group
  refine ⟨h.current.trans hconverts.current.symm, fun target htarget location hway => ?_⟩
  rw [places_congr h.current] at htarget
  by_cases hmem : location ∈ group.places options tree
  · exact h.written hplace hgroup location hmem
  · refine (h.kept fun second hsecond member hmember hwritten => ?_).trans (hconverts.node?_eq hmem).symm
    by_cases heq : second = place
    · subst heq
      cases hgroup.symm.trans hmember
      exact hmem hwritten
    · exact (hindependent.apart_of_ne hmember hgroup heq).clear location hwritten target htarget hway

/-- A group that has been converted comes out the same again, and leaves its outputs as they are. -/
theorem Settled.repeats (h : Settled options tree groups settled progress)
    (hindependent : Independent options tree groups)
    (hkeeps : ∀ group ∈ groups, KeepsInputs options tree group) (hplace : place ∈ settled)
    (hgroup : groups[place]? = some group) :
    (group.convert options progress.tree).result = (group.convert options tree).result ∧
      ∀ location ∈ group.places options tree,
        (group.convert options progress.tree).tree.node? location = progress.tree.node? location := by
  have hmember := List.mem_of_getElem? hgroup
  have hbelow := hindependent.below group hmember
  have hrepeats := repeats_convert hbelow (hkeeps group hmember)
  have hafter := convert_congr (h.agreeOn_alone hindependent hplace hgroup) hbelow
  refine ⟨hafter.result.trans hrepeats.result, fun location hlocation => ?_⟩
  have hcurrent := (converts options progress.tree group).current.trans h.current
  have hnode := hafter.tree.node location
    (places_congr hcurrent (group.paths options) ▸ places_subset tree hlocation) location List.prefix_rfl
  exact (hnode.trans (hrepeats.tree.node location)).trans (h.written hplace hgroup location hlocation).symm

theorem Settled.run_again (h : Settled options tree groups settled progress)
    (h' : Settled options progress.tree groups other again)
    (hindependent : Independent options tree groups)
    (hkeeps : ∀ group ∈ groups, KeepsInputs options tree group)
    (hall : ∀ place < groups.length, place ∈ settled) (hall' : ∀ place < groups.length, place ∈ other) :
    again.results = progress.results ∧ again.tree.Alike progress.tree := by
  have hrepeats : ∀ {place group}, groups[place]? = some group → _ := fun {place _} hgroup =>
    h.repeats hindependent hkeeps (hall place (List.getElem?_eq_some_iff.mp hgroup).1) hgroup
  refine ⟨?_, h'.current, fun location => ?_⟩
  · rw [h'.results_eq hall', h.results_eq hall]
    refine List.map_congr_left fun group hmem => ?_
    obtain ⟨place, hgroup⟩ := List.mem_iff_getElem?.mp hmem
    rw [(hrepeats hgroup).1]
  · by_cases hwritten : ∃ place ∈ other, ∃ group, groups[place]? = some group ∧
        location ∈ group.places options progress.tree
    · obtain ⟨place, hplace, group, hgroup, hmem⟩ := hwritten
      exact (h'.written hplace hgroup location hmem).trans
        ((hrepeats hgroup).2 location (places_of_current h.current group ▸ hmem))
    · simp only [not_exists, not_and] at hwritten
      exact h'.kept hwritten

end Settled

/-- Independent groups that write to none of their inputs have the same results when they are converted
again, and leave every file as it is. The orders in which they are converted make no difference. -/
theorem convertAll_again (hindependent : Independent options tree groups)
    (hkeeps : ∀ group ∈ groups, KeepsInputs options tree group) :
    let outcomes := convertAll options tree groups
    let left := finalTree tree outcomes
    let again := convertAll options left groups
    again.map Outcome.result = outcomes.map Outcome.result ∧ (finalTree left again).Alike left ∧
      ∀ {order other : List Nat}, order.Perm (List.range groups.length) →
        other.Perm (List.range groups.length) →
          let first := convertInOrder options tree groups order
          let second := convertInOrder options first.tree groups other
          second.results = first.results ∧ second.tree.Alike first.tree := by
  intro outcomes left again
  have hruns : ∀ {order other : List Nat}, order.Perm (List.range groups.length) →
      other.Perm (List.range groups.length) →
        let first := convertInOrder options tree groups order
        let second := convertInOrder options first.tree groups other
        second.results = first.results ∧ second.tree.Alike first.tree := by
    intro order other horder hother first second
    have hfirst := settled_of_perm hindependent horder
    have hsecond := settled_of_perm (hindependent.congr hfirst.current) hother
    exact hfirst.run_again hsecond hindependent hkeeps (fun _ => horder.mem_iff.mpr ∘ List.mem_range.mpr)
      (fun _ => hother.mem_iff.mpr ∘ List.mem_range.mpr)
  have hall := hruns (.refl _) (.refl _)
  simp only [convertInOrder_range] at hall
  exact ⟨(List.map_inj_right fun _ _ => Option.some.inj).mp hall.1, hall.2, hruns⟩

/-- A group that fails at its extract has left its sheet, and fails there again. -/
theorem convertAll_again_of_failure :
    let tree : FileTree :=
      ⟨[(["a.h".toList], .file (encodeUtf8 "struct A \x7b\nint a;\nb;\n\x7d;\n".toList)),
        (["b.csv.json".toList], .directory)], []⟩
    let groups : List Group :=
      ["a.csv", "b.csv"].map fun output => ⟨"G".toList, [], output.toList, ["a.h".toList, "none.h".toList]⟩
    let options : Options := { exportJson := true }
    let outcomes := convertAll options tree groups
    let left := finalTree tree outcomes
    let again := convertAll options left groups
    left.pathExists "b.csv".toList = true ∧
      outcomes.map (·.result.isOk) = [true, false] ∧
      again.map Outcome.result = outcomes.map Outcome.result ∧ (finalTree left again).Alike left := by
  intro tree groups options outcomes left again
  have hindependent : Independent options tree groups := ⟨by decide +kernel, by decide +kernel⟩
  obtain ⟨hresults, halike, -⟩ := convertAll_again hindependent (by decide +kernel)
  exact ⟨by decide +kernel, by decide +kernel, hresults, halike⟩

end StructTables.Group

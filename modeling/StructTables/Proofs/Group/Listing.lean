import Mathlib.Data.List.Forall2
import StructTables.Group
import StructTables.Proofs.Text.Trim

/-! # Lists of groups

Which lists of groups are understood, what groups they list, and what is reported of one that is not.
Groups that are written with one on a line are read back from that. -/

namespace StructTables.Group
open Text

/-! ## Fields -/

/-- Fields that make up a group: a name, a kind, an output and at least one input, none of them
empty. -/
def AreComplete (fields : List Text) : Prop := 4 ≤ fields.length ∧ [] ∉ fields

instance (fields : List Text) : Decidable (AreComplete fields) := inferInstanceAs (Decidable (_ ∧ _))

/-- The group is the one with the given fields. Its output is below the directory. -/
def HasFields (directory : Text) (fields : List Text) (group : Group) : Prop :=
  ∃ output, fields = group.name :: group.kind :: output :: group.inputs ∧
    group.output = Path.below directory output

/-- What is wrong with fields that make up no group. That there are too few is told ahead of empty
ones, and of these the first is told. -/
inductive HasFault (fields : List Text) : GroupFault → Prop
  | tooFewFields (few : fields.length < 4) : HasFault fields (.tooFewFields fields.length)
  | emptyField {before after : List Text} (enough : 4 ≤ fields.length)
      (split : fields = before ++ [] :: after) (first : [] ∉ before) :
      HasFault fields (.emptyField (before.length + 1))

theorem emptyField?_eq_none {fields : List Text} (h : [] ∉ fields) (number : Nat) :
    emptyField? number fields = none := by
  induction fields generalizing number with
  | nil => rfl
  | cons field more ih =>
    obtain ⟨hfield, hmore⟩ := List.ne_and_not_mem_of_not_mem_cons h
    simp [emptyField?, hfield.symm, ih hmore]

theorem emptyField?_append {before : List Text} (h : [] ∉ before) (after : List Text)
    (number : Nat) : emptyField? number (before ++ [] :: after) = some (before.length + number) := by
  induction before generalizing number with
  | nil => simp [emptyField?]
  | cons field more ih =>
    obtain ⟨hfield, hmore⟩ := List.ne_and_not_mem_of_not_mem_cons h
    simp [emptyField?, hfield.symm, ih hmore, Nat.add_right_comm, Nat.add_assoc]

theorem exists_ofFields_ok {fields : List Text} (h : AreComplete fields) (directory : Text) :
    ∃ group, ofFields directory fields = .ok group ∧ HasFields directory fields group := by
  obtain ⟨hcount, hfilled⟩ := h
  match fields with
  | name :: kind :: output :: input :: inputs =>
    refine ⟨⟨name, kind, Path.below directory output, input :: inputs⟩, ?_, output, rfl, rfl⟩
    rw [ofFields, emptyField?_eq_none hfilled]
  | [] | [_] | [_, _] | [_, _, _] => simp at hcount

theorem exists_ofFields_error {fields : List Text} (h : ¬ AreComplete fields) (directory : Text) :
    ∃ fault, ofFields directory fields = .error fault ∧ HasFault fields fault := by
  match fields with
  | name :: kind :: output :: input :: inputs =>
    have hempty : [] ∈ name :: kind :: output :: input :: inputs := by
      by_contra hfilled
      exact h ⟨by simp, hfilled⟩
    obtain ⟨before, after, hsplit, hfirst⟩ := List.eq_append_cons_of_mem hempty
    refine ⟨_, ?_, .emptyField (by simp) hsplit hfirst⟩
    have hnumber := emptyField?_append hfirst after 1
    rw [← hsplit] at hnumber
    rw [ofFields, hnumber]
  | [] | [_] | [_, _] | [_, _, _] => exact ⟨_, rfl, .tooFewFields (by simp)⟩

/-! ## Lines -/

/-- Whether the line has to describe a group: it is neither blank nor a comment. -/
def isEntry (line : Text) : Bool := !(trim line).isEmpty && !startsWith (trim line) ['#']

/-- The fields of a line, without the blanks around them. -/
def fieldsOf (line : Text) : List Text := (splitOn ',' line).map trim

/-- A line that has to describe a group and does not. -/
def IsMalformed (line : Text) : Prop := isEntry line = true ∧ ¬ AreComplete (fieldsOf line)

instance (line : Text) : Decidable (IsMalformed line) := inferInstanceAs (Decidable (_ ∧ _))

theorem ofLine_of_isEntry {line : Text} (h : isEntry line = true) (directory : Text) :
    ofLine directory line = (ofFields directory (fieldsOf line)).map some := by
  have hentry : ¬ ((trim line).isEmpty || startsWith (trim line) ['#']) = true := by
    simpa [isEntry] using h
  rw [fieldsOf, ← map_trim_splitOn_trim (show isBlank ',' = false from rfl)]
  exact if_neg hentry

theorem ofLine_of_not_isEntry {line : Text} (h : isEntry line = false) (directory : Text) :
    ofLine directory line = .ok none := by
  have hskipped : ((trim line).isEmpty || startsWith (trim line) ['#']) = true := by
    simpa [isEntry, or_iff_not_imp_left] using h
  exact if_pos hskipped

section Lines

variable (source directory : Text)

/-- Whether the groups are those that the lines describe, in order. -/
def Describe (ls : List Text) (groups : List Group) : Prop :=
  List.Forall₂ (fun line => HasFields directory (fieldsOf line)) (ls.filter isEntry) groups

theorem exists_ofLine_ok {line : Text} (h : ¬ IsMalformed line) :
    ∃ group?, ofLine directory line = .ok group? ∧ Describe directory [line] group?.toList := by
  cases hentry : isEntry line with
  | true =>
    have hcomplete : AreComplete (fieldsOf line) := by
      by_contra hfault
      exact h ⟨hentry, hfault⟩
    obtain ⟨group, hgroup, hhas⟩ := exists_ofFields_ok hcomplete directory
    refine ⟨some group, by rw [ofLine_of_isEntry hentry, hgroup]; rfl, ?_⟩
    rw [Describe, List.filter_cons_of_pos hentry]
    exact .cons hhas .nil
  | false =>
    refine ⟨none, ofLine_of_not_isEntry hentry directory, ?_⟩
    rw [Describe, List.filter_cons_of_neg (by simp [hentry])]
    exact .nil

theorem exists_ofLine_error {line : Text} (h : IsMalformed line) :
    ∃ fault, ofLine directory line = .error fault ∧ HasFault (fieldsOf line) fault := by
  obtain ⟨fault, hfault, hhas⟩ := exists_ofFields_error h.2 directory
  exact ⟨fault, by rw [ofLine_of_isEntry h.1, hfault]; rfl, hhas⟩

/-! ## Lists -/

/-- Without a malformed line there is a group for each line that has to describe one. -/
theorem exists_ofLines_ok {ls : List Text} (h : ∀ line ∈ ls, ¬ IsMalformed line) (number : Nat) :
    ∃ groups, ofLines source directory number ls = .ok groups ∧ Describe directory ls groups := by
  induction ls generalizing number with
  | nil => exact ⟨[], rfl, .nil⟩
  | cons line more ih =>
    obtain ⟨hline, hmore⟩ := List.forall_mem_cons.mp h
    obtain ⟨group?, hgroup, hfirst⟩ := exists_ofLine_ok directory hline
    obtain ⟨groups, hgroups, hrest⟩ := ih hmore (number + 1)
    refine ⟨group?.toList ++ groups, by simp [ofLines, hgroup, hgroups, Except.map], ?_⟩
    rw [Describe, ← List.singleton_append, List.filter_append]
    exact List.rel_append hfirst hrest

/-- The first malformed line is reported by its number, whatever stands below. -/
theorem exists_ofLines_error {above : List Text} (habove : ∀ line ∈ above, ¬ IsMalformed line)
    {line : Text} (h : IsMalformed line) (below : List Text) (number : Nat) :
    ∃ fault, ofLines source directory number (above ++ line :: below) =
      .error (.listing source (above.length + number) fault) ∧ HasFault (fieldsOf line) fault := by
  induction above generalizing number with
  | nil =>
    obtain ⟨fault, hfault, hhas⟩ := exists_ofLine_error directory h
    exact ⟨fault, by simp [ofLines, hfault], hhas⟩
  | cons first above ih =>
    obtain ⟨hfirst, habove⟩ := List.forall_mem_cons.mp habove
    obtain ⟨group?, hgroup, -⟩ := exists_ofLine_ok directory hfirst
    obtain ⟨fault, hfault, hhas⟩ := ih habove (number + 1)
    refine ⟨fault, ?_, hhas⟩
    simp [ofLines, hgroup, hfault, Except.map, Nat.add_right_comm, Nat.add_assoc]

variable {content : Text}

theorem exists_ofListing_ok (h : ∀ line ∈ lines content, ¬ IsMalformed line) :
    ∃ groups, ofListing source directory content = .ok groups ∧
      Describe directory (lines content) groups :=
  exists_ofLines_ok source directory h 1

/-- The first malformed line is the one that is reported. -/
theorem exists_ofListing_error (h : ∃ line ∈ lines content, IsMalformed line) :
    ∃ above line below fault, lines content = above ++ line :: below ∧
      (∀ earlier ∈ above, ¬ IsMalformed earlier) ∧ IsMalformed line ∧
      HasFault (fieldsOf line) fault ∧
      ofListing source directory content = .error (.listing source (above.length + 1) fault) := by
  obtain ⟨first, hfirst⟩ := Option.isSome_iff_exists.mp
    (List.find?_isSome (p := fun line => decide (IsMalformed line)).mpr (by simpa using h))
  obtain ⟨hmalformed, above, below, hlines, habove⟩ := List.find?_eq_some_iff_append.mp hfirst
  have hearlier : ∀ earlier ∈ above, ¬ IsMalformed earlier := by simpa using habove
  obtain ⟨fault, hfault, hhas⟩ := exists_ofLines_error source directory hearlier
    (of_decide_eq_true hmalformed) below 1
  exact ⟨above, first, below, fault, hlines, hearlier, of_decide_eq_true hmalformed, hhas,
    by rw [ofListing, hlines, hfault]⟩

theorem exists_ofListing_ok_iff :
    (∃ groups, ofListing source directory content = .ok groups) ↔
      ∀ line ∈ lines content, ¬ IsMalformed line := by
  refine ⟨fun ⟨groups, hok⟩ line hline hmalformed => ?_, fun h => ?_⟩
  · obtain ⟨above, _, _, fault, -, -, -, -, herror⟩ :=
      exists_ofListing_error source directory ⟨line, hline, hmalformed⟩
    rw [hok] at herror
    cases herror
  · obtain ⟨groups, hok, -⟩ := exists_ofListing_ok source directory h
    exact ⟨groups, hok⟩

end Lines

/-! ## Writing lists of groups -/

def fields (group : Group) : List Text := group.name :: group.kind :: group.output :: group.inputs

/-- The line that describes a group. -/
def line (group : Group) : Text := join [',', ' '] group.fields

/-- The list of groups with one on a line. -/
def listing (groups : List Group) : Text := groups.flatMap fun group => group.line ++ ['\n']

/-- A group that can be described on a line: nothing of it is missing, and its texts can be told from
what stands around them. -/
structure IsListable (group : Group) : Prop where
  inputs : group.inputs ≠ []
  filled : [] ∉ group.fields
  trimmed : ∀ field ∈ group.fields, trim field = field
  uncut : ∀ field ∈ group.fields, ',' ∉ field ∧ '\n' ∉ field
  uncommented : startsWith group.name ['#'] = false

section Listable

variable {group : Group}

theorem newline_not_mem_line (h : group.IsListable) : '\n' ∉ group.line := by
  intro hmem
  rcases mem_of_mem_join hmem with hmark | ⟨field, hfield, hmem⟩
  · exact absurd hmark (by decide)
  · exact (h.uncut field hfield).2 hmem

theorem isEntry_line (h : group.IsListable) : isEntry group.line = true := by
  have hname : group.name ∈ group.fields := List.mem_cons_self
  obtain ⟨c, r, hcons⟩ : ∃ c r, group.name = c :: r :=
    List.exists_cons_of_ne_nil fun hnil => h.filled (hnil ▸ hname)
  have hc : isBlank c = false := isBlank_head?_trim (t := group.name) (by
    rw [h.trimmed group.name hname, hcons]
    rfl)
  obtain ⟨tail, hline⟩ : ∃ tail, group.line = c :: tail := by
    rw [line, fields, join_cons, hcons]
    exact ⟨_, rfl⟩
  obtain ⟨s, htrim⟩ := exists_trim_cons hc tail
  have hplain : ('#' == c) = false := by
    simpa [hcons, startsWith, List.isPrefixOf] using h.uncommented
  simp [isEntry, hline, htrim, startsWith, List.isPrefixOf, hplain]

theorem fieldsOf_line (h : group.IsListable) : fieldsOf group.line = group.fields := by
  have hline : group.line =
      join [','] (group.name :: (group.kind :: group.output :: group.inputs).map (' ' :: ·)) := by
    rw [line, fields, join_cons, join_cons, List.flatMap_map]
    rfl
  obtain ⟨hname, hmore⟩ := List.forall_mem_cons.mp h.uncut
  obtain ⟨htrim, htrims⟩ := List.forall_mem_cons.mp h.trimmed
  rw [fieldsOf, hline, splitOn_join, List.map_cons, htrim, List.map_map]
  · refine congrArg (group.name :: ·) ((List.map_congr_left fun field hfield => ?_).trans
      (List.map_id _))
    rw [Function.comp_apply, trim_cons_of_isBlank rfl, htrims field hfield, id]
  · refine List.forall_mem_cons.mpr ⟨hname.1, fun piece hpiece => ?_⟩
    obtain ⟨field, hfield, rfl⟩ := List.mem_map.mp hpiece
    simpa using (hmore field hfield).1

theorem areComplete_fields (h : group.IsListable) : AreComplete group.fields := by
  refine ⟨?_, h.filled⟩
  have hinputs := List.length_pos_iff.mpr h.inputs
  simp only [fields, List.length_cons]
  omega

theorem below_nil (path : Text) : Path.below [] path = path := by
  simp [Path.below]

theorem HasFields.eq_of_fields {other : Group} (h : HasFields [] group.fields other) :
    other = group := by
  obtain ⟨output, hfields, houtput⟩ := h
  rw [below_nil] at houtput
  cases group
  cases other
  simp_all [fields]

end Listable

theorem lines_listing {groups : List Group} (h : ∀ group ∈ groups, group.IsListable) :
    lines (listing groups) = groups.map line := by
  have hlisting : listing groups = (groups.map line).flatMap (· ++ ['\n']) := by
    rw [List.flatMap_map, listing]
  rw [hlisting]
  refine lines_flatMap_newline fun row hrow => ?_
  obtain ⟨group, hgroup, rfl⟩ := List.mem_map.mp hrow
  exact newline_not_mem_line (h group hgroup)

theorem eq_of_describe {groups : List Group} (h : ∀ group ∈ groups, group.IsListable)
    {others : List Group} (hdescribe : Describe [] (groups.map line) others) : others = groups := by
  induction groups generalizing others with
  | nil => exact List.forall₂_nil_left_iff.mp hdescribe
  | cons group more ih =>
    obtain ⟨hgroup, hmore⟩ := List.forall_mem_cons.mp h
    rw [Describe, List.map_cons, List.filter_cons_of_pos (isEntry_line hgroup)] at hdescribe
    obtain ⟨other, rest, hother, hrest, rfl⟩ := List.forall₂_cons_left_iff.mp hdescribe
    rw [fieldsOf_line hgroup] at hother
    rw [hother.eq_of_fields, ih hmore hrest]

theorem ofListing_listing (source : Text) {groups : List Group}
    (h : ∀ group ∈ groups, group.IsListable) :
    ofListing source [] (listing groups) = .ok groups := by
  have hlines := lines_listing h
  have hfine : ∀ row ∈ lines (listing groups), ¬ IsMalformed row := by
    rw [hlines]
    rintro row hrow ⟨-, hfault⟩
    obtain ⟨group, hgroup, rfl⟩ := List.mem_map.mp hrow
    rw [fieldsOf_line (h group hgroup)] at hfault
    exact hfault (areComplete_fields (h group hgroup))
  obtain ⟨others, hothers, hdescribe⟩ := exists_ofListing_ok source [] hfine
  rw [hlines] at hdescribe
  rw [hothers, eq_of_describe h hdescribe]

/-- A list of groups is understood exactly if no line of it is malformed, and then there is one group
for each line that has to describe one. Of the malformed lines the first is reported. Groups that are
written with one on a line are read back. -/
theorem ofListing_grammar (source directory content : Text) :
    ((∃ groups, ofListing source directory content = .ok groups) ↔
        ∀ line ∈ lines content, ¬ IsMalformed line) ∧
      (∀ groups, ofListing source directory content = .ok groups →
        List.Forall₂ (fun line => HasFields directory (fieldsOf line))
          ((lines content).filter isEntry) groups) ∧
      (∀ e, ofListing source directory content = .error e →
        ∃ above line below fault, lines content = above ++ line :: below ∧
          (∀ earlier ∈ above, ¬ IsMalformed earlier) ∧ IsMalformed line ∧
          HasFault (fieldsOf line) fault ∧ e = .listing source (above.length + 1) fault) ∧
      ∀ groups : List Group, (∀ group ∈ groups, group.IsListable) →
        ofListing source [] (listing groups) = .ok groups := by
  have hiff : (∃ groups, ofListing source directory content = .ok groups) ↔
      ∀ line ∈ lines content, ¬ IsMalformed line := exists_ofListing_ok_iff source directory
  refine ⟨hiff, fun groups hok => ?_, fun e herror => ?_, fun groups => ofListing_listing source⟩
  · obtain ⟨others, hothers, hdescribe⟩ :=
      exists_ofListing_ok source directory (hiff.mp ⟨groups, hok⟩)
    rw [hok] at hothers
    exact Except.ok.inj hothers ▸ hdescribe
  · have hmalformed : ∃ line ∈ lines content, IsMalformed line := by
      by_contra hnone
      obtain ⟨groups, hok⟩ := hiff.mpr fun line hline hfault => hnone ⟨line, hline, hfault⟩
      rw [hok] at herror
      cases herror
    obtain ⟨above, line, below, fault, hlines, hearlier, hline, hhas, hfirst⟩ :=
      exists_ofListing_error source directory hmalformed
    rw [hfirst] at herror
    exact ⟨above, line, below, fault, hlines, hearlier, hline, hhas, (Except.error.inj herror).symm⟩

/-- A name may have blanks and a number sign within. -/
theorem ofListing_of_two_groups :
    let groups : List Group :=
      [⟨"HK # 1".toList, "telemetry".toList, "hk.csv".toList, ["a.h".toList, "b.h".toList]⟩,
        ⟨"CMD".toList, "command".toList, "/out/cmd.csv".toList, ["c.h".toList]⟩]
    (∀ group ∈ groups, group.IsListable) ∧
      ofListing "paths".toList [] (listing groups) = .ok groups := by
  intro groups
  have h : ∀ group ∈ groups, group.IsListable := by
    refine List.forall_mem_cons.mpr ⟨?_, List.forall_mem_singleton.mpr ?_⟩ <;>
      constructor <;> decide
  exact ⟨h, (ofListing_grammar "paths".toList [] []).2.2.2 groups h⟩

end StructTables.Group

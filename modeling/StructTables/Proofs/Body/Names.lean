import StructTables.Proofs.Body.Assembly

/-! # Names of members

A declarator without a name is reported and no variable, and a variable whose name is taken is dropped.
So every member has a name, and a name of its own. -/

namespace StructTables
open Text

/-- A structure as a scan may find it. Only the name of a typedef has been looked at closely: that of a
`struct` may have letters in it that are no letters of C. -/
structure Structure.WellFormed (s : Structure) : Prop where
  name : s.name ≠ []
  identifier : s.form = .typedef → Macro.isIdentifier s.name = true
  named : ∀ m ∈ s.members, m.name ≠ []
  distinct : (s.members.map Member.name).Nodup

namespace Body
open Declaration

/-! ## Entries -/

def Entry.isNamed : Entry → Prop
  | .variable _ declarator _ => declarator.name ≠ []
  | .remark _ | .invalid _ => True

theorem isNamed_entryOf (dataType description source : Text) (declarator : Declarator) :
    (entryOf dataType description source declarator).isNamed := by
  unfold entryOf
  by_cases h : declarator.name = []
  · rw [if_pos (List.isEmpty_iff.mpr h)]
    trivial
  · rw [if_neg (mt List.isEmpty_iff.mp h)]
    exact h

theorem isNamed_readStatement (context : Context) (statement : Statement) (comment : Text) :
    ∀ entry ∈ (readStatement context statement comment).entries, entry.isNamed := by
  unfold readStatement
  dsimp only
  split
  · exact List.forall_mem_nil _
  · split
    · exact List.forall_mem_nil _
    · split
      case h_1 => exact List.forall_mem_singleton.mpr trivial
      case h_2 dataType names _ =>
        intro entry he
        obtain ⟨declarator, -, rfl⟩ := List.mem_map.mp he
        exact isNamed_entryOf _ _ _ _

theorem isNamed_readStatements (context : Context) (below : List Text) (statements : List Statement) :
    ∀ entry ∈ (readStatements context below statements).entries, entry.isNamed := by
  induction statements generalizing context with
  | nil => exact List.forall_mem_nil _
  | cons statement more ih =>
    have hfirst := isNamed_readStatement context statement (Comment.read statement.comment below).text
    unfold readStatements
    dsimp only
    split
    · exact List.forall_mem_append.mpr ⟨hfirst, ih _⟩
    · exact hfirst

theorem isNamed_readLine (context : Context) (line : Text) (below : List Text) :
    ∀ entry ∈ (readLine context line below).entries, entry.isNamed := by
  unfold readLine
  dsimp only
  split
  · exact List.forall_mem_singleton.mpr trivial
  · split
    · exact List.forall_mem_nil _
    · exact isNamed_readStatements _ _ _

theorem isNamed_readFrom (context : Context) (skip : Nat) (lines : List Text) :
    ∀ entry ∈ readFrom context skip lines, entry.isNamed := by
  induction lines generalizing context skip with
  | nil => exact List.forall_mem_nil _
  | cons line below ih =>
    match skip with
    | k + 1 => exact ih context k
    | 0 => exact List.forall_mem_append.mpr ⟨isNamed_readLine context line below, ih _ _⟩

/-! ## Members -/

/-- The names of the members that a structure has once those of an assembly are added. -/
def Assembly.names (owner : Structure) (assembly : Assembly) : List Text :=
  owner.members.map Member.name ++ assembly.added.map Member.name

theorem Assembly.contains_iff {owner : Structure} {assembly : Assembly} {name : Text} :
    assembly.contains owner name = true ↔ name ∈ assembly.names owner := by
  simp [Assembly.contains, Structure.contains, Assembly.names]

/-- An assembly that has added members with names, each a name of its own that was not taken. -/
structure Assembly.Fresh (owner : Structure) (assembly : Assembly) : Prop where
  named : [] ∉ assembly.added.map Member.name
  untaken : ∀ name ∈ assembly.added.map Member.name, owner.contains name = false
  distinct : (assembly.added.map Member.name).Nodup

theorem Assembly.Fresh.add {owner : Structure} {assembly : Assembly} (h : assembly.Fresh owner)
    {entry : Entry} (hentry : entry.isNamed) : (assembly.add owner entry).Fresh owner := by
  match entry with
  | .invalid source => exact ⟨h.named, h.untaken, h.distinct⟩
  | .remark text =>
    have hnames : (assembly.add owner (.remark text)).added.map Member.name =
        assembly.added.map Member.name := map_describeLast (fun _ => rfl) text assembly.added
    exact ⟨hnames ▸ h.named, hnames ▸ h.untaken, hnames ▸ h.distinct⟩
  | .variable dataType declarator description =>
    by_cases hdup : assembly.contains owner declarator.name = true
    · rw [add_duplicate hdup]
      exact ⟨h.named, h.untaken, h.distinct⟩
    · have hnew : declarator.name ∉ assembly.names owner := mt Assembly.contains_iff.mpr hdup
      have howner : declarator.name ∉ owner.members.map Member.name := fun hmem =>
        hnew (List.mem_append_left _ hmem)
      have hnames : (assembly.add owner (.variable dataType declarator description)).added.map
          Member.name = assembly.added.map Member.name ++ [declarator.name] := by
        rw [add_variable (Bool.eq_false_iff.mpr hdup)]
        simp [memberOf]
      refine ⟨?_, ?_, ?_⟩ <;> rw [hnames]
      · exact List.not_mem_append h.named fun hmem => hentry (List.mem_singleton.mp hmem).symm
      · refine List.forall_mem_append.mpr ⟨h.untaken, List.forall_mem_singleton.mpr ?_⟩
        simpa [Structure.contains] using howner
      · refine List.nodup_append.mpr ⟨h.distinct, by simp, ?_⟩
        intro n hn m hm heq
        rw [heq, List.mem_singleton.mp hm] at hn
        exact hnew (List.mem_append_right _ hn)

theorem Assembly.Fresh.foldl {owner : Structure} {assembly : Assembly} (h : assembly.Fresh owner)
    {entries : List Entry} (hentries : ∀ entry ∈ entries, entry.isNamed) :
    (entries.foldl (Assembly.add owner) assembly).Fresh owner :=
  List.foldlRecOn _ _ h fun _ ha entry he => ha.add (hentries entry he)

end Body

/-- A body leaves a structure well-formed. -/
theorem Structure.WellFormed.addBody {s : Structure} (h : s.WellFormed)
    (collector : Macro.Collector) (body : List Text) : (s.addBody collector body).1.WellFormed := by
  have hstart : ({ collector := collector } : Body.Assembly).Fresh s :=
    ⟨List.not_mem_nil, List.forall_mem_nil _, List.nodup_nil⟩
  obtain ⟨hnamed, huntaken, hdistinct⟩ := hstart.foldl (Body.isNamed_readFrom {} 0 body)
  refine ⟨h.name, h.identifier, ?_, ?_⟩
  · refine List.forall_mem_append.mpr ⟨h.named, fun m hm hname => hnamed ?_⟩
    exact List.mem_map.mpr ⟨m, hm, hname⟩
  · rw [Structure.addBody, List.map_append]
    refine List.nodup_append.mpr ⟨h.distinct, hdistinct, fun name hold other hnew heq => ?_⟩
    have hcontains := huntaken other hnew
    obtain ⟨m, hm, rfl⟩ := List.mem_map.mp hold
    have hself : s.contains m.name = true := List.any_eq_true.mpr ⟨m, hm, beq_self_eq_true _⟩
    rw [heq, hcontains] at hself
    cases hself

end StructTables

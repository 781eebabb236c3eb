import StructTables.Proofs.Body.Names
import StructTables.Proofs.Macro.Lookup
import StructTables.Proofs.Scan.Collecting

/-! # Calls

A scan is fed whole sources, lines or warnings, in any order and as often as one likes. Whatever they
are, the structures that it holds are well-formed, its macros have names of their own, and it takes
nothing back that it has found. -/

namespace StructTables
open Text Macro

/-- What a scan may be given. -/
inductive Call where
  | source (content : Text)
  | lines (lines : List Text)
  | warning (warning : Warning)
  deriving DecidableEq

/-- Collecting and capturing do nothing to a table but register macros in it. -/
theorem kept_registerEach (table : Table) :
    Kept fun collector _ => ∃ macros, collector.table = table.registerEach macros where
  collect := fun h size => Collector.exists_registerEach_collect h size
  define := by
    intro collector _ h _ name value _
    rwa [Collector.table_define]

namespace Scan

def perform (scan : Scan) : Call → Scan
  | .source content => scan.addSource content
  | .lines lines => scan.addLines lines
  | .warning warning => scan.warn warning

def afterCalls (group : Text) (options : Options) (calls : List Call) : Scan :=
  calls.foldl perform (start group options)

theorem perform_cases (scan : Scan) (call : Call) :
    (∃ lines, scan.perform call = scan.addLines lines) ∨
      ∃ warning, scan.perform call = scan.warn warning := by
  cases call with
  | source content => exact .inl ⟨_, rfl⟩
  | lines lines => exact .inl ⟨lines, rfl⟩
  | warning warning => exact .inr ⟨warning, rfl⟩

/-! ## What a scan holds -/

/-- A scan with well-formed structures, whose table has come about by registering. -/
structure WellFormed (scan : Scan) : Prop where
  structures : ∀ s ∈ scan.structures, s.WellFormed
  table : ∃ macros, scan.table = Table.registerEach {} macros

/-- The name that a structure is closed with is an identifier if it is that of a typedef. -/
theorem wellFormed_named {opening : Outline.Opening} {closing : Text}
    (h : (closedName opening closing).isEmpty = false) :
    Structure.WellFormed { name := closedName opening closing, form := opening.form } := by
  have hname : closedName opening closing ≠ [] := by simpa using h
  refine ⟨hname, fun hform => ?_, List.forall_mem_nil _, List.nodup_nil⟩
  unfold closedName Outline.typedefName at hname ⊢
  simp only [show opening.form = .typedef from hform] at hname ⊢
  split at hname
  case isTrue hidentifier => rwa [if_pos hidentifier]
  case isFalse => exact absurd rfl hname

theorem registerEach_addRegion {scan : Scan} {first : Table}
    (h : ∃ macros, scan.table = first.registerEach macros) (region : Outline.Region) :
    ∃ macros, (scan.addRegion region).table = first.registerEach macros :=
  @Kept.addRegion _ [] (kept_registerEach first) scan h region

theorem WellFormed.addRegion {scan : Scan} (h : scan.WellFormed) (region : Outline.Region) :
    (scan.addRegion region).WellFormed := by
  refine ⟨?_, registerEach_addRegion h.table region⟩
  rcases structures_addRegion scan region with heq | ⟨opening, body, closing, rfl, hname, heq⟩
  · exact heq ▸ h.structures
  · rw [heq]
    exact List.forall_mem_append.mpr
      ⟨h.structures, List.forall_mem_singleton.mpr ((wellFormed_named hname).addBody _ body)⟩

theorem WellFormed.perform {scan : Scan} (h : scan.WellFormed) (call : Call) :
    (scan.perform call).WellFormed := by
  rcases perform_cases scan call with ⟨lines, heq⟩ | ⟨warning, heq⟩ <;> rw [heq]
  · exact addLines_keeps WellFormed.addRegion h lines
  · exact ⟨h.structures, h.table⟩

theorem wellFormed_afterCalls (group : Text) (options : Options) (calls : List Call) :
    (afterCalls group options calls).WellFormed := by
  have hstart : (start group options).WellFormed := by
    refine ⟨?_, [], table_start group options⟩
    unfold start
    exact List.forall_mem_nil _
  exact List.foldlRecOn _ _ hstart fun _ hscan call _ => hscan.perform call

/-! ## What a scan takes on -/

/-- All that one scan holds comes first in the other. -/
structure HeldBy (before after : Scan) : Prop where
  structures : before.structures <+: after.structures
  macros : before.table.entries <+: after.table.entries
  warnings : before.warnings <+: after.warnings

theorem HeldBy.refl (scan : Scan) : scan.HeldBy scan :=
  ⟨List.prefix_rfl, List.prefix_rfl, List.prefix_rfl⟩

theorem HeldBy.trans {a b c : Scan} (h : a.HeldBy b) (h' : b.HeldBy c) : a.HeldBy c :=
  ⟨h.structures.trans h'.structures, h.macros.trans h'.macros, h.warnings.trans h'.warnings⟩

theorem heldBy_addRegion (scan : Scan) (region : Outline.Region) :
    scan.HeldBy (scan.addRegion region) := by
  obtain ⟨macros, htable⟩ := registerEach_addRegion ⟨[], rfl⟩ region
  refine ⟨?_, ?_, ?_⟩
  · rw [addRegion_eq]
    exact List.prefix_append _ _
  · rw [htable]
    exact scan.table.entries_prefix_registerEach macros
  · rw [addRegion_eq, warnings_followedBy]
    exact List.prefix_append _ _

theorem heldBy_perform (scan : Scan) (call : Call) : scan.HeldBy (scan.perform call) := by
  rcases perform_cases scan call with ⟨lines, heq⟩ | ⟨warning, heq⟩ <;> rw [heq]
  · exact addLines_keeps (fun h region => h.trans (heldBy_addRegion _ region)) (HeldBy.refl scan) lines
  · refine ⟨List.prefix_rfl, List.prefix_rfl, ?_⟩
    rw [warn, warnings_report]
    exact List.prefix_append _ _

/-- Behind every call the structures are well-formed, and no two macros have the same name. The table has
come about by registering, and whichever macros were registered for it, a set of names that is kept
beside it meanwhile, and asked whether a name is new, has just its names. What was found ahead of the
call is there as it was, ahead of what the call has added. -/
theorem perform_afterCalls (group : Text) (options : Options) (calls : List Call) (call : Call) :
    let before := afterCalls group options calls
    let after := before.perform call
    (∀ s ∈ after.structures, s.WellFormed) ∧
      after.table.names.Nodup ∧
      (∃ macros, after.table = Table.registerEach {} macros) ∧
      (∀ macros, after.table = Table.registerEach {} macros →
        (IndexedTable.registerEach {} macros).Mirrors after.table) ∧
      before.structures <+: after.structures ∧
      before.table.entries <+: after.table.entries ∧
      before.warnings <+: after.warnings := by
  intro before after
  obtain ⟨hstructures, macros, htable⟩ := (wellFormed_afterCalls group options calls).perform call
  obtain ⟨hfound, hmacros, hwarnings⟩ := heldBy_perform before call
  have hempty : ({} : Table).names.Nodup := List.nodup_nil
  have hnodup := Table.nodup_registerEach hempty macros
  have hmirrors : ∀ registered, after.table = Table.registerEach {} registered →
      (IndexedTable.registerEach {} registered).Mirrors after.table := by
    intro registered hregistered
    rw [hregistered]
    exact IndexedTable.mirrors_empty.registerEach registered
  exact ⟨hstructures, htable ▸ hnodup, ⟨macros, htable⟩, hmirrors, hfound, hmacros, hwarnings⟩

end Scan
end StructTables

import StructTables.Proofs.Body.OneLine
import StructTables.Proofs.Scan.Agreement
import StructTables.Proofs.Source

/-! # The texts of a scan

No line feed of a source comes into the structures or the macros of a scan: sources are read by lines,
names of structures and captured definitions are words, and the rest is made of the texts of bodies. -/

namespace StructTables.Outline
open Text

/-! ## Structures -/

theorem oneLine_of_opening? {line : Text} {form : Form} {name : Text}
    (h : opening? line = some (form, name)) : OneLine name := by
  unfold opening? at h
  split at h
  · cases h
    exact oneLine_nil
  · dsimp only at h
    split at h
    · cases h
    · obtain ⟨rest, -, heq⟩ := Option.map_eq_some_iff.mp h
      cases heq
      unfold cutName
      split
      · exact oneLine_nil
      · split
        · exact Macro.not_mem_of_all List.all_takeWhile rfl
        · exact oneLine_nil

theorem oneLine_typedefName (closing : Text) : OneLine (typedefName closing) := by
  unfold typedefName
  dsimp only
  split
  case isTrue hidentifier =>
    obtain ⟨c, r, hname, -, hall⟩ := Macro.exists_of_isIdentifier hidentifier
    exact Macro.not_mem_of_all hall rfl
  case isFalse => exact oneLine_nil

theorem oneLine_brokenLine {line : Text} (h : OneLine line) :
    ∀ part ∈ brokenLine line, OneLine part := by
  have hline : ∀ part ∈ [line], OneLine part := List.forall_mem_singleton.mpr h
  unfold brokenLine
  split
  · exact hline
  · split
    case h_1 => exact hline
    case h_2 before behind hcut =>
      obtain ⟨hbefore, hbehind⟩ := h.cut (eq_of_cutFirst? hcut)
      dsimp only
      split
      · exact hline
      · have hhead : OneLine (trim (before ++ ['{'])) :=
          (oneLine_append.mpr ⟨hbefore, by decide⟩).trim
        split
        case h_1 => exact List.forall_mem_cons.mpr ⟨hhead, List.forall_mem_singleton.mpr hbehind.trim⟩
        case h_2 inside behindClosing hlast =>
          obtain ⟨hinside, hclosing⟩ := hbehind.trim.cut (eq_of_cutLast? hlast)
          have htail : OneLine (trim ('}' :: behindClosing)) :=
            (oneLine_cons.mpr ⟨by decide, hclosing⟩).trim
          split
          · exact List.forall_mem_cons.mpr ⟨hhead, List.forall_mem_singleton.mpr htail⟩
          · exact List.forall_mem_cons.mpr ⟨hhead, List.forall_mem_cons.mpr
              ⟨hinside.trim, List.forall_mem_singleton.mpr htail⟩⟩

end StructTables.Outline

namespace StructTables.Scan
open Text Outline

/-! ## Scans -/

/-- A scan that has found nothing but texts on one line. -/
structure Unbroken (scan : Scan) : Prop where
  collector : scan.collector.Unbroken
  structures : ∀ s ∈ scan.structures, OneLine s.name ∧ ∀ m ∈ s.members, ∀ t ∈ m.texts, OneLine t

variable {scan : Scan}

theorem mem_words_of_definition? {line name value : Text} (h : definition? line = some (name, value)) :
    value ∈ words line := by
  unfold definition? at h
  split at h
  case h_1 keyword n v hwords =>
    split at h
    · cases h
      rw [hwords]
      exact List.mem_cons_of_mem _ (List.mem_cons_of_mem _ List.mem_cons_self)
    · cases h
  case h_2 => cases h

theorem Unbroken.addRegion (h : scan.Unbroken) {lines : List Text}
    (hlines : ∀ line ∈ lines, OneLine line) {region : Region} (hregion : region ∈ regions lines) :
    (scan.addRegion region).Unbroken := by
  cases region with
  | abandoned opening => exact ⟨h.collector, h.structures⟩
  | unclosed opening => exact ⟨h.collector, h.structures⟩
  | outside line =>
    rw [Scan.addRegion]
    rcases addOutside_cases scan line with heq | heq | heq | ⟨name, value, hd, -, heq⟩ <;> rw [heq]
    · exact h
    · exact ⟨h.collector, h.structures⟩
    · exact ⟨h.collector, h.structures⟩
    · have hvalue := oneLine_of_mem_words (mem_words_of_definition? hd)
      exact ⟨h.collector.define name hvalue, h.structures⟩
  | closed opening body closing =>
    obtain ⟨span, hspan, rfl, rfl, hholds⟩ := exists_span hregion
    have hbody : ∀ line ∈ span.body, OneLine line := by
      intro line hline
      have hmem : line ∈ brokenLines lines := by
        rw [← hspan, Span.lines]
        simp [hline]
      obtain ⟨whole, hwhole, hpart⟩ := List.mem_flatMap.mp hmem
      exact oneLine_brokenLine (hlines whole hwhole) line hpart
    have hname : OneLine (closedName opening span.closing) := by
      unfold closedName
      split
      · exact oneLine_of_opening? hholds.opens
      · exact oneLine_typedefName span.closing
    rw [Scan.addRegion]
    cases hnameless : (closedName opening span.closing).isEmpty with
    | true =>
      rw [addClosed_of_nameless hnameless]
      exact ⟨h.collector, h.structures⟩
    | false =>
      rw [addClosed_of_named hnameless]
      have hassembly : (Body.assemble { name := closedName opening span.closing, form := opening.form }
          scan.collector (Body.read span.body)).Unbroken :=
        List.foldlRecOn _ _ ⟨h.collector, List.forall_mem_nil _⟩ fun assembly ha entry he =>
          ha.add (Body.read_oneLine hbody entry he)
      refine ⟨hassembly.collector, List.forall_mem_append.mpr ⟨h.structures, ?_⟩⟩
      exact List.forall_mem_singleton.mpr ⟨hname, hassembly.added⟩

theorem unbroken_start {group : Text} (h : OneLine group) (options : Options) :
    (start group options).Unbroken := by
  have hgroup : ∀ g, some (trim group) = some g → OneLine g := fun g hg => Option.some.inj hg ▸ h.trim
  unfold start
  split
  · exact ⟨Macro.Collector.unbroken_nothing hgroup, List.forall_mem_nil _⟩
  · exact ⟨Macro.Collector.unbroken_nothing (by simp), List.forall_mem_nil _⟩

theorem unbroken_ofSources {group : Text} (h : OneLine group) (options : Options)
    (sources : List Text) : (ofSources group options sources).Unbroken :=
  List.foldlRecOn _ _ (unbroken_start h options) fun _ hscan content _ =>
    List.foldlRecOn _ _ hscan fun _ hscan _ hregion =>
      hscan.addRegion (Source.oneLine_logicalLines _ content) hregion

end StructTables.Scan

import StructTables.Proofs.Body.EmptyLines
import StructTables.Proofs.Outline.EmptyLines
import StructTables.Proofs.Scan.Agreement

/-! # Scans without empty lines

Empty lines change what members are described by, and the events that give the number of a line. The
structures, the macros and the warnings of a scan do not depend on them. -/

namespace StructTables.Scan
open Text Outline

/-! ## Scans alike -/

def undescribed (scan : Scan) : Scan :=
  { scan with structures := scan.structures.map Structure.undescribed }

/-- Scans that differ at most in descriptions and in events that warn of nothing. -/
def Alike (a b : Scan) : Prop := a.undescribed.Agrees b.undescribed

variable {a b : Scan}

theorem Agrees.alike (h : a.Agrees b) : a.Alike b :=
  ⟨h.options, h.collector, congrArg (List.map Structure.undescribed) h.structures, h.warnings⟩

theorem Alike.emptied_eq (h : a.Alike b) : a.emptied = b.emptied :=
  @Agrees.emptied_eq a.undescribed b.undescribed h

theorem Alike.followedBy (h : a.Alike b) {next other : Scan} (hnext : next.Alike other) :
    (a.followedBy next).Alike (b.followedBy other) := by
  have hstructures := congrArg₂ (· ++ ·) h.structures hnext.structures
  have hwarnings := congrArg₂ (· ++ ·) h.warnings hnext.warnings
  refine ⟨hnext.options, hnext.collector, ?_, ?_⟩
  · simpa [undescribed, Scan.followedBy] using hstructures
  · exact (warnings_followedBy a next).trans (hwarnings.trans (warnings_followedBy b other).symm)

/-! ## Regions -/

theorem addOutside_empty (scan : Scan) : scan.addOutside [] = scan := by
  cases h : scan.options.captureDefines <;>
    simp [addOutside, h, show isTypedef [] = false from rfl, capture,
      show definition? [] = none from rfl]

/-- A structure is found with the same members, but for descriptions, when the empty lines of its body
are left out and its opening line has another number. -/
theorem addClosed_withoutEmpty (scan : Scan) (opening : Opening) {body : List Text} (closing : Text)
    (htrim : ∀ row ∈ body, trim row = row) (n : Nat) :
    (scan.addClosed opening body closing).Alike
      (scan.addClosed { opening with line := n } (withoutEmpty body) closing) := by
  have hsame : closedName { opening with line := n } closing = closedName opening closing := rfl
  cases hname : (closedName opening closing).isEmpty with
  | true =>
    rw [addClosed_of_nameless hname, addClosed_of_nameless (hsame ▸ hname)]
    exact (Agrees.refl _).alike
  | false =>
    have hbody := Body.undescribed_assemble_read
      { name := closedName opening closing, form := opening.form } scan.collector htrim
    obtain ⟨hcollector, hadded, hlog⟩ := Body.Assembly.mk.inj hbody
    rw [addClosed_of_named hname, addClosed_of_named (hsame ▸ hname)]
    refine ⟨rfl, hcollector, ?_, ?_⟩
    · simpa [undescribed, readClosed, Structure.addBody, Structure.undescribed, hsame] using hadded
    · simp only [undescribed, readClosed, Structure.addBody, warnings, StructTables.warnings, hsame,
        hlog, List.filterMap_append]
      rfl

/-- What a region adds it adds without its empty lines and its number. -/
theorem Alike.addRegion (h : a.Alike b) {region : Region}
    (htrim : ∀ {opening body closing}, region = .closed opening body closing →
      ∀ row ∈ body, trim row = row) :
    (a.addRegion region).Alike (region.condensed?.toList.foldl Scan.addRegion b) := by
  have hgiven : ∀ {event : Event}, event.warning? = none → (a.report event).Alike b :=
    fun he => Agrees.trans (agrees_report he a).alike h
  cases region with
  | outside line =>
    by_cases hempty : line = []
    · subst hempty
      rw [Scan.addRegion, addOutside_empty]
      exact h
    · have hsolid : (Region.outside line).condensed? = some (.outside line) := by
        simp [Region.condensed?, hempty]
      rw [hsolid, Scan.addRegion, addOutside_eq, h.emptied_eq]
      show (a.followedBy _).Alike (b.addOutside line)
      rw [addOutside_eq b]
      exact h.followedBy (Agrees.refl _).alike
  | abandoned opening => exact hgiven rfl
  | unclosed opening => exact hgiven rfl
  | closed opening body closing =>
    rw [Scan.addRegion, addClosed_eq, h.emptied_eq]
    show (a.followedBy _).Alike (b.addClosed { opening with line := 0 } (withoutEmpty body) closing)
    rw [addClosed_eq b]
    exact h.followedBy (addClosed_withoutEmpty b.emptied opening closing (htrim rfl) 0)

theorem foldl_condensed {regions : List Region} (h : a.Alike b)
    (htrim : ∀ {opening body closing}, .closed opening body closing ∈ regions →
      ∀ row ∈ body, trim row = row) :
    (regions.foldl addRegion a).Alike
      ((regions.filterMap Region.condensed?).foldl addRegion b) := by
  induction regions generalizing a b with
  | nil => exact h
  | cons region more ih =>
    have hfirst : (a.addRegion region).Alike (region.condensed?.toList.foldl addRegion b) :=
      h.addRegion fun heq => htrim (List.mem_cons.mpr (.inl heq.symm))
    have hrest := ih hfirst fun hmore => htrim (List.mem_cons_of_mem _ hmore)
    rw [List.filterMap_cons]
    cases hregion : region.condensed? <;> rwa [hregion] at hrest

/-! ## Lines -/

theorem addLines_withoutEmpty (scan : Scan) {lines : List Text}
    (htrim : ∀ line ∈ lines, trim line = line) :
    (scan.addLines lines).Alike (scan.addLines (withoutEmpty lines)) := by
  have hrefl : scan.Alike scan := (Agrees.refl scan).alike
  have hsolid : ∀ line ∈ withoutEmpty lines, trim line = line :=
    fun line hline => htrim line (mem_of_mem_withoutEmpty hline)
  have hlines := foldl_condensed hrefl (trimmed_body htrim)
  have hothers := foldl_condensed hrefl (trimmed_body hsolid)
  rw [← condensed_regions] at hothers
  exact Agrees.trans hlines hothers.symm

/-- Empty lines between trimmed lines make no difference but to descriptions. -/
theorem addLines_spaced (scan : Scan) {lines spaced : List Text} (h : Spaced lines spaced)
    (htrim : ∀ line ∈ lines, trim line = line) :
    (scan.addLines spaced).structures.map Structure.undescribed =
        (scan.addLines lines).structures.map Structure.undescribed ∧
      (scan.addLines spaced).table = (scan.addLines lines).table ∧
      (scan.addLines spaced).warnings = (scan.addLines lines).warnings := by
  have hspaced := scan.addLines_withoutEmpty (h.trimmed htrim)
  rw [h.withoutEmpty_eq] at hspaced
  obtain ⟨-, hcollector, hstructures, hwarnings⟩ :=
    Agrees.trans hspaced (scan.addLines_withoutEmpty htrim).symm
  exact ⟨hstructures, congrArg Macro.Collector.table hcollector, hwarnings⟩

/-- A remark that an empty line parts from the comment above it is said of the last member alone. -/
theorem addLines_spaced_of_remark :
    let lines := ["struct S".toList, "\x7b".toList, "int x, y[N]; // one".toList, "// two".toList,
      "z;".toList, "\x7d;".toList]
    let spaced := ["struct S".toList, [], "\x7b".toList, "int x, y[N]; // one".toList, [],
      "// two".toList, "z;".toList, [], [], "\x7d;".toList]
    let descriptions := fun scan : Scan =>
      (scan.structures.flatMap (·.members)).map (·.description)
    let scan := start "G".toList {}
    Spaced lines spaced ∧ (∀ line ∈ lines, trim line = line) ∧
      descriptions (scan.addLines lines) = ["one two".toList, "one two".toList] ∧
      descriptions (scan.addLines spaced) = ["one".toList, "one two".toList] ∧
      (scan.addLines spaced).structures.map Structure.undescribed =
        (scan.addLines lines).structures.map Structure.undescribed ∧
      (scan.addLines spaced).table = (scan.addLines lines).table ∧
      (scan.addLines spaced).warnings = (scan.addLines lines).warnings := by
  intro lines spaced descriptions scan
  have hspaced : Spaced lines spaced :=
    .line _ (.empty (.line _ (.line _ (.empty (.line _ (.line _ (.empty (.empty (.line _ .nil)))))))))
  have htrim : ∀ line ∈ lines, trim line = line := by decide +kernel
  exact ⟨hspaced, htrim, by decide +kernel, by decide +kernel, addLines_spaced scan hspaced htrim⟩

end StructTables.Scan

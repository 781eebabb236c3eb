import Mathlib.Data.List.Forall2
import StructTables.Proofs.Source
import StructTables.Scan

/-! # The layout of a source

A source is read by its trimmed lines. Neither the blanks around a line nor the way in which it ends makes
any difference to a scan. -/

namespace StructTables.Source
open Text

/-- How a line of a file ends: in a line feed, which may have a carriage return ahead of it. -/
inductive Ending where
  | feed
  | returnFeed
  deriving DecidableEq

/-- What an ending has ahead of its line feed. -/
def Ending.lead : Ending → Text
  | .feed => []
  | .returnFeed => ['\r']

def Ending.text (ending : Ending) : Text := ending.lead ++ ['\n']

/-- A line of a file with its ending. -/
structure PhysicalLine where
  text : Text
  ending : Ending
  oneLine : OneLine text

variable {ls others : List PhysicalLine}

/-- The content of the file that has these lines. -/
def contentOf (ls : List PhysicalLine) : Text := ls.flatMap fun line => line.text ++ line.ending.text

theorem Ending.isBlank_of_mem_lead {ending : Ending} {c : Char} (h : c ∈ ending.lead) :
    isBlank c = true := by
  cases ending with
  | feed => cases h
  | returnFeed =>
    rw [List.mem_singleton.mp h]
    rfl

theorem lines_contentOf (ls : List PhysicalLine) :
    lines (contentOf ls) = ls.map fun line => line.text ++ line.ending.lead := by
  have hcontent : contentOf ls =
      (ls.map fun line => line.text ++ line.ending.lead).flatMap (· ++ ['\n']) := by
    simp [contentOf, List.flatMap_map, Ending.text]
  rw [hcontent, lines_flatMap_newline]
  intro text htext
  obtain ⟨line, -, rfl⟩ := List.mem_map.mp htext
  have hlead : OneLine line.ending.lead := by cases line.ending <;> decide
  exact oneLine_append.mpr ⟨line.oneLine, hlead⟩

theorem map_trim_lines_contentOf (ls : List PhysicalLine) :
    (lines (contentOf ls)).map trim = ls.map fun line => trim line.text := by
  rw [lines_contentOf, List.map_map]
  exact List.map_congr_left fun line _ =>
    trim_append_blanks (fun _ => Ending.isBlank_of_mem_lead) line.text

theorem logicalLines_contentOf_congr
    (h : List.Forall₂ (fun line other => trim line.text = trim other.text) ls others)
    (joining : Bool) :
    logicalLines joining (contentOf ls) = logicalLines joining (contentOf others) := by
  have htrimmed : ls.map (fun line => trim line.text) = others.map fun line => trim line.text := by
    induction h with
    | nil => rfl
    | cons hfirst _ ih => exact congrArg₂ List.cons hfirst ih
  rw [logicalLines, logicalLines, map_trim_lines_contentOf, map_trim_lines_contentOf, htrimmed]

end StructTables.Source

namespace StructTables.Scan
open Text Source

/-- Whatever has been scanned before, files whose lines are the same but for blanks around them and for
their endings are scanned alike. -/
theorem addSource_contentOf_congr (scan : Scan) {ls others : List PhysicalLine}
    (h : List.Forall₂ (fun line other => trim line.text = trim other.text) ls others) :
    scan.addSource (contentOf ls) = scan.addSource (contentOf others) := by
  rw [addSource, addSource, logicalLines_contentOf_congr h]

/-- A carriage return within a line is a blank, around it or not, and a backslash is last ahead of blanks. -/
theorem addSource_contentOf_of_blanks :
    let scan := start "G".toList { captureDefines := true }
    let ls : List PhysicalLine := [
      ⟨"#define N \\".toList, .feed, by decide⟩, ⟨"4".toList, .feed, by decide⟩,
      ⟨"struct S \x7b".toList, .feed, by decide⟩, ⟨"int\rx[N];".toList, .returnFeed, by decide⟩,
      ⟨"\x7d;".toList, .feed, by decide⟩]
    let others : List PhysicalLine := [
      ⟨"\t#define N \\ \r".toList, .returnFeed, by decide⟩, ⟨"\u00a04\r\r".toList, .feed, by decide⟩,
      ⟨"struct S \x7b\u2003".toList, .returnFeed, by decide⟩,
      ⟨"\r  int\rx[N];".toList, .feed, by decide⟩, ⟨"  \x7d;\x0b".toList, .returnFeed, by decide⟩]
    let found := scan.addSource (contentOf ls)
    List.Forall₂ (fun line other => trim line.text = trim other.text) ls others ∧
      contentOf ls ≠ contentOf others ∧
      found.structures.map (fun s => (s.name, s.members.map Member.name)) =
        [("S".toList, ["x".toList])] ∧
      found.table.entries = [⟨"N".toList, "4".toList⟩] ∧
      scan.addSource (contentOf others) = found := by
  intro scan ls others found
  have hsame : List.Forall₂ (fun line other => trim line.text = trim other.text) ls others := by
    decide +kernel
  exact ⟨hsame, by decide +kernel, by decide +kernel, by decide +kernel,
    (addSource_contentOf_congr scan hsame).symm⟩

end StructTables.Scan

import StructTables.Proofs.Body.Assembly
import StructTables.Proofs.Spelled.Lines

/-! # The members of a freely spelled line

Whatever a structure and a collector hold already, reading the line of a declaration into them does
what declaring its variables one after the other does. -/

namespace StructTables.Spelled
open Text Declaration Body

/-! ## Lines -/

/-- A line that begins with a type and the variables behind it declares these, whether it is broken
behind them or not. -/
theorem readLine_lead (type : DataType) (gap : Blank) {row : List Variable} (hne : row ≠ [])
    (last : Bool) (below : List Text) :
    readLine {} (type.lead gap ++ (rowText row ++ [ending last])) below =
      { context := { dataType := collapse type.text, continues := !last }
        entries := row.map (Variable.entry (collapse type.text) []) } := by
  have hsplit : type.lead gap ++ (rowText row ++ [ending last]) =
      type.text ++ (gap.1 :: (rowText row ++ [ending last])) := by simp [DataType.lead]
  have hend := endsWith_row (type.lead gap) row last
  rw [hsplit] at hend
  rw [hsplit, readLine_typed type hend, ← hsplit, readStatements_typed type gap hne last rfl]
  rfl

theorem read_line (line : Line) (further : List Text) :
    Body.read (line.text :: further) =
      line.row.map (Variable.entry (collapse line.type.text) []) ++
        readFrom { dataType := collapse line.type.text } 0 further := by
  have hreading := readLine_lead line.type line.gap (List.cons_ne_nil line.first line.more) true
    further
  rw [Body.read, readFrom]
  simp only [show readLine {} line.text further = _ from hreading]
  rfl

/-! ## Members -/

/-- A size that is not there is collected without a trace. -/
theorem resolve_eq (extent : Extent) (collector : Macro.Collector) :
    extent.resolve collector =
      let (arraySize, collector) := collector.collect extent.arraySize
      let (bitLength, collector) := collector.collect extent.bitLength
      (arraySize, bitLength, collector) := by
  cases extent <;> rfl

/-- Adding the entry of a variable to a body declares the variable, and warns of nothing. -/
theorem add_entry (owner : Structure) (assembly : Assembly) (dataType : Text) (v : Variable) :
    v.declare dataType (withAdded owner assembly) assembly.collector =
        (withAdded owner (assembly.add owner (v.entry dataType [])),
          (assembly.add owner (v.entry dataType [])).collector) ∧
      warnings (assembly.add owner (v.entry dataType [])).log = warnings assembly.log := by
  cases h : assembly.contains owner v.name.1 with
  | true =>
    rw [Variable.declare, contains_withAdded, h, Variable.entry, add_duplicate h, if_pos rfl]
    exact ⟨rfl, by simp [Assembly.report, warnings, Event.warning?]⟩
  | false =>
    rw [Variable.declare, contains_withAdded, h, Variable.entry, add_variable h,
      if_neg Bool.false_ne_true, resolve_eq]
    exact ⟨by simp [withAdded, memberOf, Variable.declared], rfl⟩

theorem foldl_add_entries (owner : Structure) (dataType : Text) (vs : List Variable)
    (assembly : Assembly) :
    declareAll dataType (withAdded owner assembly) assembly.collector vs =
      (withAdded owner ((vs.map (Variable.entry dataType [])).foldl (Assembly.add owner) assembly),
        ((vs.map (Variable.entry dataType [])).foldl (Assembly.add owner) assembly).collector) ∧
    warnings ((vs.map (Variable.entry dataType [])).foldl (Assembly.add owner) assembly).log =
      warnings assembly.log := by
  induction vs generalizing assembly with
  | nil => exact ⟨rfl, rfl⟩
  | cons v more ih =>
    obtain ⟨hv, hlog⟩ := add_entry owner assembly dataType v
    obtain ⟨hmore, hrest⟩ := ih (assembly.add owner (v.entry dataType []))
    rw [List.map_cons, List.foldl_cons]
    refine ⟨?_, hrest.trans hlog⟩
    rw [declareAll, hv]
    exact hmore

/-- Reading the line of a declaration adds its variables in order, each with its own type and size. A
variable whose name is taken is passed over, and its size registers no macro. -/
theorem addBody_line (line : Line) (owner : Structure) (collector : Macro.Collector) :
    ∃ log, owner.addBody collector [line.text] =
        ((line.declare owner collector).1, (line.declare owner collector).2, log) ∧
      warnings log = [] := by
  obtain ⟨hdeclare, hlog⟩ := foldl_add_entries owner (collapse line.type.text) line.row
    { collector := collector }
  have howner : withAdded owner { collector := collector } = owner := by simp [withAdded]
  rw [howner] at hdeclare
  refine ⟨_, ?_, hlog⟩
  rw [Line.declare, hdeclare, Structure.addBody, read_line, readFrom, List.append_nil]
  rfl

example : ∃ line : Line,
    line.text = "unsigned  int *a [ N + 1 ][2] , b :3;".toList ∧
      line.declare { name := "S".toList, form := .tagged } .plain =
        ({ name := "S".toList
           form := .tagged
           members := [
             { dataType := "unsigned int *".toList
               name := "a".toList
               arraySize := "##N## + 1,2".toList },
             { dataType := "unsigned int".toList
               name := "b".toList
               bitLength := "3".toList }] },
          Macro.Collector.plain.reference ["N".toList]) := by
  let blank : Blanks := ⟨[' '], by decide⟩
  let nothing : Blanks := ⟨[], by decide⟩
  let size (text : Text) (plain : ∀ c ∈ text, isMark c = false ∧ c ≠ ';')
    (free : Comment.code text = text) : Size := ⟨text, plain, free⟩
  refine ⟨{
    type := ⟨"unsigned  int".toList, by decide +kernel, by decide +kernel, by decide +kernel⟩
    gap := ⟨' ', rfl⟩
    first :=
      { ahead := nothing
        stars := 1
        name := ⟨"a".toList, rfl⟩
        extent := .array ⟨blank, size " N + 1 ".toList (by simp [isMark]) (by decide)⟩
          [⟨nothing, size "2".toList (by simp [isMark]) (by decide)⟩]
        behind := blank }
    more := [
      { ahead := blank
        stars := 0
        name := ⟨"b".toList, rfl⟩
        extent := .bits blank (size "3".toList (by simp [isMark]) (by decide))
        behind := nothing }] }, by decide +kernel, by decide +kernel⟩

end StructTables.Spelled

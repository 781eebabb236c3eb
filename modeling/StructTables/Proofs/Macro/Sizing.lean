import StructTables.Proofs.Macro.Mention

/-! # Names in a written size

A size is written out as stretches of text, some of them names between delimiters. Which stretches
are names cannot be read off the text alone, since a size may have delimiters of its own, so it is
said here along with the writing. -/

namespace StructTables.Macro
open Text

/-- A stretch of a written size: text as it stands, or a name between delimiters. -/
inductive Mark where
  | plain (t : Text)
  | name (n : Text)
  deriving DecidableEq

namespace Mark

def written : Mark → Text
  | .plain t => t
  | .name n => bound n

def name? : Mark → Option Text
  | .plain _ => none
  | .name n => some n

end Mark

/-! ## Components -/

namespace Formula

def Piece.mark : Piece → Mark
  | .word w => if isMention w then .name w else .plain w
  | .other c => .plain [c]

def marks (t : Text) : List Mark := (pieces t).map Piece.mark

theorem written_marks (t : Text) : (marks t).flatMap Mark.written = written t := by
  rw [marks, written, List.flatMap_map]
  refine congrArg (List.flatMap · _) (funext fun piece => ?_)
  cases piece with
  | word w => by_cases h : isMention w = true <;> simp [Piece.mark, Piece.written, Mark.written, h]
  | other c => rfl

theorem names_marks (t : Text) : (marks t).filterMap Mark.name? = mentions t := by
  rw [marks, mentions, List.filterMap_map]
  refine congrArg (List.filterMap · _) (funext fun piece => ?_)
  cases piece with
  | word w => by_cases h : isMention w = true <;> simp [Piece.mark, Piece.mention?, Mark.name?, h]
  | other c => rfl

end Formula

/-- The names that a component of a size mentions: itself, unless it is a number or a formula. -/
def mentionsOf (component : Text) : List Text :=
  if component.isEmpty || isNumeric component then []
  else if !component.any Formula.isOperator then [component]
  else Formula.mentions component

namespace Collector

/-- How a component is written out by a collector. -/
def marks (collector : Collector) (component : Text) : List Mark :=
  if component.isEmpty || isNumeric component then [.plain component]
  else if !component.any Formula.isOperator then [.name component]
  else match collector.formulaGroup with
    | none => Formula.marks component
    | some group => [.name (generatedName group (collector.formulaCount + 1))]

theorem written_marks (collector : Collector) (component : Text) :
    (collector.marks component).flatMap Mark.written =
      (collector.collectComponent component).1 := by
  unfold marks collectComponent
  split
  · simp [Mark.written]
  · split
    · simp [Mark.written]
    · cases hg : collector.formulaGroup with
      | none => simp [reference, hg, Formula.written_marks]
      | some group => simp [reference, hg, Mark.written]

/-- The collector behind one more component. -/
def next (collector : Collector) (component : Text) : Collector :=
  (collector.collectComponent component).2

/-- How components are written out one after the other. -/
def marksOf (collector : Collector) : List Text → List (List Mark)
  | [] => []
  | component :: more => collector.marks component :: (collector.next component).marksOf more

theorem written_marksOf (collector : Collector) (components : List Text) :
    (collector.marksOf components).map (·.flatMap Mark.written) =
      (collector.collectComponents components).1 := by
  induction components generalizing collector with
  | nil => rfl
  | cons component more ih =>
    rw [marksOf, List.map_cons, written_marks, ih]
    rfl

theorem collectComponents_snd (collector : Collector) (components : List Text) :
    (collector.collectComponents components).2 = components.foldl next collector := by
  induction components generalizing collector with
  | nil => rfl
  | cons component more ih =>
    rw [List.foldl_cons, ← ih]
    rfl

end Collector

/-! ## Sizes -/

/-- A size with the collector that it was given to. -/
structure Sizing where
  collector : Collector
  size : Text
  deriving DecidableEq

namespace Sizing

def components (sizing : Sizing) : List Text := (splitOn ',' sizing.size).map trim

/-- How each component of the size is written out. -/
def marks (sizing : Sizing) : List (List Mark) := sizing.collector.marksOf sizing.components

def written (sizing : Sizing) : Text := join [','] (sizing.marks.map (·.flatMap Mark.written))

/-- The names that stand between delimiters in the written size. -/
def names (sizing : Sizing) : List Text := sizing.marks.flatten.filterMap Mark.name?

/-- The names that the size mentions as it stands in the source. -/
def mentions (sizing : Sizing) : List Text := sizing.components.flatMap mentionsOf

theorem written_eq (sizing : Sizing) :
    sizing.written = (sizing.collector.collect sizing.size).1 := by
  rw [written, marks, Collector.written_marksOf]
  rfl

theorem collect_snd (sizing : Sizing) :
    (sizing.collector.collect sizing.size).2 =
      sizing.components.foldl Collector.next sizing.collector := by
  rw [← Collector.collectComponents_snd]
  rfl

end Sizing
end StructTables.Macro

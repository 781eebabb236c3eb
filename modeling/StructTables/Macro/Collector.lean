import StructTables.Macro.Formula
import StructTables.Macro.Table

/-! # Collecting macros

A collector takes the sizes of a document one after the other, puts delimiters around the macros
that they name, and registers these. A name with a captured definition takes its value, and the
names in that value are registered behind it, depth first; any other name takes the placeholder. A
collector for a group also makes a macro of its own out of every formula. -/

namespace StructTables.Macro
open Text

/-- A captured definition: its value as it will be written, and the macros that the value names. -/
structure Definition where
  name : Text
  value : Text
  mentions : List Text
  deriving DecidableEq

def Definition.ofText (name value : Text) : Definition :=
  let value := trim value
  if isNumeric value then ⟨name, value, []⟩
  else ⟨name, Formula.written value, Formula.mentions value⟩

/-! ## References -/

/-- What is left to do for definitions that are not registered: one step for each, and one for every
name that its value mentions. -/
def outstanding (table : Table) : List Definition → Nat
  | [] => 0
  | d :: more =>
    (if table.contains d.name then 0 else d.mentions.length + 1) + outstanding table more

theorem outstanding_register_le (table : Table) (name value : Text)
    (definitions : List Definition) :
    outstanding (table.register name value) definitions ≤ outstanding table definitions := by
  induction definitions with
  | nil => exact Nat.le_refl _
  | cons d more ih =>
    simp only [outstanding, Table.contains_register]
    cases table.contains d.name <;> cases name == d.name <;> simp <;> omega

theorem outstanding_register_lt {table : Table} {d : Definition} (value : Text)
    {definitions : List Definition} (hd : d ∈ definitions)
    (hnew : table.contains d.name = false) :
    outstanding (table.register d.name value) definitions + d.mentions.length <
      outstanding table definitions := by
  induction definitions with
  | nil => cases hd
  | cons e more ih =>
    have hle := outstanding_register_le table d.name value more
    simp only [outstanding, Table.contains_register]
    rcases List.mem_cons.1 hd with rfl | hd
    · simp only [hnew, beq_self_eq_true, Bool.or_true, if_true, Bool.false_eq_true, if_false]
      omega
    · have hlt := ih hd
      cases table.contains e.name <;> cases d.name == e.name <;> simp <;> omega

/-- Registers the names of a stack, each followed by the names that its captured value mentions. A
registered name is passed over together with what it mentions, so definitions may be cyclic. -/
def visit (definitions : List Definition) (table : Table) : List Text → Table
  | [] => table
  | name :: stack =>
    if _hnew : table.contains name then visit definitions table stack
    else
      match _hfind : definitions.find? (·.name == name) with
      | none => visit definitions (table.register name placeholder) stack
      | some d => visit definitions (table.register name d.value) (d.mentions ++ stack)
termination_by stack => outstanding table definitions + stack.length
decreasing_by
  · simp only [List.length_cons]
    omega
  · have hle := outstanding_register_le table name placeholder definitions
    simp only [List.length_cons]
    omega
  · have hname : d.name = name := by simpa using List.find?_some _hfind
    subst hname
    have hlt := outstanding_register_lt d.value (List.mem_of_find?_eq_some _hfind)
      (by simpa using _hnew)
    simp only [List.length_append, List.length_cons]
    omega

/-! ## Sizes -/

structure Collector where
  table : Table := {}
  definitions : List Definition := []
  /-- The name that generated macros begin with, if formulas become macros. -/
  formulaGroup : Option Text := none
  formulaCount : Nat := 0
  deriving DecidableEq

namespace Collector

/-- A collector that leaves formulas in the sizes. -/
def plain : Collector := {}

/-- A collector that makes a macro of every formula, named for the group. -/
def forGroup (group : Text) : Collector := { formulaGroup := some (trim group) }

def isDefined (collector : Collector) (name : Text) : Bool :=
  collector.definitions.any (·.name == name)

/-- Captures a definition. The first one of a name stays, and none registers anything by itself. -/
def define (collector : Collector) (name value : Text) : Collector :=
  if collector.isDefined name then collector
  else { collector with
    definitions := collector.definitions ++ [Definition.ofText name value] }

/-- Registers names and all that they depend on. -/
def reference (collector : Collector) (names : List Text) : Collector :=
  { collector with table := visit collector.definitions collector.table names }

/-- The name of the macro that is generated for the formula of the given number. -/
def generatedName (group : Text) (number : Nat) : Text :=
  group ++ "_CCDD_MACRO_".toList ++ ofNat number

/-- Collects the macros of one trimmed component of a size: the component as it is written out. -/
def collectComponent (collector : Collector) (component : Text) : Text × Collector :=
  if component.isEmpty || isNumeric component then (component, collector)
  else if !component.any Formula.isOperator then (bound component, collector.reference [component])
  else
    let collector := collector.reference (Formula.mentions component)
    match collector.formulaGroup with
    | none => (Formula.written component, collector)
    | some group =>
      let number := collector.formulaCount + 1
      let name := generatedName group number
      (bound name,
        { collector with
          table := collector.table.register name (Formula.written component)
          formulaCount := number })

def collectComponents (collector : Collector) : List Text → List Text × Collector
  | [] => ([], collector)
  | component :: more =>
    let (first, collector) := collector.collectComponent component
    let (rest, collector) := collector.collectComponents more
    (first :: rest, collector)

/-- Collects the macros of a size, whose components stand between commas: the size as it is written
out. -/
def collect (collector : Collector) (size : Text) : Text × Collector :=
  let (components, collector) := collector.collectComponents ((splitOn ',' size).map trim)
  (join [','] components, collector)

end Collector
end StructTables.Macro

import StructTables.Body.Reading
import StructTables.Event
import StructTables.Macro.Collector
import StructTables.Structure

/-! # Assembling a body

The entries of a body become members of a structure one after the other. A variable whose name is
taken is dropped before its size is looked at, so it registers no macro. A remark belongs to the
last member that this body added; without one it is dropped. -/

namespace StructTables.Body
open Text Declaration

/-- The members that a body has added so far, with the macros that it uses and what it reported. -/
structure Assembly where
  collector : Macro.Collector
  added : List Member := []
  log : List Event := []
  deriving DecidableEq

/-- The member that a variable becomes, its size written with bound names. -/
def memberOf (collector : Macro.Collector) (dataType : Text) (declarator : Declarator)
    (description : Text) : Member × Macro.Collector :=
  let (arraySize, collector) := collector.collect declarator.arraySize
  let (bitLength, collector) := collector.collect declarator.bitLength
  ({ dataType := typeOf dataType declarator.stars
     name := declarator.name
     arraySize := arraySize
     bitLength := bitLength
     description := description }, collector)

/-- Appends a remark to the last member. -/
def describeLast (remark : Text) : List Member → List Member
  | [] => []
  | [m] => [m.describe remark]
  | m :: next :: more => m :: describeLast remark (next :: more)

namespace Assembly

def report (assembly : Assembly) (event : Event) : Assembly :=
  { assembly with log := assembly.log ++ [event] }

/-- Whether a member of that name is there, from before or added by this body. -/
def contains (assembly : Assembly) (owner : Structure) (name : Text) : Bool :=
  owner.contains name || assembly.added.any (·.name == name)

def add (owner : Structure) (assembly : Assembly) : Entry → Assembly
  | .invalid source => assembly.report (.warning (.invalidMember owner.name source))
  | .remark text => { assembly with added := describeLast text assembly.added }
  | .variable dataType declarator description =>
    if assembly.contains owner declarator.name then
      assembly.report (.duplicate owner.name declarator.name)
    else
      let (m, collector) := memberOf assembly.collector dataType declarator description
      { assembly with collector := collector, added := assembly.added ++ [m] }

end Assembly

def assemble (owner : Structure) (collector : Macro.Collector) (entries : List Entry) : Assembly :=
  entries.foldl (Assembly.add owner) { collector := collector }

end Body

/-- Reads a body into the structure: the structure with the members that the body adds, the
collector with their macros, and what is reported. -/
def Structure.addBody (owner : Structure) (collector : Macro.Collector) (body : List Text) :
    Structure × Macro.Collector × List Event :=
  let assembly := Body.assemble owner collector (Body.read body)
  ({ owner with members := owner.members ++ assembly.added }, assembly.collector, assembly.log)

end StructTables

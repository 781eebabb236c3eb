import StructTables.Text.Basic

/-! # Options

How headers are read and what is written. A preset fixes all options for a family of headers. -/

namespace StructTables

/-- The family of headers that a preset is made for: any C header, or cFE/cFS message headers. -/
inductive Preset where
  | generic
  | cfs
  deriving DecidableEq

def Preset.name : Preset → Text
  | .generic => "generic".toList
  | .cfs => "cfs".toList

def Preset.all : List Preset := [.generic, .cfs]

def Preset.ofName? (name : Text) : Option Preset := Preset.all.find? (·.name == name)

structure Options where
  /-- A line that ends in a backslash goes on with the next one. -/
  joinContinuations : Bool := true
  /-- A formula in a size becomes a macro that is generated for it. -/
  formulaMacros : Bool := false
  /-- The macro section is written even without a macro. -/
  alwaysMacroSection : Bool := false
  warnUnhandledTypedefs : Bool := false
  /-- A definition read outside structures gives its macro a value. -/
  captureDefines : Bool := false
  /-- Groups may be converted at the same time. Results keep the order of the groups. -/
  parallel : Bool := false
  /-- The extracted model is written as JSON beside each output. -/
  exportJson : Bool := false
  deriving DecidableEq

def Options.generic : Options := {}

def Options.cfs : Options :=
  { joinContinuations := false
    formulaMacros := true
    alwaysMacroSection := true
    warnUnhandledTypedefs := true }

def Preset.options : Preset → Options
  | .generic => .generic
  | .cfs => .cfs

end StructTables

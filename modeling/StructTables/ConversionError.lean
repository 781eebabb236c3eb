import StructTables.FileTree

/-! # Errors

What ends the conversion of a group, or the reading of a list of groups: a file that cannot be read
or written, or a line that describes no group. -/

namespace StructTables
open Text

/-- What is wrong with a line of a list of groups. -/
inductive GroupFault where
  | tooFewFields (found : Nat)
  /-- The field of the given number, counted from one, is empty. -/
  | emptyField (number : Nat)
  deriving DecidableEq

def GroupFault.message : GroupFault → Text
  | .tooFewFields found =>
    "expected at least 4 fields (name, kind, output, input), found ".toList ++ ofNat found
  | .emptyField number => "field ".toList ++ ofNat number ++ " is empty".toList

/-- Why a file could not be read or written: the system refused, or its bytes are no text. -/
inductive FileFault where
  | refused (refusal : Refusal)
  | notText
  deriving DecidableEq

def FileFault.message : FileFault → Text
  | .refused refusal => refusal.message
  | .notText => "stream did not contain valid UTF-8".toList

inductive ConversionError where
  | file (path : Text) (fault : FileFault)
  | listing (path : Text) (line : Nat) (fault : GroupFault)
  deriving DecidableEq

def ConversionError.message : ConversionError → Text
  | .file path fault => "IO error on ".toList ++ path ++ ": ".toList ++ fault.message
  | .listing path line fault =>
    "Invalid conversion paths entry in ".toList ++ path ++ ':' :: ofNat line ++ ": ".toList ++
      fault.message

end StructTables

import StructTables.CommandLine.Run
import StructTables.Main
import StructTables.Proofs.Body.CommentLines
import StructTables.Proofs.Canonical.Scan
import StructTables.Proofs.Comment.BlockEnd
import StructTables.Proofs.Outline.BlockState
import StructTables.Proofs.Scan.Closing
import StructTables.Proofs.Scan.Factoring
import StructTables.Proofs.Scan.MacroUse
import StructTables.Proofs.Scan.Segments
import StructTables.Proofs.Sheet.Layout
import StructTables.Proofs.Macro.Resolving
import StructTables.Proofs.Macro.Registering
import StructTables.Proofs.Macro.Placeholder
import StructTables.Proofs.Scan.Collecting
import StructTables.Proofs.Scan.Resolving
import StructTables.Proofs.Body.OneLine
import StructTables.Proofs.Scan.OneLine
import StructTables.Proofs.Sheet.Lines
import StructTables.Proofs.Conversion
import StructTables.Proofs.Scan.Calls
import StructTables.Proofs.Macro.Parallel
import StructTables.Proofs.Scan.Parallel
import StructTables.Proofs.Scan.Reporting
import StructTables.Proofs.Scan.Sources
import StructTables.Proofs.Text.EmptyLines
import StructTables.Proofs.Outline.EmptyLines
import StructTables.Proofs.Body.EmptyLines
import StructTables.Proofs.Scan.EmptyLines
import StructTables.Proofs.Group.Sources
import StructTables.Proofs.Group.Rerun
import StructTables.Proofs.Extract
import StructTables.Proofs.CommandLine.Endings
import StructTables.Proofs.Outline.Inline
import StructTables.Proofs.Scan.Bodies
import StructTables.Proofs.Spelled.Breaking
import StructTables.Proofs.Scan.InlineBody
import StructTables.Proofs.Spelled.Stars
import StructTables.Proofs.Body.Conditional
import StructTables.Proofs.Spelled.Commented
import StructTables.Proofs.Body.Growth
import StructTables.Proofs.Body.InPlace
import StructTables.Proofs.Macro.FormulaNames
import StructTables.Proofs.Macro.Expression
import StructTables.Proofs.Source.Joining
import StructTables.Proofs.Source.Rereading
import StructTables.Proofs.Scan.Layout
import StructTables.Proofs.Macro.Enclosing
import StructTables.Proofs.Declaration.Respacing
import StructTables.Proofs.Comment.Search
import StructTables.Proofs.Comment.Extent
import StructTables.Proofs.Body.Rows

import BoardAtlas.Number.Size
import BoardAtlas.Number.Reading
import BoardAtlas.Text.Blank
import BoardAtlas.Json.Printer
import BoardAtlas.Json.Reader
import BoardAtlas.Manifest.Path
import BoardAtlas.Manifest.Inherit
import BoardAtlas.Manifest.Substitution
import BoardAtlas.Formula.Field
import BoardAtlas.Geometry.Bounds
import BoardAtlas.Text.Natural
import BoardAtlas.Role.Registry
import BoardAtlas.Library.Store
import BoardAtlas.Shape.Builder
import BoardAtlas.Shape.Document
import BoardAtlas.Shape.Label
import BoardAtlas.Text.Upper
import BoardAtlas.Board.Basic
import BoardAtlas.Board.Docs
import BoardAtlas.Variant.Draft
import BoardAtlas.Board.Resolver
import BoardAtlas.Command.Run
import BoardAtlas.Main
import BoardAtlas.Proofs.Ascending
import BoardAtlas.Proofs.Writes
import BoardAtlas.Proofs.Json.Lexing
import BoardAtlas.Proofs.Json.Parsing
import BoardAtlas.Proofs.Manifest.Distinct
import BoardAtlas.Proofs.Manifest.Layers
import BoardAtlas.Proofs.Library.Memory
import BoardAtlas.Proofs.Library.Calls
import BoardAtlas.Proofs.Library.Snapshots
import BoardAtlas.Proofs.Library.TableFiles
import BoardAtlas.Proofs.Manifest.Merging
import BoardAtlas.Proofs.Manifest.OwnBase
import BoardAtlas.Proofs.Manifest.Expansion
import BoardAtlas.Proofs.Manifest.Reading
import BoardAtlas.Proofs.Manifest.RoundTrip
import BoardAtlas.Proofs.Text.NaturalOrder
import BoardAtlas.Proofs.Text.StableSorting
import BoardAtlas.Proofs.Board.Batch
import BoardAtlas.Proofs.Variant.Gathered
import BoardAtlas.Proofs.Variant.Sections
import BoardAtlas.Proofs.Variant.Aliases
import BoardAtlas.Proofs.Variant.PinTable
import BoardAtlas.Proofs.Variant.Reordering
import BoardAtlas.Proofs.Variant.Interfaces
import BoardAtlas.Proofs.Board.Reading
import BoardAtlas.Proofs.Board.Depth
import BoardAtlas.Proofs.Number.Hexadecimal
import BoardAtlas.Proofs.Manifest.Untouched
import BoardAtlas.Proofs.Board.FlashMap
import BoardAtlas.Proofs.Shape.Built
import BoardAtlas.Proofs.Shape.Depth
import BoardAtlas.Proofs.Shape.Ids
import BoardAtlas.Proofs.Shape.Turns
import BoardAtlas.Proofs.Board.Hidden
import BoardAtlas.Proofs.Role.Direction
import BoardAtlas.Proofs.Board.PinRoles
import BoardAtlas.Proofs.Geometry.Exact
import BoardAtlas.Proofs.Shape.Moves
import BoardAtlas.Proofs.Shape.Positions
import BoardAtlas.Proofs.Command.Batches
import BoardAtlas.Proofs.Shape.Lookups
import BoardAtlas.Proofs.Board.FlashLayout
import BoardAtlas.Proofs.Variant.ArduinoTable
import BoardAtlas.Proofs.Library.Paths
import BoardAtlas.Proofs.Library.Names
import BoardAtlas.Proofs.Library.Writing
import BoardAtlas.Proofs.Command.Writing
import BoardAtlas.Proofs.Manifest.PathWrites
import BoardAtlas.Proofs.Manifest.Conflicts
import BoardAtlas.Proofs.Manifest.Records
import BoardAtlas.Proofs.Board.Composition
import BoardAtlas.Proofs.Manifest.Conditionals
import BoardAtlas.Proofs.Manifest.Substituted
import BoardAtlas.Proofs.Library.TableLayers
import BoardAtlas.Proofs.Formula.Brackets
import BoardAtlas.Proofs.Formula.Coordinates
import BoardAtlas.Proofs.Shape.Presets
import BoardAtlas.Proofs.Shape.PathEnds
import BoardAtlas.Proofs.Number.Order
import BoardAtlas.Proofs.Number.Rounding
import BoardAtlas.Proofs.Number.Sums
import BoardAtlas.Proofs.Shape.Boxes
import BoardAtlas.Proofs.Shape.ProperBoxes
import BoardAtlas.Proofs.Shape.LabelSlots
import BoardAtlas.Proofs.Role.HiddenNames
import BoardAtlas.Proofs.Variant.FunctionNames
import BoardAtlas.Proofs.Board.ArduinoRows
import BoardAtlas.Proofs.Board.FlashGrammar
import BoardAtlas.Proofs.Board.FunctionCounts
import BoardAtlas.Proofs.Text.DigitRuns
import BoardAtlas.Proofs.Variant.SignalNames
import BoardAtlas.Proofs.Number.Rationals
import BoardAtlas.Proofs.Number.Integers
import BoardAtlas.Proofs.Number.Naturals
import BoardAtlas.Proofs.Number.Units
import BoardAtlas.Proofs.Number.Sizes
import BoardAtlas.Proofs.Role.IndexedTokens
import BoardAtlas.Proofs.Number.Thousands

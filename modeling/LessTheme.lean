import LessTheme.Arithmetic.Evaluation
import LessTheme.Arithmetic.Expression
import LessTheme.Arithmetic.Token
import LessTheme.Collection.OrderedMap
import LessTheme.Collection.SortedMap
import LessTheme.Command.Arguments
import LessTheme.Command.Error
import LessTheme.Command.Extent
import LessTheme.Command.Invocation
import LessTheme.Command.Line
import LessTheme.Command.Listing
import LessTheme.Command.Run
import LessTheme.Compiler.Job
import LessTheme.Compiler.Lessc
import LessTheme.Config.Basic
import LessTheme.Config.Fault
import LessTheme.Config.Section
import LessTheme.Declaration
import LessTheme.Engine.Basic
import LessTheme.Engine.Saving
import LessTheme.File.Fault
import LessTheme.File.Path
import LessTheme.File.Tree
import LessTheme.Json.Object
import LessTheme.Json.Printing
import LessTheme.Json.Quoted
import LessTheme.Lowering.AtRule
import LessTheme.Lowering.ColorAlpha
import LessTheme.Lowering.CustomColor
import LessTheme.Lowering.LineComment
import LessTheme.Lowering.LineEnd
import LessTheme.Lowering.Pipeline
import LessTheme.Lowering.Selector
import LessTheme.Main
import LessTheme.Number.Binary64
import LessTheme.Number.Fixed
import LessTheme.Number.Rounding
import LessTheme.Override.Document
import LessTheme.Override.Layer
import LessTheme.Override.Lookup
import LessTheme.Override.Normal
import LessTheme.Override.Submission
import LessTheme.Program.Assembly
import LessTheme.Program.Defaults
import LessTheme.Program.Fallback
import LessTheme.Program.Hook
import LessTheme.Program.Layer
import LessTheme.Program.Unit
import LessTheme.Proofs.Collection.LastValue
import LessTheme.Proofs.Collection.SortedMap
import LessTheme.Proofs.Declaration.Block
import LessTheme.Proofs.Declaration.Last
import LessTheme.Proofs.Declaration.Line
import LessTheme.Proofs.Engine.Reading
import LessTheme.Proofs.Engine.Request
import LessTheme.Proofs.Engine.RoundTrip
import LessTheme.Proofs.Engine.Run
import LessTheme.Proofs.Engine.Saved
import LessTheme.Proofs.Engine.Storing
import LessTheme.Proofs.File.Path
import LessTheme.Proofs.File.Tree
import LessTheme.Proofs.Json.Object
import LessTheme.Proofs.Lowering.Growth
import LessTheme.Proofs.Lowering.SimpleSelector
import LessTheme.Proofs.Lowering.Expansion
import LessTheme.Proofs.Lowering.Kept
import LessTheme.Proofs.Lowering.Idempotence
import LessTheme.Proofs.Lowering.PlainLines
import LessTheme.Proofs.Override.Document
import LessTheme.Proofs.Override.Lookup
import LessTheme.Proofs.Override.Submission
import LessTheme.Proofs.Program.Assembly
import LessTheme.Proofs.Program.Defaults
import LessTheme.Proofs.Program.OverrideLayer
import LessTheme.Proofs.Reference.Chain
import LessTheme.Proofs.Reference.Cycle
import LessTheme.Proofs.Reference.Fragment
import LessTheme.Proofs.Reference.Resolution
import LessTheme.Proofs.Source.Call
import LessTheme.Proofs.Source.Patch
import LessTheme.Proofs.Source.Segment
import LessTheme.Proofs.Source.Split
import LessTheme.Proofs.Text.Ink
import LessTheme.Proofs.Text.Lines
import LessTheme.Proofs.Text.Pieces
import LessTheme.Proofs.Text.Trim
import LessTheme.Proofs.Text.Utf8
import LessTheme.Proofs.Theme.Outcome
import LessTheme.Proofs.Theme.Unit
import LessTheme.Proofs.Variable.Agreement
import LessTheme.Proofs.Variable.Export
import LessTheme.Proofs.Variable.Resolver
import LessTheme.Proofs.World.FileStore
import LessTheme.Proofs.World.Refinement
import LessTheme.Proofs.World.StoreCall
import LessTheme.Reference.Cycle
import LessTheme.Reference.Fragment
import LessTheme.Reference.Resolution
import LessTheme.Reference.Substitution
import LessTheme.Source.Call
import LessTheme.Source.Cell
import LessTheme.Source.Delimiter
import LessTheme.Source.Patch
import LessTheme.Source.Segment
import LessTheme.Source.Split
import LessTheme.Text.Ascii
import LessTheme.Text.Basic
import LessTheme.Text.Capital
import LessTheme.Text.Hexadecimal
import LessTheme.Text.Quoted
import LessTheme.Text.Reader
import LessTheme.Text.Utf8
import LessTheme.Text.WhiteSpace
import LessTheme.Text.WordChar
import LessTheme.Theme.Error
import LessTheme.Theme.Layout
import LessTheme.Theme.Source
import LessTheme.Toml.Document
import LessTheme.Toml.Node
import LessTheme.Toml.Quoted
import LessTheme.Toml.Scalar
import LessTheme.Toml.Value
import LessTheme.Variable.Cache
import LessTheme.Variable.Catalog
import LessTheme.Variable.Inference
import LessTheme.Variable.Kind
import LessTheme.Variable.Label
import LessTheme.Variable.Resolver
import LessTheme.World.Fault
import LessTheme.World.Store
import LessTheme.Proofs.Lowering.AtRule
import LessTheme.Proofs.Engine.Unreadable
import LessTheme.Proofs.Arithmetic.Written
import LessTheme.Proofs.Program.Fallback
import LessTheme.Proofs.Override.Blank
import LessTheme.Proofs.Variable.Blank
import LessTheme.Proofs.Engine.Blank
import LessTheme.Proofs.Engine.Caching
import LessTheme.Proofs.Arithmetic.Grammar
import LessTheme.Proofs.Arithmetic.Token
import LessTheme.Proofs.Arithmetic.Formula
import LessTheme.Proofs.Arithmetic.Splicing
import LessTheme.Proofs.Reference.Arithmetic
import LessTheme.Proofs.Source.Nesting
import LessTheme.Proofs.Source.Part
import LessTheme.Proofs.Source.Closed
import LessTheme.Proofs.Source.Within
import LessTheme.Proofs.Lowering.ColorAlpha
import LessTheme.Proofs.Lowering.LineComment
import LessTheme.Proofs.Lowering.CustomColor
import LessTheme.Proofs.Lowering.Statement
import LessTheme.Proofs.Lowering.Selector
import LessTheme.Proofs.Reference.Expansion
import LessTheme.Proofs.Reference.Convergence
import LessTheme.Proofs.Lowering.ColorTerm
import LessTheme.Proofs.Declaration.Parts
import LessTheme.Proofs.Lowering.SelectorNumber
import LessTheme.Proofs.Lowering.ForeignKeyword
import LessTheme.Proofs.Lowering.DeclarationAtRule
import LessTheme.Proofs.Source.Collapse
import LessTheme.Proofs.Lowering.BoundSelector
import LessTheme.Proofs.Lowering.Placeholder
import LessTheme.Proofs.Program.GlobalDefaults
import LessTheme.Proofs.Program.Unit
import LessTheme.Proofs.Program.LiveDeclaration
import LessTheme.Proofs.Collection.OrderedMap
import LessTheme.Proofs.Variable.Reading
import LessTheme.Proofs.Variable.Grouping
import LessTheme.Proofs.Program.MissingUnit
import LessTheme.Proofs.Override.Terminator
import LessTheme.Proofs.Reference.Passes
import LessTheme.Proofs.Variable.Budget
import LessTheme.Proofs.File.Writing
import LessTheme.Proofs.World.Replaced
import LessTheme.Proofs.Engine.SaveCourse
import LessTheme.Proofs.Engine.Saving
import LessTheme.Proofs.Override.Listing
import LessTheme.Proofs.Number.Fixed
import LessTheme.Proofs.Arithmetic.Result
import LessTheme.Proofs.Declaration.Grammar
import LessTheme.Proofs.Override.Normal
import LessTheme.Proofs.Source.CallNesting
import LessTheme.Proofs.Source.LetterCase
import LessTheme.Proofs.Source.Partition
import LessTheme.Proofs.Variable.Inference
import LessTheme.Proofs.Reference.Search
import LessTheme.Proofs.Source.TopLevel
import LessTheme.Proofs.Source.Edit
import LessTheme.Proofs.Source.Byte
import LessTheme.Proofs.Source.ByteSearch
import LessTheme.Proofs.Lowering.AtRuleEdit
import LessTheme.Proofs.Lowering.ColorEdit
import LessTheme.Proofs.Lowering.SelectorEdit

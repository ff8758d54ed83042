import FrontEnd.Location
import FrontEnd.Token.Basic
import FrontEnd.Token.Spelling
import FrontEnd.Token.Class
import FrontEnd.Token.Lexer
import FrontEnd.Token.Stream
import FrontEnd.ValueType
import FrontEnd.Syntax.Operand
import FrontEnd.Syntax.Value
import FrontEnd.Syntax.Statement
import FrontEnd.Outline.Basic
import FrontEnd.Outline.Syntax
import FrontEnd.Diagnostic.Syntax
import FrontEnd.Diagnostic.Semantic
import FrontEnd.Diagnostic.Basic
import FrontEnd.Parsing.Basic
import FrontEnd.Parsing.Operand
import FrontEnd.Parsing.Value
import FrontEnd.Parsing.Statement
import FrontEnd.Parsing.Unit
import FrontEnd.Analysis.Action
import FrontEnd.Analysis.Inference
import FrontEnd.Analysis.Pass
import FrontEnd.Analysis.Registration
import FrontEnd.Analysis.Check
import FrontEnd.Analysis.Validation
import FrontEnd.Analysis.Unit
import FrontEnd.Compilation.Basic
import FrontEnd.Compilation.Dump
import FrontEnd.CommandLine.Arguments
import FrontEnd.CommandLine.Report
import FrontEnd.Main
import FrontEnd.Proofs.Grammar.Operand
import FrontEnd.Proofs.Parsing.Operand
import FrontEnd.Proofs.Grammar.Program
import FrontEnd.Proofs.Parsing.Combinators
import FrontEnd.Proofs.Parsing.Soundness
import FrontEnd.Proofs.Parsing.Silent
import FrontEnd.Proofs.Parsing.Completeness.Value
import FrontEnd.Proofs.Parsing.Completeness.Statement
import FrontEnd.Proofs.Parsing.Completeness.Unit
import FrontEnd.Proofs.Parsing.Recognition
import FrontEnd.Proofs.Parsing.Failing.Record
import FrontEnd.Proofs.Parsing.Failing.Combinators
import FrontEnd.Proofs.Parsing.Failing.Productions
import FrontEnd.Proofs.Parsing.Failing.Unit
import FrontEnd.Proofs.Grammar.Tokens
import FrontEnd.Proofs.Grammar.Writing
import FrontEnd.Proofs.Parsing.CleanStop
import FrontEnd.Proofs.Token.Extent
import FrontEnd.Proofs.Token.Position
import FrontEnd.Proofs.Token.Tiling
import FrontEnd.Proofs.Symbol.Table
import FrontEnd.Proofs.Symbol.Calls
import FrontEnd.Proofs.Syntax.Leaves
import FrontEnd.Proofs.Registration.Basic
import FrontEnd.Proofs.Typing.Rules
import FrontEnd.Proofs.Typing.Inference
import FrontEnd.Proofs.Typing.Check
import FrontEnd.Proofs.Typing.Walk
import FrontEnd.Proofs.Typing.Program
import FrontEnd.Proofs.Relabeling.Syntax
import FrontEnd.Proofs.Relabeling.Diagnostic
import FrontEnd.Proofs.Relabeling.Operand
import FrontEnd.Proofs.Relabeling.Parser
import FrontEnd.Proofs.Relabeling.Productions
import FrontEnd.Proofs.Relabeling.Stream
import FrontEnd.Proofs.Relabeling.Environment
import FrontEnd.Proofs.Relabeling.Check
import FrontEnd.Proofs.Relabeling.Analysis
import FrontEnd.Proofs.Relabeling.Names
import FrontEnd.Proofs.Relabeling.Outline
import FrontEnd.Proofs.Relabeling.Layout
import FrontEnd.Proofs.Isolation.Agreement
import FrontEnd.Proofs.Symbol.Part
import FrontEnd.Proofs.Isolation.Passes
import FrontEnd.Proofs.Isolation.Functions
import FrontEnd.Proofs.Token.Shape
import FrontEnd.Proofs.Token.Opening
import FrontEnd.Proofs.Token.Word
import FrontEnd.Proofs.Token.Rendering
import FrontEnd.Proofs.Places.Semantic
import FrontEnd.Proofs.Places.Compilation
import FrontEnd.Proofs.Places.Order
import FrontEnd.Proofs.Registration.First
import FrontEnd.Proofs.Registration.Returns
import FrontEnd.Proofs.Naming.Uses
import FrontEnd.Proofs.Naming.Agreement
import FrontEnd.Proofs.Naming.Validation
import FrontEnd.Proofs.Typing.Retyping
import FrontEnd.Proofs.Registration.Order
import FrontEnd.Proofs.Registration.Settled
import FrontEnd.Proofs.Token.Reach
import FrontEnd.Proofs.Token.Concatenation
import FrontEnd.Proofs.Token.Rereading
import FrontEnd.Proofs.Token.Priority
import FrontEnd.Proofs.Grammar.Map
import FrontEnd.Proofs.Grammar.Operands
import FrontEnd.Proofs.Parsing.Spelled
import FrontEnd.Proofs.Parsing.Printed
import FrontEnd.Proofs.Outline.Label
import FrontEnd.Proofs.Outline.Value
import FrontEnd.Proofs.Outline.Reading
import FrontEnd.Proofs.Outline.Indentation
import FrontEnd.Proofs.Typing.Homogeneous
import FrontEnd.Proofs.Typing.Grouping
import FrontEnd.Proofs.Registration.Named
import FrontEnd.Proofs.Symbol.Columns
import FrontEnd.Proofs.Parsing.Progress.Cursor
import FrontEnd.Proofs.Parsing.Progress.Loops
import FrontEnd.Proofs.Parsing.Progress.Nesting
import FrontEnd.Proofs.Parsing.Progress.Productions

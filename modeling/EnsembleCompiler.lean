import EnsembleCompiler.Main
import EnsembleCompiler.Proofs.Assembly.ProperTree
import EnsembleCompiler.Proofs.Assembly.Walk
import EnsembleCompiler.Proofs.Assembly.Build
import EnsembleCompiler.Proofs.Binary.Numeral
import EnsembleCompiler.Proofs.Target.Lexing
import EnsembleCompiler.Proofs.Binary.Rounding
import EnsembleCompiler.Proofs.Target.Numbers
import EnsembleCompiler.Proofs.Target.Erasure
import EnsembleCompiler.Proofs.Target.Reading
import EnsembleCompiler.Proofs.Target.Phrases
import EnsembleCompiler.Proofs.Target.Blocks
import EnsembleCompiler.Proofs.Emission.Lines
import EnsembleCompiler.Proofs.Emission.Functions
import EnsembleCompiler.Proofs.Emission.Scoring
import EnsembleCompiler.Proofs.Emission.ReadBack
import EnsembleCompiler.Proofs.Compilation
import EnsembleCompiler.Proofs.Meaning.Evaluation
import EnsembleCompiler.Proofs.Meaning.Rules
import EnsembleCompiler.Proofs.Meaning.Scores
import EnsembleCompiler.Proofs.Meaning.Generated
import EnsembleCompiler.Proofs.Meaning.Sums
import EnsembleCompiler.Proofs.Binary.Shortest
import EnsembleCompiler.Proofs.Meaning.Compiled
import EnsembleCompiler.Proofs.Assembly.Truncation
import EnsembleCompiler.Proofs.Assembly.Rounds
import EnsembleCompiler.Proofs.Emission.Scope
import EnsembleCompiler.Proofs.Emission.Closed
import EnsembleCompiler.Target.Nesting
import EnsembleCompiler.Proofs.Target.Brackets
import EnsembleCompiler.Proofs.Target.Keeping
import EnsembleCompiler.Proofs.Target.Constructs
import EnsembleCompiler.Proofs.Target.Declarations
import EnsembleCompiler.Proofs.Target.Enclosure
import EnsembleCompiler.Proofs.Target.Links
import EnsembleCompiler.Proofs.Target.Levels
import EnsembleCompiler.Proofs.Target.Recursion
import EnsembleCompiler.Proofs.Target.Locations
import EnsembleCompiler.Proofs.Json.Rules
import EnsembleCompiler.Proofs.Json.Syntax
import EnsembleCompiler.Proofs.Json.Numerals
import EnsembleCompiler.Proofs.Json.Strings
import EnsembleCompiler.Proofs.Json.Skipping
import EnsembleCompiler.Proofs.Json.Lists
import EnsembleCompiler.Proofs.Json.Meaning
import EnsembleCompiler.Proofs.Json.Shapes
import EnsembleCompiler.Proofs.Document.Integers
import EnsembleCompiler.Proofs.Document.Texts
import EnsembleCompiler.Proofs.Json.Members
import EnsembleCompiler.Proofs.Document.Layouts
import EnsembleCompiler.Proofs.Document.Decoding
import EnsembleCompiler.Proofs.Json.Places
import EnsembleCompiler.Proofs.Document.Spellings
import EnsembleCompiler.Proofs.Diagnostic.ShownLine
import EnsembleCompiler.Proofs.Target.Lookahead
import EnsembleCompiler.Proofs.Target.Layout
import EnsembleCompiler.Proofs.Target.Writing
import EnsembleCompiler.Proofs.Target.Transcripts
import EnsembleCompiler.Proofs.Target.Marks
import EnsembleCompiler.Proofs.Emission.Characters
import EnsembleCompiler.Proofs.Emission.CutOff
import EnsembleCompiler.Proofs.Assembly.Measures
import EnsembleCompiler.Proofs.Emission.Indentation
import EnsembleCompiler.Proofs.Target.Tiling
import EnsembleCompiler.Proofs.Target.Grouping
import EnsembleCompiler.Proofs.Target.Precedence
import EnsembleCompiler.Proofs.Target.Parts
import EnsembleCompiler.Proofs.Target.Building
import EnsembleCompiler.Proofs.Target.PhraseParts
import EnsembleCompiler.Proofs.Target.ExpressionParts
import EnsembleCompiler.Proofs.Target.Holding
import EnsembleCompiler.Proofs.Target.ItemParts
import EnsembleCompiler.Proofs.Target.Spans
import EnsembleCompiler.Proofs.Target.Progress
import EnsembleCompiler.Proofs.Target.Quoting
import EnsembleCompiler.Proofs.Target.NumberForms
import EnsembleCompiler.Proofs.Target.TokenFaults
import EnsembleCompiler.Proofs.Target.NumberTokens
import EnsembleCompiler.Proofs.Document.Assured
import EnsembleCompiler.Proofs.Assembly.Relayout
import EnsembleCompiler.Proofs.Target.Surroundings
import EnsembleCompiler.Proofs.Target.Mirroring
import EnsembleCompiler.Proofs.Target.FirstError
import EnsembleCompiler.Proofs.Target.Joining
import EnsembleCompiler.Proofs.Target.Concatenation
import EnsembleCompiler.Proofs.CommandLine.Paths
import EnsembleCompiler.Proofs.CommandLine.Effects
import EnsembleCompiler.Proofs.CommandLine.Builds
import EnsembleCompiler.Proofs.Target.Identifiers
import EnsembleCompiler.Proofs.Diagnostic.Positions

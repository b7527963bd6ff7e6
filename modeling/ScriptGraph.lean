import ScriptGraph.Order.Replacement
import ScriptGraph.Text.Basic
import ScriptGraph.Json.Compact
import ScriptGraph.Json.Literal
import ScriptGraph.Json.Document
import ScriptGraph.Builder.Run
import ScriptGraph.Store.Basic
import ScriptGraph.Analysis.Basic
import ScriptGraph.Emission.Layout
import ScriptGraph.Emission.Rendering
import ScriptGraph.Compile.Basic
import ScriptGraph.Program.Lowering
import ScriptGraph.Host.Value
import ScriptGraph.Ecma.Expression
import ScriptGraph.Proofs.Builder.Growth
import ScriptGraph.Proofs.Builder.Operation
import ScriptGraph.Proofs.Builder.Soundness
import ScriptGraph.Proofs.Analysis.Reachability
import ScriptGraph.Proofs.Analysis.LandingCounts
import ScriptGraph.Proofs.Graph.Acyclic
import ScriptGraph.Proofs.Analysis.Settling
import ScriptGraph.Proofs.Graph.Nesting
import ScriptGraph.Proofs.Analysis.Resolution
import ScriptGraph.Proofs.Order.DepthFirst
import ScriptGraph.Proofs.Order.FirstOccurrences
import ScriptGraph.Proofs.Analysis.DeclarationOrder
import ScriptGraph.Proofs.Analysis.Naming
import ScriptGraph.Proofs.Emission.Sites
import ScriptGraph.Proofs.Emission.Writing
import ScriptGraph.Proofs.Emission.Completion
import ScriptGraph.Proofs.Emission.Flow
import ScriptGraph.Proofs.Emission.Counts
import ScriptGraph.Proofs.Emission.Scoping
import ScriptGraph.Proofs.Emission.Occurrences
import ScriptGraph.Proofs.Emission.Initialization
import ScriptGraph.Proofs.Compile.Script
import ScriptGraph.Proofs.Emission.Recursion
import ScriptGraph.Proofs.Analysis.Classes
import ScriptGraph.Proofs.Builder.StoreReferences
import ScriptGraph.Proofs.Emission.Pieces
import ScriptGraph.Proofs.Emission.Suspension
import ScriptGraph.Proofs.Store.Registration
import ScriptGraph.Proofs.Emission.Splicing
import ScriptGraph.Proofs.Compile.History
import ScriptGraph.Proofs.Compile.Indices
import ScriptGraph.Proofs.Graph.Visibility
import ScriptGraph.Proofs.Program.Lexical
import ScriptGraph.Proofs.Program.Lowering
import ScriptGraph.Proofs.Program.Faults
import ScriptGraph.Proofs.Emission.Substitution
import ScriptGraph.Proofs.Emission.Unfolding
import ScriptGraph.Proofs.Compile.Names
import ScriptGraph.Proofs.Text.Markup
import ScriptGraph.Proofs.Builder.Drafts
import ScriptGraph.Proofs.Builder.Harmless
import ScriptGraph.Proofs.Compile.Markup
import ScriptGraph.Proofs.Analysis.Leaks
import ScriptGraph.Proofs.Host.Instances
import ScriptGraph.Proofs.Host.Sharing
import ScriptGraph.Proofs.Program.Core
import ScriptGraph.Proofs.Program.Labelling
import ScriptGraph.Proofs.Program.Resolution
import ScriptGraph.Proofs.Program.UnknownNames
import ScriptGraph.Proofs.Analysis.Visits
import ScriptGraph.Proofs.Compile.Repetition
import ScriptGraph.Proofs.Json.Reading
import ScriptGraph.Proofs.Json.Roundtrip
import ScriptGraph.Proofs.Program.Codec
import ScriptGraph.Proofs.Graph.Copies
import ScriptGraph.Proofs.Analysis.Copies
import ScriptGraph.Proofs.Emission.Copies
import ScriptGraph.Proofs.Compile.Copies
import ScriptGraph.Proofs.Graph.Mirrors
import ScriptGraph.Proofs.Program.Similarity
import ScriptGraph.Proofs.Program.Placing
import ScriptGraph.Proofs.Program.Pairs
import ScriptGraph.Proofs.Program.Mirroring
import ScriptGraph.Proofs.Program.Lockstep
import ScriptGraph.Proofs.Program.Varied
import ScriptGraph.Proofs.Program.Renaming
import ScriptGraph.Proofs.Program.Rearranging
import ScriptGraph.Proofs.Analysis.Decisions
import ScriptGraph.Proofs.Builder.History
import ScriptGraph.Proofs.Builder.Conduct
import ScriptGraph.Proofs.Builder.Budget
import ScriptGraph.Proofs.Program.Size
import ScriptGraph.Proofs.Analysis.Exhaustion
import ScriptGraph.Proofs.Program.Termination
import ScriptGraph.Proofs.Operators.Phrase
import ScriptGraph.Proofs.Operators.Reading
import ScriptGraph.Proofs.Operators.Nodes
import ScriptGraph.Proofs.Operators.Script
import ScriptGraph.Proofs.Emission.Registering
import ScriptGraph.Proofs.Compile.Failure
import ScriptGraph.Proofs.Builder.Handles
import ScriptGraph.Proofs.Analysis.Propagation
import ScriptGraph.Proofs.Analysis.Cycles
import ScriptGraph.Proofs.Builder.Slots
import ScriptGraph.Proofs.Emission.WrittenOut
import ScriptGraph.Proofs.Emission.References
import ScriptGraph.Proofs.Compile.References
import ScriptGraph.Proofs.Analysis.Dependence
import ScriptGraph.Proofs.Analysis.Numerals
import ScriptGraph.Proofs.Graph.Redirection
import ScriptGraph.Proofs.Analysis.Transparency
import ScriptGraph.Proofs.Emission.Placements
import ScriptGraph.Proofs.Emission.Delimiters
import ScriptGraph.Proofs.Compile.Delimiting
import ScriptGraph.Proofs.Json.Literals
import ScriptGraph.Proofs.Builder.StoreNodes
import ScriptGraph.Proofs.Emission.Contents
import ScriptGraph.Proofs.Text.Printed
import ScriptGraph.Proofs.Compile.Splicing
import ScriptGraph.Proofs.Emission.Spelling
import ScriptGraph.Proofs.Host.Records
import ScriptGraph.Proofs.Compile.Objects
import ScriptGraph.Proofs.Emission.Makeup
import ScriptGraph.Proofs.Program.Calls
import ScriptGraph.Proofs.Host.Conversions
import ScriptGraph.Proofs.Host.Recording
import ScriptGraph.Proofs.Host.Histories
import ScriptGraph.Proofs.Emission.Margins
import ScriptGraph.Proofs.Compile.Returning
import ScriptGraph.Proofs.Text.Tokens
import ScriptGraph.Proofs.Operators.Operands
import ScriptGraph.Proofs.Compile.Numbers
import ScriptGraph.Proofs.Graph.Forests
import ScriptGraph.Proofs.Builder.Arena

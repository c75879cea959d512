import ScriptGraph.Ambient.Library
import ScriptGraph.Ambient.Text
import ScriptGraph.Analysis
import ScriptGraph.Binding.Basic
import ScriptGraph.Binding.Declaration
import ScriptGraph.Binding.Members
import ScriptGraph.Binding.Modules
import ScriptGraph.Binding.Pattern
import ScriptGraph.Binding.Store
import ScriptGraph.Binding.Walk
import ScriptGraph.CommandLine.Arguments
import ScriptGraph.CommandLine.Basic
import ScriptGraph.CommandLine.Markup
import ScriptGraph.CommandLine.Report
import ScriptGraph.Dialect
import ScriptGraph.Graph.Basic
import ScriptGraph.Graph.Builder
import ScriptGraph.Graph.Dot
import ScriptGraph.Graph.Selection
import ScriptGraph.Inference.Annotations
import ScriptGraph.Inference.Answers
import ScriptGraph.Inference.Basic
import ScriptGraph.Inference.Declarations
import ScriptGraph.Inference.Expressions
import ScriptGraph.Inference.Inquiry
import ScriptGraph.Inference.Members
import ScriptGraph.Inference.Signatures
import ScriptGraph.Interface.Exports
import ScriptGraph.Interface.Imports
import ScriptGraph.Json.Basic
import ScriptGraph.Json.Printer
import ScriptGraph.Json.Reader
import ScriptGraph.Main
import ScriptGraph.Memo
import ScriptGraph.Path
import ScriptGraph.Proofs.Analysis.Settings
import ScriptGraph.Proofs.Binding.Changes
import ScriptGraph.Proofs.Binding.Constructs
import ScriptGraph.Proofs.Binding.Declared
import ScriptGraph.Proofs.Binding.Frame
import ScriptGraph.Proofs.Binding.Growth
import ScriptGraph.Proofs.Binding.Keys
import ScriptGraph.Proofs.Binding.Links
import ScriptGraph.Proofs.Binding.MemberTables
import ScriptGraph.Proofs.Binding.Scopes
import ScriptGraph.Proofs.Binding.SelfContained
import ScriptGraph.Proofs.Binding.SourceOrder
import ScriptGraph.Proofs.Binding.Steps
import ScriptGraph.Proofs.Binding.Walk
import ScriptGraph.Proofs.DepthFirst
import ScriptGraph.Proofs.Ensures
import ScriptGraph.Proofs.Graph.Agreement
import ScriptGraph.Proofs.Graph.Constructions
import ScriptGraph.Proofs.Graph.Dot
import ScriptGraph.Proofs.Graph.Edges
import ScriptGraph.Proofs.Graph.Identifiers
import ScriptGraph.Proofs.Graph.Requests
import ScriptGraph.Proofs.Graph.Selection
import ScriptGraph.Proofs.Graph.Sites
import ScriptGraph.Proofs.Graph.Targets
import ScriptGraph.Proofs.Graph.WellFormed
import ScriptGraph.Proofs.Inference.Annotations
import ScriptGraph.Proofs.Inference.Answers
import ScriptGraph.Proofs.Inference.Climbing
import ScriptGraph.Proofs.Inference.Composition
import ScriptGraph.Proofs.Inference.Constructors
import ScriptGraph.Proofs.Inference.Consultations
import ScriptGraph.Proofs.Inference.Cycles
import ScriptGraph.Proofs.Inference.DeclaredParts
import ScriptGraph.Proofs.Inference.Distinction
import ScriptGraph.Proofs.Inference.Expressions
import ScriptGraph.Proofs.Inference.Growth
import ScriptGraph.Proofs.Inference.Inheritance
import ScriptGraph.Proofs.Inference.Learning
import ScriptGraph.Proofs.Inference.Members
import ScriptGraph.Proofs.Inference.NormalForm
import ScriptGraph.Proofs.Inference.ObjectCalls
import ScriptGraph.Proofs.Inference.ObjectTypes
import ScriptGraph.Proofs.Inference.Offers
import ScriptGraph.Proofs.Inference.Overloads
import ScriptGraph.Proofs.Inference.Parameters
import ScriptGraph.Proofs.Inference.Patterns
import ScriptGraph.Proofs.Inference.Places
import ScriptGraph.Proofs.Inference.Recollection
import ScriptGraph.Proofs.Inference.Repetition
import ScriptGraph.Proofs.Inference.Requests
import ScriptGraph.Proofs.Inference.Returns
import ScriptGraph.Proofs.Inference.Signatures
import ScriptGraph.Proofs.Inference.Substitution
import ScriptGraph.Proofs.Inference.Surroundings
import ScriptGraph.Proofs.Inference.ThisMembers
import ScriptGraph.Proofs.Inference.ThisTypes
import ScriptGraph.Proofs.Inference.Unions
import ScriptGraph.Proofs.Interface.Exports
import ScriptGraph.Proofs.Interface.Imports
import ScriptGraph.Proofs.Lasts
import ScriptGraph.Proofs.Matches
import ScriptGraph.Proofs.Path
import ScriptGraph.Proofs.Sites.Folding
import ScriptGraph.Proofs.Sites.Location
import ScriptGraph.Proofs.Sites.MemberCalls
import ScriptGraph.Proofs.Sites.Ranking
import ScriptGraph.Proofs.Sites.SharedStarts
import ScriptGraph.Proofs.Sites.Targets
import ScriptGraph.Proofs.Syntax.Imports
import ScriptGraph.Proofs.Syntax.Kinds
import ScriptGraph.Proofs.Syntax.Layout
import ScriptGraph.Proofs.Syntax.Names
import ScriptGraph.Proofs.Syntax.Placement
import ScriptGraph.Proofs.Syntax.Reading.Declarations
import ScriptGraph.Proofs.Syntax.Reading.Expressions
import ScriptGraph.Proofs.Syntax.Reading.Rules
import ScriptGraph.Proofs.Syntax.Reading.Statements
import ScriptGraph.Proofs.Syntax.Reading.Types
import ScriptGraph.Proofs.Syntax.Standing
import ScriptGraph.Proofs.Text.Clamp
import ScriptGraph.Proofs.Text.Offsets
import ScriptGraph.Proofs.Text.Units
import ScriptGraph.Proofs.Types.Legibility
import ScriptGraph.Proofs.Types.Replacement
import ScriptGraph.Proofs.Types.Within
import ScriptGraph.Proofs.Workspace.Coherence
import ScriptGraph.Proofs.Workspace.ExportSearch
import ScriptGraph.Proofs.Workspace.ExportedNames
import ScriptGraph.Proofs.Workspace.FirstAnswers
import ScriptGraph.Proofs.Workspace.Growth
import ScriptGraph.Proofs.Workspace.Imports
import ScriptGraph.Proofs.Workspace.Listing
import ScriptGraph.Proofs.Workspace.Namespaces
import ScriptGraph.Proofs.Workspace.Reexports
import ScriptGraph.Proofs.Workspace.Resolution
import ScriptGraph.Proofs.Workspace.Size
import ScriptGraph.Proofs.Workspace.Stability
import ScriptGraph.Proofs.Workspace.Surroundings
import ScriptGraph.Settings.Basic
import ScriptGraph.Settings.Toml
import ScriptGraph.Sites.Location
import ScriptGraph.Sites.Ranking
import ScriptGraph.Sites.Target
import ScriptGraph.Source
import ScriptGraph.Syntax.Grammar.Basic
import ScriptGraph.Syntax.Grammar.Classes
import ScriptGraph.Syntax.Grammar.Expressions
import ScriptGraph.Syntax.Grammar.Functions
import ScriptGraph.Syntax.Grammar.Markup
import ScriptGraph.Syntax.Grammar.Modules
import ScriptGraph.Syntax.Grammar.Patterns
import ScriptGraph.Syntax.Grammar.Statements
import ScriptGraph.Syntax.Grammar.Types
import ScriptGraph.Syntax.Kind
import ScriptGraph.Syntax.LineEnd
import ScriptGraph.Syntax.Node
import ScriptGraph.Syntax.Reader
import ScriptGraph.Syntax.Scanner
import ScriptGraph.Syntax.Tree
import ScriptGraph.Table
import ScriptGraph.Text.Blank
import ScriptGraph.Text.Clamp
import ScriptGraph.Text.Quoted
import ScriptGraph.Text.Units
import ScriptGraph.Types.Basic
import ScriptGraph.Types.Display
import ScriptGraph.Types.Substitution
import ScriptGraph.Workspace.Alias
import ScriptGraph.Workspace.Basic
import ScriptGraph.Workspace.Disk
import ScriptGraph.Workspace.Exports
import ScriptGraph.Workspace.Resolution

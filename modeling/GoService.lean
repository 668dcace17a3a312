import GoService.Data.KnownNames
import GoService.Main
import GoService.Proofs.Resolution.Catalog
import GoService.SymbolTable
import GoService.Proofs.Resolution.Derivation
import GoService.Proofs.Resolution.Descent
import GoService.Proofs.Resolution.Depth
import GoService.Proofs.Resolution.Growth
import GoService.Proofs.Resolution.Closure
import GoService.Proofs.Service.Graph
import GoService.Proofs.Service.Reachability
import GoService.Proofs.Resolution.Meaning
import GoService.Proofs.Resolution.Faithful
import GoService.Proofs.Resolution.History
import GoService.Proofs.Resolution.References
import GoService.Proofs.Resolution.Scope
import GoService.Proofs.Resolution.Termination
import GoService.Proofs.Resolution.Walk
import GoService.Proofs.Resolution.Recursion
import GoService.Proofs.Resolution.Cycles
import GoService.Proofs.Resolution.Adequacy
import GoService.Proofs.Resolution.Places
import GoService.Proofs.Resolution.Qualifiers
import GoService.Proofs.Resolution.Replay
import GoService.Proofs.Resolution.Aliases
import GoService.Proofs.Resolution.Registered
import GoService.Proofs.Resolution.WellFormed
import GoService.Proofs.Resolution.Independence
import GoService.Proofs.Service.Order
import GoService.Proofs.Service.Permissive
import GoService.Proofs.Lists
import GoService.Proofs.Text.Bytes
import GoService.Proofs.Source.LiteralValues
import GoService.Proofs.Package.Sources
import GoService.Proofs.Project.Directories
import GoService.Proofs.Service.Groups
import GoService.Proofs.Service.Aggregation
import GoService.Proofs.Service.Coverage
import GoService.Proofs.Source.Lexemes
import GoService.Proofs.Source.Placement
import GoService.Proofs.Source.Semicolons
import GoService.Proofs.Dictionaries
import GoService.Proofs.Service.Index
import GoService.Proofs.Source.Nesting
import GoService.Proofs.Source.Runs
import GoService.Proofs.Source.Totality
import GoService.Proofs.Source.Brackets
import GoService.Proofs.Source.CleanRuns
import GoService.Proofs.Source.CleanTypes
import GoService.Proofs.Source.Balance
import GoService.Proofs.Source.CommentGroups
import GoService.Proofs.Source.Documentation
import GoService.Proofs.Service.ParameterLists
import GoService.Proofs.Service.Slots
import GoService.Proofs.Service.Verdict
import GoService.Proofs.Source.RoundTrip
import GoService.Proofs.Project.Location
import GoService.Proofs.Source.FileBuilds
import GoService.Proofs.Project.Ignored
import GoService.Proofs.Source.LineEndings
import GoService.Proofs.Text.TagLookup
import GoService.Proofs.Text.Slices
import GoService.Proofs.Text.Cuts
import GoService.Proofs.Project.ManifestTokens
import GoService.Proofs.Project.ByteCuts
import GoService.Proofs.Project.ManifestLayout
import GoService.Proofs.Source.CommentTexts
import GoService.Proofs.Source.FileSpans
import GoService.Proofs.Text.Lines
import GoService.Proofs.Source.CommentRows
import GoService.Proofs.Annotation.Lines
import GoService.Proofs.Annotation.Readings
import GoService.Proofs.Annotation.Writing
import GoService.Proofs.Annotation.Fences
import GoService.Proofs.Project.Replacements
import GoService.Proofs.Project.ModuleCache
import GoService.Proofs.Project.NormalPaths
import GoService.Proofs.Project.PackageTrees
import GoService.Proofs.SymbolTables
import GoService.Proofs.Source.Positions
import GoService.Proofs.Project.Lookups
import GoService.Proofs.Project.MetSources
import GoService.Proofs.Project.Listings
import GoService.Proofs.Data.Spellings
import GoService.Proofs.Data.RoundTrips
import GoService.Proofs.Data.StructTables
import GoService.Proofs.Source.Lookahead

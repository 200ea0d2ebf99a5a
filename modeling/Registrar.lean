import Registrar.Artifact.Basic
import Registrar.Artifact.Body
import Registrar.Artifact.Literal
import Registrar.Artifact.Source
import Registrar.Attributes
import Registrar.Build.Batch
import Registrar.Build.Cache
import Registrar.Build.Discovery
import Registrar.Build.Error
import Registrar.Build.Generate
import Registrar.Build.Settings
import Registrar.CommandLine.Basic
import Registrar.CommandLine.Help
import Registrar.CommandLine.Listing
import Registrar.CommandLine.Run
import Registrar.Declaration
import Registrar.Dict
import Registrar.Digest
import Registrar.Entity.Basic
import Registrar.Entity.Graph
import Registrar.Entity.Report
import Registrar.Enumeration
import Registrar.FileTree.Basic
import Registrar.FileTree.Change
import Registrar.Function
import Registrar.Header
import Registrar.Json.Basic
import Registrar.Json.Reader
import Registrar.MacroTable
import Registrar.Main
import Registrar.Marker
import Registrar.Moment
import Registrar.Number.Decimal
import Registrar.Number.Single
import Registrar.Path
import Registrar.ProjectFile.Basic
import Registrar.ProjectFile.Filters
import Registrar.Property.Basic
import Registrar.Property.Classify
import Registrar.Text.Basic
import Registrar.Text.Bracket
import Registrar.Text.CharClass
import Registrar.Text.CharRange
import Registrar.Text.Comment
import Registrar.Text.Place
import Registrar.Text.Search
import Registrar.Toml.Basic
import Registrar.Toml.Reader
import Registrar.TypeName
import Registrar.Utf8
import Registrar.Proofs.Brackets
import Registrar.Proofs.Comments
import Registrar.Proofs.PropertyRecovery
import Registrar.Proofs.FunctionRecovery
import Registrar.Proofs.QuotedValues
import Registrar.Proofs.Classification
import Registrar.Proofs.JsonRoundTrip
import Registrar.Proofs.MacroCalls
import Registrar.Proofs.SourceNames
import Registrar.Proofs.RegistrationArity
import Registrar.Proofs.CacheRoundTrip
import Registrar.Proofs.Emission
import Registrar.Proofs.EntityNames
import Registrar.Proofs.BuildFrame
import Registrar.Proofs.Rendering
import Registrar.Proofs.IncrementalBuild
import Registrar.Proofs.Sweeping
import Registrar.Proofs.OrphanedArtifacts
import Registrar.Proofs.ForcedBuild
import Registrar.Proofs.CacheEntries
import Registrar.Proofs.CurrentArtifacts
import Registrar.Proofs.UnparsedHeaders
import Registrar.Proofs.Directories
import Registrar.Proofs.HeaderSearch
import Registrar.Proofs.HeaderOutlines
import Registrar.Proofs.SameFiles
import Registrar.Proofs.RepeatedBuild
import Registrar.Proofs.Readings
import Registrar.Proofs.ElementOpenings
import Registrar.Proofs.Insertions
import Registrar.Proofs.ProjectItems
import Registrar.Proofs.FilterMarks
import Registrar.Proofs.FilterEdits
import Registrar.Proofs.FilterPieces
import Registrar.Proofs.FilterAssignment
import Registrar.Proofs.FilterPatching
import Registrar.Proofs.FilterDocuments
import Registrar.Proofs.FilterCoverage
import Registrar.Proofs.FilterFrame
import Registrar.Proofs.ContinuedLines
import Registrar.Proofs.MacroDefinitions
import Registrar.Proofs.QuotedPairs
import Registrar.Proofs.WrittenAttributes
import Registrar.Proofs.UnclosedMarkers
import Registrar.Proofs.ParallelTrees
import Registrar.Proofs.AddedHeaders
import Registrar.Proofs.IsolatedFailures
import Registrar.Proofs.Derivation
import Registrar.Proofs.CommaPieces
import Registrar.Proofs.EnumerationItems
import Registrar.Proofs.TrailingTexts
import Registrar.Proofs.StringLiterals
import Registrar.Proofs.ParameterLists
import Registrar.Proofs.DefaultValues
import Registrar.Proofs.EmittedLiterals
import Registrar.Proofs.Markup
import Registrar.Proofs.ItemGroups
import Registrar.Proofs.FilterGroups
import Registrar.Proofs.TypeTrees
import Registrar.Proofs.Reclassification
import Registrar.Proofs.PointerTypes
import Registrar.Proofs.InheritedRoles
import Registrar.Proofs.StructArrays
import Registrar.Proofs.PrintedEnumerations
import Registrar.Proofs.BareValues
import Registrar.Proofs.NormalTypes
import Registrar.Proofs.RecoveredDeclarations
import Registrar.Proofs.SummaryCounts
import Registrar.Proofs.EligibleHeaders
import Registrar.Proofs.PairedBreaks
import Registrar.Proofs.ByteScan
import Registrar.Proofs.JoinedPieces
import Registrar.Proofs.CanonicalTypes
import Registrar.Proofs.StrippedComments
import Registrar.Proofs.ClosingQuotes
import Registrar.Proofs.NamedKinds

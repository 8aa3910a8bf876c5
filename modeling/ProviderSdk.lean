import ProviderSdk.Banner
import ProviderSdk.CSharpLibrary.MemberFiles
import ProviderSdk.CSharpLibrary.ObjectClasses
import ProviderSdk.CSharpLibrary.Plan
import ProviderSdk.CSharpLibrary.ProjectFiles
import ProviderSdk.CSharpLibrary.SourceFile
import ProviderSdk.CSharpLibrary.TypeText
import ProviderSdk.Code.Comment
import ProviderSdk.Code.Fragment
import ProviderSdk.Code.Indent
import ProviderSdk.Code.Step
import ProviderSdk.CommandLine.Command
import ProviderSdk.CommandLine.Options
import ProviderSdk.CommandLine.Session
import ProviderSdk.Compile.Assembly
import ProviderSdk.Compile.Diagnostic
import ProviderSdk.Compile.Pairing
import ProviderSdk.Compile.Resolution
import ProviderSdk.Compile.Run
import ProviderSdk.Convention
import ProviderSdk.Decimal.Binary64
import ProviderSdk.Decimal.Layout
import ProviderSdk.Decimal.Reading
import ProviderSdk.Decimal.Shortest
import ProviderSdk.Disk.Path
import ProviderSdk.Disk.Tree
import ProviderSdk.Docs.Page
import ProviderSdk.GoLibrary.MemberFiles
import ProviderSdk.GoLibrary.Naming
import ProviderSdk.GoLibrary.Plan
import ProviderSdk.GoLibrary.SourceFile
import ProviderSdk.GoLibrary.TypeText
import ProviderSdk.GoLibrary.Utilities
import ProviderSdk.Json.Printer
import ProviderSdk.Json.Reading
import ProviderSdk.Json.Record
import ProviderSdk.Json.Value
import ProviderSdk.Language
import ProviderSdk.Library.Default
import ProviderSdk.Library.Descriptor
import ProviderSdk.Library.Emission
import ProviderSdk.Library.SchemaFile
import ProviderSdk.Library.Target
import ProviderSdk.Main
import ProviderSdk.Operation.Check
import ProviderSdk.Operation.Failure
import ProviderSdk.Operation.Generation
import ProviderSdk.Package.Member
import ProviderSdk.Package.Property
import ProviderSdk.Package.Serialized
import ProviderSdk.Package.Tree
import ProviderSdk.Plan
import ProviderSdk.PythonLibrary.PackageFiles
import ProviderSdk.PythonLibrary.MemberFiles
import ProviderSdk.PythonLibrary.Plan
import ProviderSdk.PythonLibrary.SourceFile
import ProviderSdk.PythonLibrary.Tables
import ProviderSdk.PythonLibrary.TypeText
import ProviderSdk.Report.Entry
import ProviderSdk.Schema.Document
import ProviderSdk.Schema.DocumentReading
import ProviderSdk.Schema.Field
import ProviderSdk.Schema.LoadError
import ProviderSdk.Schema.Location
import ProviderSdk.Schema.Override
import ProviderSdk.Schema.Wire
import ProviderSdk.Settings.Configuration
import ProviderSdk.Settings.Preferences
import ProviderSdk.Settings.PreferencesReading
import ProviderSdk.Settings.Resolved
import ProviderSdk.Text.Blank
import ProviderSdk.Text.Case
import ProviderSdk.Text.CaseTable
import ProviderSdk.Text.Casing
import ProviderSdk.Text.Hex
import ProviderSdk.Text.Prose
import ProviderSdk.Text.Sorted
import ProviderSdk.Text.Split
import ProviderSdk.Text.Words
import ProviderSdk.Token
import ProviderSdk.Toml.Node
import ProviderSdk.Toml.Scalar
import ProviderSdk.Toml.Written
import ProviderSdk.TypeScriptLibrary.PackageFiles
import ProviderSdk.TypeScriptLibrary.Manifest
import ProviderSdk.TypeScriptLibrary.MemberFiles
import ProviderSdk.TypeScriptLibrary.Plan
import ProviderSdk.TypeScriptLibrary.Reference
import ProviderSdk.TypeScriptLibrary.SourceFile
import ProviderSdk.TypeScriptLibrary.TypeText
import ProviderSdk.Values.Coercion
import ProviderSdk.Values.Default
import ProviderSdk.Values.Exchange
import ProviderSdk.Version
import ProviderSdk.Version.Serialized
import ProviderSdk.Proofs.Json.Members
import ProviderSdk.Proofs.Schema.Nesting
import ProviderSdk.Proofs.Values.Coercion
import ProviderSdk.Proofs.Values.RoundTrip
import ProviderSdk.Proofs.Values.Retention
import ProviderSdk.Proofs.Values.RawNames
import ProviderSdk.Proofs.Values.Numbers
import ProviderSdk.Proofs.Package.Members
import ProviderSdk.Proofs.Compile.Fate
import ProviderSdk.Proofs.Compile.Pairing
import ProviderSdk.Proofs.Compile.Resolution
import ProviderSdk.Proofs.Compile.Accounting
import ProviderSdk.Proofs.Disk.Actions
import ProviderSdk.Proofs.Disk.Places
import ProviderSdk.Proofs.Disk.Writing
import ProviderSdk.Proofs.Plan.Additions
import ProviderSdk.Proofs.Plan.Writing
import ProviderSdk.Proofs.Compile.Completion
import ProviderSdk.Proofs.Json.Reading
import ProviderSdk.Proofs.Schema.Order
import ProviderSdk.Proofs.Schema.Nodes
import ProviderSdk.Proofs.Json.Layout
import ProviderSdk.Proofs.Json.Tokens
import ProviderSdk.Proofs.Json.Extents
import ProviderSdk.Proofs.Json.RecordExtents
import ProviderSdk.Proofs.Schema.NodePlaces
import ProviderSdk.Proofs.Schema.Spans
import ProviderSdk.Proofs.Compile.Projection
import ProviderSdk.Proofs.Text.Pieces
import ProviderSdk.Proofs.Text.Marks
import ProviderSdk.Proofs.Disk.Ways
import ProviderSdk.Proofs.Disk.Confinement
import ProviderSdk.Proofs.Plan.Confinement
import ProviderSdk.Proofs.Package.Overlays
import ProviderSdk.Proofs.Compile.Targets
import ProviderSdk.Proofs.Library.Names
import ProviderSdk.Proofs.Library.Confinement
import ProviderSdk.Proofs.Library.Provenance
import ProviderSdk.Proofs.GoLibrary.Identifiers
import ProviderSdk.Proofs.GoLibrary.Directories
import ProviderSdk.Proofs.Values.StickyDefaults
import ProviderSdk.Proofs.Library.Indexes
import ProviderSdk.Proofs.Library.Manifests
import ProviderSdk.Proofs.Compile.OverrideEntries
import ProviderSdk.Proofs.Compile.UnmatchedOverrides
import ProviderSdk.Proofs.Text.SnakeKeys
import ProviderSdk.Proofs.Text.CanonicalNames
import ProviderSdk.Proofs.Compile.PropertyNames
import ProviderSdk.Proofs.Library.PropertyIdentifiers
import ProviderSdk.Proofs.Library.HandWritten
import ProviderSdk.Proofs.Operation.DryRun
import ProviderSdk.Proofs.Compile.HandWritten
import ProviderSdk.Proofs.Defaults.Programs
import ProviderSdk.Proofs.Defaults.Helpers
import ProviderSdk.Proofs.Defaults.Expressions
import ProviderSdk.Proofs.Library.SchemaFile
import ProviderSdk.Proofs.Defaults.Agreement
import ProviderSdk.Proofs.Package.Contents
import ProviderSdk.Proofs.Compile.ConfigModule
import ProviderSdk.Proofs.Compile.Independence
import ProviderSdk.Proofs.Compile.ObjectNames
import ProviderSdk.Proofs.CSharpLibrary.Classes
import ProviderSdk.Proofs.Compile.Positions
import ProviderSdk.Proofs.Compile.ObjectPaths
import ProviderSdk.Proofs.CSharpLibrary.ObjectClasses
import ProviderSdk.Proofs.CSharpLibrary.TypeReferences
import ProviderSdk.Proofs.Text.Identifiers
import ProviderSdk.Proofs.PythonLibrary.Tables
import ProviderSdk.Proofs.Code.Lines
import ProviderSdk.Proofs.GoLibrary.LookUps
import ProviderSdk.Proofs.TypeScriptLibrary.CustomTypes
import ProviderSdk.Proofs.TypeScriptLibrary.SourceFiles
import ProviderSdk.Proofs.TypeScriptLibrary.ReservedNames
import ProviderSdk.Proofs.TypeScriptLibrary.ImportedNames
import ProviderSdk.Proofs.Text.Acronyms
import ProviderSdk.Proofs.Text.WordKeys
import ProviderSdk.Proofs.TypeTokens
import ProviderSdk.Proofs.Json.Strings
import ProviderSdk.Proofs.Versions
import ProviderSdk.Proofs.Text.Filling
import ProviderSdk.Proofs.Code.Comments
import ProviderSdk.Proofs.Docs.Pages
import ProviderSdk.Proofs.Compile.Documentation
import ProviderSdk.Proofs.Code.CommentLines
import ProviderSdk.Proofs.Code.Docstrings
import ProviderSdk.Proofs.Code.LineComments
import ProviderSdk.Proofs.Code.Widths
import ProviderSdk.Proofs.Library.StringLiterals
import ProviderSdk.Proofs.Package.Store
import ProviderSdk.Proofs.Schema.Offsets
import ProviderSdk.Proofs.Values.Integers
import ProviderSdk.Proofs.Code.Builder
import ProviderSdk.Proofs.Text.Singulars

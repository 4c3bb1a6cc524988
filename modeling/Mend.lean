import Mend.Archive.Bits
import Mend.Archive.Crc32
import Mend.Archive.Entry
import Mend.Archive.Gzip
import Mend.Archive.Huffman
import Mend.Archive.Inflate
import Mend.Archive.Tar
import Mend.Archive.Zip
import Mend.Cli.Arguments
import Mend.Cli.Check
import Mend.Cli.Run
import Mend.Decimal.Format
import Mend.Decimal.Shortest
import Mend.Diagnostic
import Mend.Files.Disk
import Mend.Files.Limits
import Mend.Files.Path
import Mend.Files.Store
import Mend.Fix.Basic
import Mend.Fix.Batch
import Mend.Fix.Layout
import Mend.Fix.MissingCases
import Mend.Fix.Naming
import Mend.Fix.Site
import Mend.Fix.Strategy
import Mend.Fix.Suppression
import Mend.Fix.Wording
import Mend.Go.Grammar
import Mend.Go.Identifier
import Mend.Go.Kind
import Mend.Go.Node
import Mend.Go.Parse
import Mend.Go.Pattern
import Mend.Go.Token
import Mend.Go.View
import Mend.Install.Activity
import Mend.Install.Copy
import Mend.Install.Error
import Mend.Install.Extract
import Mend.Install.Journal
import Mend.Install.Latest
import Mend.Install.Platform
import Mend.Install.Release
import Mend.Install.Settings
import Mend.Install.Source
import Mend.Json.Error
import Mend.Json.Lexical
import Mend.Json.Skip
import Mend.Json.Typed
import Mend.Linter.CommandLine
import Mend.Linter.Report
import Mend.Linter.Run
import Mend.Main
import Mend.Proofs.Anchors
import Mend.Proofs.Assignments
import Mend.Proofs.Batch
import Mend.Proofs.Bytes
import Mend.Proofs.Checking
import Mend.Proofs.Coordinates
import Mend.Proofs.DefaultClauses
import Mend.Proofs.DirectiveLines
import Mend.Proofs.Directives
import Mend.Proofs.EmptyLines
import Mend.Proofs.Go.Comments
import Mend.Proofs.Go.Fillers
import Mend.Proofs.Go.Leaves
import Mend.Proofs.Go.Lexing
import Mend.Proofs.Go.Origins
import Mend.Proofs.Go.Places
import Mend.Proofs.Go.Reading
import Mend.Proofs.Go.Reads
import Mend.Proofs.Go.Rows
import Mend.Proofs.Go.Scanning
import Mend.Proofs.Go.Singles
import Mend.Proofs.Go.Sketches
import Mend.Proofs.Go.Spans
import Mend.Proofs.Go.Yields
import Mend.Proofs.Innermost
import Mend.Proofs.Insertions
import Mend.Proofs.Inspection
import Mend.Proofs.Install.Archives
import Mend.Proofs.Install.AssetNames
import Mend.Proofs.Install.Cancelling
import Mend.Proofs.Install.Completeness
import Mend.Proofs.Install.Containment
import Mend.Proofs.Install.Copying
import Mend.Proofs.Install.Course
import Mend.Proofs.Install.Endings
import Mend.Proofs.Install.Extraction
import Mend.Proofs.Install.Footprints
import Mend.Proofs.Install.Joining
import Mend.Proofs.Install.Journals
import Mend.Proofs.Install.Outcome
import Mend.Proofs.Install.Phases
import Mend.Proofs.Install.Places
import Mend.Proofs.Install.Progress
import Mend.Proofs.Install.Stages
import Mend.Proofs.Install.Staging
import Mend.Proofs.Install.Tracking
import Mend.Proofs.Install.Transfers
import Mend.Proofs.Json.Bounds
import Mend.Proofs.Json.Grammar
import Mend.Proofs.Json.Numbers
import Mend.Proofs.Json.Readers
import Mend.Proofs.Json.Records
import Mend.Proofs.Json.Skipping
import Mend.Proofs.Json.Strings
import Mend.Proofs.Layout
import Mend.Proofs.Limits
import Mend.Proofs.LineEdits
import Mend.Proofs.LineEnds
import Mend.Proofs.LineFeeds
import Mend.Proofs.LineRanges
import Mend.Proofs.Lines
import Mend.Proofs.Links
import Mend.Proofs.MissingCases
import Mend.Proofs.MovedLines
import Mend.Proofs.MovedSites
import Mend.Proofs.Nesting
import Mend.Proofs.NewLines
import Mend.Proofs.PackageNames
import Mend.Proofs.ParameterTypes
import Mend.Proofs.Periods
import Mend.Proofs.Positions
import Mend.Proofs.Renaming
import Mend.Proofs.Reordering
import Mend.Proofs.Replacement
import Mend.Proofs.Reports
import Mend.Proofs.Resolution
import Mend.Proofs.Selection
import Mend.Proofs.Splice
import Mend.Proofs.Suppression
import Mend.Proofs.Wrapping
import Mend.Shell.Run
import Mend.Shell.Script
import Mend.Shell.Tool
import Mend.Shell.Word
import Mend.Syntax.Locate
import Mend.Syntax.Outline
import Mend.Syntax.Tree
import Mend.Text.Blank
import Mend.Text.Document
import Mend.Text.Edit
import Mend.Text.Line
import Mend.Text.Lossy
import Mend.Text.Quoted
import Mend.Text.Ranges
import Mend.Text.Span
import Mend.Text.Utf8

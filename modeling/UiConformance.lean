import UiConformance.CommandLine.Arguments
import UiConformance.CommandLine.Run
import UiConformance.Condition
import UiConformance.Counter
import UiConformance.Decimal.Binary64
import UiConformance.Decimal.Layout
import UiConformance.Decimal.Nearest
import UiConformance.Decimal.Shortest
import UiConformance.Document.Datum
import UiConformance.Document.Datum.Reader
import UiConformance.Document.Format
import UiConformance.Document.Load
import UiConformance.Document.Mismatch
import UiConformance.Element.Node
import UiConformance.Element.Tree
import UiConformance.Files
import UiConformance.Files.Folder
import UiConformance.Identifier
import UiConformance.Journal
import UiConformance.Json.Ascii
import UiConformance.Json.Document
import UiConformance.Json.Event
import UiConformance.Json.Reader
import UiConformance.Json.Token
import UiConformance.Main
import UiConformance.OrderedMap
import UiConformance.Platform
import UiConformance.Platform.Script
import UiConformance.Proofs.Ascent
import UiConformance.Proofs.Brackets
import UiConformance.Proofs.Budget
import UiConformance.Proofs.Calls
import UiConformance.Proofs.ConditionText
import UiConformance.Proofs.Constancy
import UiConformance.Proofs.Depiction
import UiConformance.Proofs.Descent
import UiConformance.Proofs.Evaluation
import UiConformance.Proofs.Exchange
import UiConformance.Proofs.Faithful
import UiConformance.Proofs.Findings
import UiConformance.Proofs.Growth
import UiConformance.Proofs.History
import UiConformance.Proofs.IdentifierText
import UiConformance.Proofs.Isolation
import UiConformance.Proofs.Links
import UiConformance.Proofs.Meaning
import UiConformance.Proofs.Outline
import UiConformance.Proofs.Outcome
import UiConformance.Proofs.Place
import UiConformance.Proofs.Population
import UiConformance.Proofs.Providers
import UiConformance.Proofs.Requests
import UiConformance.Proofs.Schedules
import UiConformance.Proofs.Severity
import UiConformance.Proofs.Shape
import UiConformance.Proofs.SnapshotPlatform
import UiConformance.Proofs.SnapshotShape
import UiConformance.Proofs.SnapshotWalk
import UiConformance.Proofs.StableSort
import UiConformance.Proofs.Sweep
import UiConformance.Proofs.Truncation
import UiConformance.Proofs.Turns
import UiConformance.Proofs.Unfolding
import UiConformance.Proofs.Verdict
import UiConformance.Proofs.Visits
import UiConformance.Proofs.WellFormed
import UiConformance.Proofs.Work
import UiConformance.Property.Rect
import UiConformance.Property.Value
import UiConformance.Report.Basic
import UiConformance.Report.Json
import UiConformance.Report.Sarif
import UiConformance.Report.Text
import UiConformance.Result
import UiConformance.Result.Document
import UiConformance.Rose
import UiConformance.Rule.Basic
import UiConformance.Rule.Builtin
import UiConformance.Rule.Provider
import UiConformance.Rule.Registry
import UiConformance.Rule.Run
import UiConformance.Scan
import UiConformance.Settings.Basic
import UiConformance.Settings.Document
import UiConformance.Settings.Load
import UiConformance.Snapshot.Description
import UiConformance.Snapshot.Load
import UiConformance.Snapshot.Reader
import UiConformance.Snapshot.Tree
import UiConformance.Status
import UiConformance.Text.Blank
import UiConformance.Text.Numeral
import UiConformance.Text.Quoted
import UiConformance.Text.Paint
import UiConformance.Text.Unseen
import UiConformance.Walk.Ancestry
import UiConformance.Walk.Descent
import UiConformance.Walk.Draft
import UiConformance.Walk.Evaluation
import UiConformance.Walk.Population
import UiConformance.Walk.Siblings
import UiConformance.Walk.State
import UiConformance.Walk.Steps
import UiConformance.Walk.Walker
import UiConformance.Yaml.CoreSchema
import UiConformance.Yaml.Cursor
import UiConformance.Yaml.Node
import UiConformance.Yaml.Reader
import UiConformance.Yaml.ScalarText
import UiConformance.Yaml.Tag
import UiConformance.Yaml.Token
import UiConformance.Proofs.Descriptions
import UiConformance.Proofs.ReadBack
import UiConformance.Proofs.Sharing
import UiConformance.Proofs.Resemblance
import UiConformance.Proofs.Selection
import UiConformance.Proofs.Context
import UiConformance.Proofs.Recursion
import UiConformance.Proofs.Lineage
import UiConformance.Proofs.Attempts
import UiConformance.Proofs.ExitCode
import UiConformance.Proofs.IdentifierReading
import UiConformance.Proofs.Paths
import UiConformance.Proofs.Numerals
import UiConformance.Proofs.ByteOrder
import UiConformance.Proofs.Search
import UiConformance.Proofs.FirstFailure
import UiConformance.Proofs.Registrations
import UiConformance.Proofs.Aggregation
import UiConformance.Proofs.Disabling
import UiConformance.Proofs.Formats
import UiConformance.Proofs.Acceptance
import UiConformance.Proofs.Colour
import UiConformance.Proofs.Stages

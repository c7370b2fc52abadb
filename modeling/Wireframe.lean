/-
The whole library.
-/
import Wireframe.App.Field
import Wireframe.App.Helper
import Wireframe.App.HelperSource
import Wireframe.App.Leaf
import Wireframe.App.Naming
import Wireframe.App.Navigation
import Wireframe.App.Place
import Wireframe.App.ScreenSource
import Wireframe.App.Sources
import Wireframe.App.Table
import Wireframe.Command.Arguments
import Wireframe.Command.Request
import Wireframe.Command.Run
import Wireframe.Dart.Expr
import Wireframe.Dart.Literal
import Wireframe.Dart.Outline
import Wireframe.Decimal.Notation
import Wireframe.Decimal.Shortest
import Wireframe.Design.Color
import Wireframe.Design.Document
import Wireframe.Design.Editing
import Wireframe.Design.Kind
import Wireframe.Design.Project
import Wireframe.Design.Properties
import Wireframe.Design.PropertyFormat
import Wireframe.Design.Rect
import Wireframe.Design.Widget
import Wireframe.Export.Archive
import Wireframe.Export.ArchiveName
import Wireframe.Export.Project
import Wireframe.Export.Skeleton
import Wireframe.Export.StoredArchive
import Wireframe.Export.Workspace
import Wireframe.Failure
import Wireframe.Files.Path
import Wireframe.Files.Script
import Wireframe.Files.Tree
import Wireframe.Files.World
import Wireframe.Job
import Wireframe.Json.Decoder
import Wireframe.Json.Numeral
import Wireframe.Json.Printer
import Wireframe.Json.Quoted
import Wireframe.Json.Reader
import Wireframe.Json.Source
import Wireframe.Json.Value
import Wireframe.Libraries
import Wireframe.Main
import Wireframe.PlainLibraries
import Wireframe.Proofs.App.Agreement
import Wireframe.Proofs.App.BlankTargets
import Wireframe.Proofs.App.ClassNames
import Wireframe.Proofs.App.Contents
import Wireframe.Proofs.App.Editing
import Wireframe.Proofs.App.FreeText
import Wireframe.Proofs.App.Generation
import Wireframe.Proofs.App.Handlers
import Wireframe.Proofs.App.HelperText
import Wireframe.Proofs.App.Indentation
import Wireframe.Proofs.App.Naming
import Wireframe.Proofs.App.Options
import Wireframe.Proofs.App.PaintOrder
import Wireframe.Proofs.App.Paths
import Wireframe.Proofs.App.RareCharacters
import Wireframe.Proofs.App.RawCode
import Wireframe.Proofs.App.RawFile
import Wireframe.Proofs.App.RouteGrammar
import Wireframe.Proofs.App.StateFields
import Wireframe.Proofs.App.TableShape
import Wireframe.Proofs.App.Targets
import Wireframe.Proofs.Binary64.Arithmetic
import Wireframe.Proofs.Binary64.Division
import Wireframe.Proofs.Binary64.Encoding
import Wireframe.Proofs.Binary64.Order
import Wireframe.Proofs.Binary64.Rounding
import Wireframe.Proofs.Command.Exportation
import Wireframe.Proofs.Command.Interpretation
import Wireframe.Proofs.Dart.Closed
import Wireframe.Proofs.Dart.Groups
import Wireframe.Proofs.Dart.Lines
import Wireframe.Proofs.Dart.Masking
import Wireframe.Proofs.Dart.Number
import Wireframe.Proofs.Dart.RawCode
import Wireframe.Proofs.Dart.Reading
import Wireframe.Proofs.Dart.Skeleton
import Wireframe.Proofs.Dart.Tokens
import Wireframe.Proofs.Dart.Words
import Wireframe.Proofs.Design.Color
import Wireframe.Proofs.Design.Document
import Wireframe.Proofs.Design.Exchange
import Wireframe.Proofs.Design.Isolation
import Wireframe.Proofs.Design.Reload
import Wireframe.Proofs.Design.Stored
import Wireframe.Proofs.Design.Widget
import Wireframe.Proofs.Export.ArchiveName
import Wireframe.Proofs.Export.Beside
import Wireframe.Proofs.Export.Clearing
import Wireframe.Proofs.Export.Copying
import Wireframe.Proofs.Export.Creation
import Wireframe.Proofs.Export.Filling
import Wireframe.Proofs.Export.Guest
import Wireframe.Proofs.Export.Holding
import Wireframe.Proofs.Export.InUse
import Wireframe.Proofs.Export.Leftovers
import Wireframe.Proofs.Export.Lockstep
import Wireframe.Proofs.Export.Overlay
import Wireframe.Proofs.Export.Packing
import Wireframe.Proofs.Export.Plan
import Wireframe.Proofs.Export.SharedSweep
import Wireframe.Proofs.Export.Sharing
import Wireframe.Proofs.Export.Site
import Wireframe.Proofs.Export.Traces
import Wireframe.Proofs.Export.Turns
import Wireframe.Proofs.Export.Twin
import Wireframe.Proofs.Export.TwinReplies
import Wireframe.Proofs.Export.WorkspaceName
import Wireframe.Proofs.Files.Company
import Wireframe.Proofs.Files.Effect
import Wireframe.Proofs.Files.Finding
import Wireframe.Proofs.Files.Making
import Wireframe.Proofs.Files.Name
import Wireframe.Proofs.Files.Place
import Wireframe.Proofs.Files.Proper
import Wireframe.Proofs.Files.Refusal
import Wireframe.Proofs.Files.Removal
import Wireframe.Proofs.Files.Success
import Wireframe.Proofs.Files.TextBytes
import Wireframe.Proofs.Files.Timeless
import Wireframe.Proofs.Files.Walk
import Wireframe.Proofs.Json.Container
import Wireframe.Proofs.Json.Exchange
import Wireframe.Proofs.Json.Extent
import Wireframe.Proofs.Json.Finite
import Wireframe.Proofs.Json.Members
import Wireframe.Proofs.Json.Numeral
import Wireframe.Proofs.Json.PassingOver
import Wireframe.Proofs.Json.Quoted
import Wireframe.Proofs.Json.RecordExchange
import Wireframe.Proofs.Json.RecordExtent
import Wireframe.Proofs.Json.RecordText
import Wireframe.Proofs.Json.RoundTrip
import Wireframe.Proofs.Json.Rounds
import Wireframe.Proofs.Json.Scanning
import Wireframe.Proofs.Json.Source
import Wireframe.Proofs.Json.Value
import Wireframe.Proofs.Review.Addition
import Wireframe.Proofs.Review.Elements
import Wireframe.Proofs.Review.Errors
import Wireframe.Proofs.Review.ScreenFaults
import Wireframe.Proofs.Review.Screens
import Wireframe.Proofs.Review.Verdict
import Wireframe.Proofs.Sketch.Absorption
import Wireframe.Proofs.Sketch.Acceptance
import Wireframe.Proofs.Sketch.Attempts
import Wireframe.Proofs.Sketch.Canvas
import Wireframe.Proofs.Sketch.Elements
import Wireframe.Proofs.Sketch.Fence
import Wireframe.Proofs.Sketch.Insertion
import Wireframe.Proofs.Sketch.Reading
import Wireframe.Proofs.Sketch.Screen
import Wireframe.Proofs.Text.Trimming
import Wireframe.Proofs.Text.Words
import Wireframe.Review.Check
import Wireframe.Review.Issue
import Wireframe.Review.Report
import Wireframe.Settings
import Wireframe.Sketch.Absorption
import Wireframe.Sketch.Detection
import Wireframe.Sketch.Font
import Wireframe.Sketch.Interpretation
import Wireframe.Sketch.Payload
import Wireframe.Text.Alphanumeric
import Wireframe.Text.Blank
import Wireframe.Text.Words
import Wireframe.Yaml.Cursor
import Wireframe.Yaml.Node
import Wireframe.Yaml.Scalar
import Wireframe.Yaml.Tag
import Wireframe.Yaml.Token

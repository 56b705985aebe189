import MergePatch.Cli.Args
import MergePatch.Cli.Failure
import MergePatch.Cli.Files
import MergePatch.Cli.Grammar
import MergePatch.Cli.Run
import MergePatch.Cli.Similar
import MergePatch.Client.Calls
import MergePatch.Client.Error
import MergePatch.Client.Local
import MergePatch.Client.Options
import MergePatch.Data.Keyed
import MergePatch.Http.Conditions
import MergePatch.Http.Message
import MergePatch.Json.Cursor
import MergePatch.Json.Fault
import MergePatch.Json.Read
import MergePatch.Json.Schema
import MergePatch.Json.Value
import MergePatch.Json.Write
import MergePatch.Main
import MergePatch.Model.Any
import MergePatch.Model.EnumValue
import MergePatch.Model.Error
import MergePatch.Model.Fish
import MergePatch.Model.InPlace
import MergePatch.Model.Inner
import MergePatch.Model.Resource
import MergePatch.Model.Session
import MergePatch.Model.Shape
import MergePatch.Model.Tracker
import MergePatch.Number.Binary64
import MergePatch.Number.Shortest
import MergePatch.Patch.Assignment
import MergePatch.Patch.Merge
import MergePatch.Proofs.Concurrency
import MergePatch.Proofs.HeaderFields
import MergePatch.Proofs.ResourceUrls
import MergePatch.Proofs.CivilDays
import MergePatch.Proofs.HttpDates
import MergePatch.Proofs.Keyed
import MergePatch.Proofs.MergeAlgebra
import MergePatch.Service.Config
import MergePatch.Service.Handler
import MergePatch.Service.History
import MergePatch.Service.Store
import MergePatch.Text.Blank
import MergePatch.Text.Percent
import MergePatch.Text.Printable
import MergePatch.Text.Quoted
import MergePatch.Text.Utf8
import MergePatch.Time.Civil
import MergePatch.Time.HttpDate
import MergePatch.Time.Pattern
import MergePatch.Time.Rfc3339
import MergePatch.Yaml.Decode
import MergePatch.Yaml.Document
import MergePatch.Yaml.Events
import MergePatch.Yaml.Node
import MergePatch.Yaml.Scalar
import MergePatch.Yaml.Syntax
import MergePatch.Yaml.Tokens
import MergePatch.Proofs.Setters
import MergePatch.Proofs.InPlace
import MergePatch.Proofs.SparsePatch
import MergePatch.Proofs.TextCursor
import MergePatch.Proofs.TextScalars
import MergePatch.Proofs.TextValues
import MergePatch.Proofs.TextDepth
import MergePatch.Proofs.Tracking
import MergePatch.Proofs.Written
import MergePatch.Proofs.StoreWrites
import MergePatch.Proofs.Router
import MergePatch.Proofs.PatchShape
import MergePatch.Proofs.ValueSchema
import MergePatch.Proofs.TextSchema
import MergePatch.Proofs.ReadBack
import MergePatch.Proofs.FullRoundTrip
import MergePatch.Proofs.FormsAgree
import MergePatch.Proofs.Runs
import MergePatch.Proofs.Lenses
import MergePatch.Proofs.PatchLaws
import MergePatch.Proofs.Commute
import MergePatch.Proofs.TrackedBuild

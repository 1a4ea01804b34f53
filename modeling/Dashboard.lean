import Dashboard.CommandLine.Arguments
import Dashboard.CommandLine.Command
import Dashboard.CommandLine.Perform
import Dashboard.CommandLine.Run
import Dashboard.Config
import Dashboard.Docs
import Dashboard.Document.Basic
import Dashboard.Document.Edit
import Dashboard.Document.EditEvents
import Dashboard.Document.Load
import Dashboard.Document.LoadEvents
import Dashboard.Double.Basic
import Dashboard.Double.Bits
import Dashboard.Double.Decimal
import Dashboard.Double.Round
import Dashboard.Double.Text
import Dashboard.Editor.Basic
import Dashboard.Editor.Dialog
import Dashboard.Editor.Operation
import Dashboard.Editor.Script
import Dashboard.Entries
import Dashboard.Error
import Dashboard.Files.Fault
import Dashboard.Files.PathText
import Dashboard.Files.Store
import Dashboard.InPlace.Basic
import Dashboard.InPlace.Editor
import Dashboard.Json.Failure
import Dashboard.Json.Number
import Dashboard.Json.Printer
import Dashboard.Json.Quoted
import Dashboard.Json.Reader
import Dashboard.Log.Event
import Dashboard.Log.Filter
import Dashboard.Main
import Dashboard.Markdown.Pattern
import Dashboard.Markdown.QuickReference
import Dashboard.Markdown.Section
import Dashboard.Markdown.Slices
import Dashboard.Markdown.Templates
import Dashboard.Markdown.Widgets
import Dashboard.Menu.Action
import Dashboard.Menu.Selection
import Dashboard.Path.Basic
import Dashboard.Path.Tree
import Dashboard.Proofs.Document.FileOrder
import Dashboard.Proofs.Document.Kept
import Dashboard.Proofs.Document.Loaded
import Dashboard.Proofs.Document.Modified
import Dashboard.Proofs.Document.Places
import Dashboard.Proofs.Document.Reachable
import Dashboard.Proofs.Document.RoundTrip
import Dashboard.Proofs.Document.Sound
import Dashboard.Proofs.Document.TreeOperations
import Dashboard.Proofs.Document.WrittenOnce
import Dashboard.Proofs.Double.Finite
import Dashboard.Proofs.Double.Layouts
import Dashboard.Proofs.Double.ReadBack
import Dashboard.Proofs.Editor.Asking
import Dashboard.Proofs.Editor.Dialogs
import Dashboard.Proofs.Editor.InRange
import Dashboard.Proofs.Editor.KeptKeys
import Dashboard.Proofs.Editor.Operations
import Dashboard.Proofs.Editor.Reachable
import Dashboard.Proofs.Editor.SubmittedForms
import Dashboard.Proofs.Entries
import Dashboard.Proofs.Except
import Dashboard.Proofs.Files.Written
import Dashboard.Proofs.InPlace.Basic
import Dashboard.Proofs.InPlace.Editor
import Dashboard.Proofs.Json.Number
import Dashboard.Proofs.Json.NumberText
import Dashboard.Proofs.Json.Quoted
import Dashboard.Proofs.Json.ReadBack
import Dashboard.Proofs.Json.Sound
import Dashboard.Proofs.Json.Unambiguous
import Dashboard.Proofs.Markdown.Chapter
import Dashboard.Proofs.Markdown.Partition
import Dashboard.Proofs.Markdown.Pattern
import Dashboard.Proofs.Markdown.Sections
import Dashboard.Proofs.Markdown.Templates
import Dashboard.Proofs.Markdown.Widgets
import Dashboard.Proofs.Menu.Selection
import Dashboard.Proofs.Path.Agreement
import Dashboard.Proofs.Path.Changes
import Dashboard.Proofs.Path.Joined
import Dashboard.Proofs.Path.Nodes
import Dashboard.Proofs.Path.Text
import Dashboard.Proofs.Path.Tree
import Dashboard.Proofs.Reference.ReadBack
import Dashboard.Proofs.Reference.Scraped
import Dashboard.Proofs.Reference.Stable
import Dashboard.Proofs.Reference.Types
import Dashboard.Proofs.Reference.WellFormed
import Dashboard.Proofs.Render.Bare
import Dashboard.Proofs.Render.Block
import Dashboard.Proofs.Render.Characters
import Dashboard.Proofs.Render.Data
import Dashboard.Proofs.Render.Flow
import Dashboard.Proofs.Render.Layout
import Dashboard.Proofs.Render.Limits
import Dashboard.Proofs.Render.Nodes
import Dashboard.Proofs.Render.ReadBack
import Dashboard.Proofs.Session.Actions
import Dashboard.Proofs.Session.Endings
import Dashboard.Proofs.Session.Failure
import Dashboard.Proofs.Session.PickedTemplate
import Dashboard.Proofs.Session.Target
import Dashboard.Proofs.Session.Turns
import Dashboard.Proofs.Session.Unsaved
import Dashboard.Proofs.Text.Bytes
import Dashboard.Proofs.Text.Dedent
import Dashboard.Proofs.Text.Lines
import Dashboard.Proofs.Text.Margin
import Dashboard.Proofs.Text.Search
import Dashboard.Proofs.Text.Trimming
import Dashboard.Proofs.Value.Floats
import Dashboard.Proofs.Value.FormText
import Dashboard.Proofs.Value.KeyText
import Dashboard.Proofs.Value.Parts
import Dashboard.Proofs.Value.Shape
import Dashboard.Proofs.Value.TypedText
import Dashboard.Proofs.Widget.Example
import Dashboard.Proofs.Widget.Form
import Dashboard.Proofs.Widget.OptionErrors
import Dashboard.Proofs.Widget.Options
import Dashboard.Proofs.Widget.Sound
import Dashboard.Proofs.Yaml.Ahead
import Dashboard.Proofs.Yaml.Brackets
import Dashboard.Proofs.Yaml.Collections
import Dashboard.Proofs.Yaml.Datum
import Dashboard.Proofs.Yaml.Depth
import Dashboard.Proofs.Yaml.Fronts
import Dashboard.Proofs.Yaml.Keys
import Dashboard.Proofs.Yaml.Length
import Dashboard.Proofs.Yaml.Marks
import Dashboard.Proofs.Yaml.Moves
import Dashboard.Proofs.Yaml.Roots
import Dashboard.Proofs.Yaml.Scalar.Folding
import Dashboard.Proofs.Yaml.Scalar.OneLine
import Dashboard.Proofs.Yaml.Scalar.Plain
import Dashboard.Proofs.Yaml.Scalar.Quoted
import Dashboard.Proofs.Yaml.SelfReading
import Dashboard.Proofs.Yaml.Typing
import Dashboard.Proofs.Yaml.Unquoted
import Dashboard.Proofs.Yaml.View
import Dashboard.Proofs.Yaml.Written
import Dashboard.Reference.Basic
import Dashboard.Reference.Events
import Dashboard.Reference.Misfit
import Dashboard.Reference.OfJson
import Dashboard.Reference.ToJson
import Dashboard.Render.Quoting
import Dashboard.Render.Value
import Dashboard.Session.Basic
import Dashboard.Session.Perform
import Dashboard.Session.Run
import Dashboard.Session.Turn
import Dashboard.Shell.Basic
import Dashboard.Shell.Forms
import Dashboard.Shell.Question
import Dashboard.Shell.Trouble
import Dashboard.Shell.Typed
import Dashboard.Text.Blank
import Dashboard.Text.Dedent
import Dashboard.Text.Lines
import Dashboard.Text.Quoted
import Dashboard.Text.Search
import Dashboard.Text.Unseen
import Dashboard.Toml.Character
import Dashboard.Toml.Quoted
import Dashboard.Toml.Reader
import Dashboard.Toml.Scalar
import Dashboard.Toml.Table
import Dashboard.Value.Basic
import Dashboard.Value.OfYaml
import Dashboard.Widget.Basic
import Dashboard.Widget.Form
import Dashboard.Yaml.Character
import Dashboard.Yaml.Cursor
import Dashboard.Yaml.Datum
import Dashboard.Yaml.Node
import Dashboard.Yaml.Property
import Dashboard.Yaml.Reader
import Dashboard.Yaml.Scalar.Block
import Dashboard.Yaml.Scalar.Folding
import Dashboard.Yaml.Scalar.Plain
import Dashboard.Yaml.Scalar.Quoted
import Dashboard.Yaml.Scanner
import Dashboard.Yaml.Token
import Dashboard.Yaml.Typing

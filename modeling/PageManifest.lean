import PageManifest.Binary64
import PageManifest.Client.Basic
import PageManifest.Client.Batch
import PageManifest.Client.Lenient
import PageManifest.CommandLine
import PageManifest.Config.Basic
import PageManifest.Config.File
import PageManifest.Console
import PageManifest.Decimal.Form
import PageManifest.Decimal.Reader
import PageManifest.Decimal.Shortest
import PageManifest.Demo
import PageManifest.Error
import PageManifest.FileTree.Basic
import PageManifest.FileTree.Operations
import PageManifest.FileTree.Path
import PageManifest.Format.Basic
import PageManifest.Format.Reader
import PageManifest.Http.Failure
import PageManifest.Http.MediaType
import PageManifest.Http.Network
import PageManifest.Http.Reply
import PageManifest.Http.Request
import PageManifest.Http.Status
import PageManifest.Json.Error
import PageManifest.Json.Lexical
import PageManifest.Json.Reader
import PageManifest.Json.Typed
import PageManifest.Json.Writer
import PageManifest.Log.Basic
import PageManifest.Log.File
import PageManifest.Log.Filter
import PageManifest.Log.Sink
import PageManifest.Log.Stamp
import PageManifest.Main
import PageManifest.Manifest.Basic
import PageManifest.Manifest.Reader
import PageManifest.Manifest.Sample
import PageManifest.OrderedMap
import PageManifest.Proofs.Client.Batch
import PageManifest.Proofs.Client.BatchFiles
import PageManifest.Proofs.Client.Bodies
import PageManifest.Proofs.Client.Calls
import PageManifest.Proofs.Client.Conversion
import PageManifest.Proofs.Client.Isolation
import PageManifest.Proofs.Client.PlainWords
import PageManifest.Proofs.Client.Reports
import PageManifest.Proofs.CommandLine.Filters
import PageManifest.Proofs.CommandLine.Log
import PageManifest.Proofs.CommandLine.Settings
import PageManifest.Proofs.Config.Files
import PageManifest.Proofs.Config.Partial
import PageManifest.Proofs.Config.RoundTrip
import PageManifest.Proofs.Config.Saving
import PageManifest.Proofs.Config.Settings
import PageManifest.Proofs.Console
import PageManifest.Proofs.Decimal.Reader
import PageManifest.Proofs.Demo.Course
import PageManifest.Proofs.Demo.Files
import PageManifest.Proofs.Demo.Outside
import PageManifest.Proofs.Demo.PlainWords
import PageManifest.Proofs.Demo.Records
import PageManifest.Proofs.Demo.Simulation
import PageManifest.Proofs.Demo.Sources
import PageManifest.Proofs.FileTree.Alike
import PageManifest.Proofs.FileTree.Creation
import PageManifest.Proofs.FileTree.Directories
import PageManifest.Proofs.FileTree.Files
import PageManifest.Proofs.FileTree.Inside
import PageManifest.Proofs.FileTree.Joined
import PageManifest.Proofs.FileTree.Outside
import PageManifest.Proofs.FileTree.Path
import PageManifest.Proofs.FileTree.Places
import PageManifest.Proofs.FileTree.Removed
import PageManifest.Proofs.FileTree.Resolution
import PageManifest.Proofs.FileTree.Ways
import PageManifest.Proofs.FileTree.Writing
import PageManifest.Proofs.General
import PageManifest.Proofs.Http.Exchanges
import PageManifest.Proofs.Http.Texts
import PageManifest.Proofs.Json.Faults
import PageManifest.Proofs.Json.Grammar
import PageManifest.Proofs.Json.Lengths
import PageManifest.Proofs.Json.Lexical
import PageManifest.Proofs.Json.RoundTrip
import PageManifest.Proofs.Json.Skipping
import PageManifest.Proofs.Json.Steps
import PageManifest.Proofs.Json.Typed
import PageManifest.Proofs.Json.Writing
import PageManifest.Proofs.Log.Apart
import PageManifest.Proofs.Log.File
import PageManifest.Proofs.Log.Latest
import PageManifest.Proofs.Log.Writers
import PageManifest.Proofs.Manifest.Agreement
import PageManifest.Proofs.Manifest.Comments
import PageManifest.Proofs.Manifest.Insertions
import PageManifest.Proofs.Manifest.Keys
import PageManifest.Proofs.Manifest.Merges
import PageManifest.Proofs.Manifest.Objects
import PageManifest.Proofs.Manifest.Precedence
import PageManifest.Proofs.Manifest.Sameness
import PageManifest.Proofs.OrderedMap
import PageManifest.Proofs.Session.Channels
import PageManifest.Proofs.Session.Colour
import PageManifest.Proofs.Session.Consoles
import PageManifest.Proofs.Session.Manners
import PageManifest.Proofs.Session.Requests
import PageManifest.Proofs.Text.Escapes
import PageManifest.Proofs.Toml.Additions
import PageManifest.Proofs.Toml.Layout
import PageManifest.Proofs.Toml.Lines
import PageManifest.Proofs.Toml.Sections
import PageManifest.Proofs.Toml.Statements
import PageManifest.Proofs.Toml.Strings
import PageManifest.Proofs.Toml.Tables
import PageManifest.Proofs.Url.Characters
import PageManifest.Proofs.Validation.Verdicts
import PageManifest.Proofs.Value.Keys
import PageManifest.Proofs.Value.Places
import PageManifest.Proofs.Value.Sameness
import PageManifest.Proofs.Yaml.Comments
import PageManifest.Proofs.Yaml.Events
import PageManifest.Proofs.Yaml.FarKeys
import PageManifest.Proofs.Yaml.Faults
import PageManifest.Proofs.Yaml.Lexer
import PageManifest.Proofs.Yaml.Merges
import PageManifest.Proofs.Yaml.Precedence
import PageManifest.Proofs.Yaml.Scalars
import PageManifest.Proofs.Yaml.Spelling
import PageManifest.Proofs.Yaml.Tokens
import PageManifest.Proofs.Yaml.Trees
import PageManifest.Session
import PageManifest.Source
import PageManifest.Text.Blank
import PageManifest.Text.Charset
import PageManifest.Text.Hex
import PageManifest.Text.Paint
import PageManifest.Text.Printable
import PageManifest.Text.Quoted
import PageManifest.Text.Table
import PageManifest.Text.Utf8
import PageManifest.Text.Width
import PageManifest.Toml.Attempt
import PageManifest.Toml.Error
import PageManifest.Toml.Item
import PageManifest.Toml.Lexical
import PageManifest.Toml.Number
import PageManifest.Toml.Reader
import PageManifest.Toml.Table
import PageManifest.Toml.Typed
import PageManifest.Toml.Writer
import PageManifest.Url.Basic
import PageManifest.Url.Host
import PageManifest.Url.Percent
import PageManifest.Url.Reader
import PageManifest.Validation.Basic
import PageManifest.Validation.Reader
import PageManifest.Value.Basic
import PageManifest.World
import PageManifest.Yaml.Cursor
import PageManifest.Yaml.Document
import PageManifest.Yaml.Error
import PageManifest.Yaml.Event
import PageManifest.Yaml.Lexer
import PageManifest.Yaml.Merge
import PageManifest.Yaml.Node
import PageManifest.Yaml.Problem
import PageManifest.Yaml.Reader
import PageManifest.Yaml.Resolution
import PageManifest.Yaml.Scalar
import PageManifest.Yaml.Tag
import PageManifest.Yaml.Token

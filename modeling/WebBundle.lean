import WebBundle.Arena
import WebBundle.Build.Assembly
import WebBundle.Build.Error
import WebBundle.Build.Plan
import WebBundle.Build.Report
import WebBundle.Build.Reporting
import WebBundle.CacheGroup.Rule
import WebBundle.Chunk.Basic
import WebBundle.Chunk.Claims
import WebBundle.Chunk.Dedup
import WebBundle.Chunk.Dissolve
import WebBundle.Chunk.Draft
import WebBundle.Chunk.Emitted
import WebBundle.Chunk.FileName
import WebBundle.Chunk.RuntimeText
import WebBundle.Chunk.Split
import WebBundle.Chunk.Text
import WebBundle.Command.Line
import WebBundle.Command.Run
import WebBundle.Command.Settings
import WebBundle.Config.Basic
import WebBundle.Config.Options
import WebBundle.Config.Reader
import WebBundle.Diagnostic.Basic
import WebBundle.Diagnostic.Order
import WebBundle.Diagnostic.Text
import WebBundle.Digest.Content
import WebBundle.Digest.Words
import WebBundle.Digest.Xxh3
import WebBundle.Import.Bytewise
import WebBundle.Import.Lexer
import WebBundle.Import.Statement
import WebBundle.Import.Token
import WebBundle.Json.Basic
import WebBundle.Json.Reader
import WebBundle.Json.Record
import WebBundle.Keyed
import WebBundle.Links
import WebBundle.LoadGroup.Availability
import WebBundle.LoadGroup.Basic
import WebBundle.LoadGroup.Edges
import WebBundle.LoadGroup.Folding
import WebBundle.Main
import WebBundle.Module.Closure
import WebBundle.Module.Discovery
import WebBundle.Module.Graph
import WebBundle.Module.Resolve
import WebBundle.Output.Asset
import WebBundle.Output.Error
import WebBundle.Output.File
import WebBundle.Output.Manifest
import WebBundle.Output.Writing
import WebBundle.Page.Html
import WebBundle.Page.Minify
import WebBundle.Path.Lexical
import WebBundle.Path.Resource
import WebBundle.Pattern.Expression
import WebBundle.Pattern.Glob
import WebBundle.Pattern.Regular
import WebBundle.Proofs.Build.Assembly
import WebBundle.Proofs.Build.Failure
import WebBundle.Proofs.Build.Idempotence
import WebBundle.Proofs.Build.Inputs
import WebBundle.Proofs.Build.Planning
import WebBundle.Proofs.Build.Precache
import WebBundle.Proofs.Build.Revisions
import WebBundle.Proofs.Build.Spelling
import WebBundle.Proofs.Build.Variation
import WebBundle.Proofs.CacheGroup.Directories
import WebBundle.Proofs.CacheGroup.Ranking
import WebBundle.Proofs.Chunk.Ancestry
import WebBundle.Proofs.Chunk.Budget
import WebBundle.Proofs.Chunk.Claiming
import WebBundle.Proofs.Chunk.Correspondence
import WebBundle.Proofs.Chunk.Dissolution
import WebBundle.Proofs.Chunk.Draining
import WebBundle.Proofs.Chunk.Dropped
import WebBundle.Proofs.Chunk.Editing
import WebBundle.Proofs.Chunk.FileNames
import WebBundle.Proofs.Chunk.GroupDrafts
import WebBundle.Proofs.Chunk.HolderSets
import WebBundle.Proofs.Chunk.ImportTables
import WebBundle.Proofs.Chunk.Inheritance
import WebBundle.Proofs.Chunk.Lineage
import WebBundle.Proofs.Chunk.LoadLists
import WebBundle.Proofs.Chunk.LoadSets
import WebBundle.Proofs.Chunk.Mirror
import WebBundle.Proofs.Chunk.Naming
import WebBundle.Proofs.Chunk.Navigation
import WebBundle.Proofs.Chunk.Partition
import WebBundle.Proofs.Chunk.Relabel
import WebBundle.Proofs.Chunk.Rendering
import WebBundle.Proofs.Chunk.RuleChunks
import WebBundle.Proofs.Chunk.RuntimeLiterals
import WebBundle.Proofs.Chunk.Scope
import WebBundle.Proofs.Chunk.Shape
import WebBundle.Proofs.Chunk.Sharing
import WebBundle.Proofs.Chunk.Source
import WebBundle.Proofs.Chunk.Splitting
import WebBundle.Proofs.Chunk.Startup
import WebBundle.Proofs.Chunk.Waiting
import WebBundle.Proofs.Config.Names
import WebBundle.Proofs.Config.Root
import WebBundle.Proofs.Diagnostic.Lines
import WebBundle.Proofs.Diagnostic.Sorting
import WebBundle.Proofs.Digest.Stream
import WebBundle.Proofs.Import.Bytes
import WebBundle.Proofs.Import.Bytewise
import WebBundle.Proofs.Import.Calls
import WebBundle.Proofs.Import.Composition
import WebBundle.Proofs.Import.Locality
import WebBundle.Proofs.Import.Printing
import WebBundle.Proofs.Import.Rounds
import WebBundle.Proofs.Json.Reading
import WebBundle.Proofs.Keyed
import WebBundle.Proofs.Links.Reached
import WebBundle.Proofs.LoadGroup.Edges
import WebBundle.Proofs.LoadGroup.Elision
import WebBundle.Proofs.LoadGroup.Folding
import WebBundle.Proofs.LoadGroup.Navigation
import WebBundle.Proofs.LoadGroup.Relabel
import WebBundle.Proofs.LoadGroup.Roots
import WebBundle.Proofs.LoadGroup.Ways
import WebBundle.Proofs.Module.Candidates
import WebBundle.Proofs.Module.Discovered
import WebBundle.Proofs.Module.History
import WebBundle.Proofs.Module.Indexed
import WebBundle.Proofs.Module.Mirror
import WebBundle.Proofs.Module.Names
import WebBundle.Proofs.Module.Probes
import WebBundle.Proofs.Module.Queue
import WebBundle.Proofs.Module.Reachable
import WebBundle.Proofs.Module.Reading
import WebBundle.Proofs.Module.Search
import WebBundle.Proofs.Output.Collecting
import WebBundle.Proofs.Output.Copying
import WebBundle.Proofs.Output.Exactness
import WebBundle.Proofs.Output.Manifest
import WebBundle.Proofs.Output.Rewriting
import WebBundle.Proofs.Output.Spelling
import WebBundle.Proofs.Output.Writing
import WebBundle.Proofs.Page.Insertion
import WebBundle.Proofs.Page.Scripts
import WebBundle.Proofs.Path.Above
import WebBundle.Proofs.Path.Canonical
import WebBundle.Proofs.Path.Form
import WebBundle.Proofs.Path.Parents
import WebBundle.Proofs.Path.Steps
import WebBundle.Proofs.Places
import WebBundle.Proofs.Serve.Addresses
import WebBundle.Proofs.Serve.Confinement
import WebBundle.Proofs.Serve.Mirroring
import WebBundle.Proofs.Serve.Published
import WebBundle.Proofs.Serve.Routes
import WebBundle.Proofs.Sorting
import WebBundle.Proofs.Storage.Aiming
import WebBundle.Proofs.Storage.Errands
import WebBundle.Proofs.Storage.Items
import WebBundle.Proofs.Storage.Lexical
import WebBundle.Proofs.Storage.Making
import WebBundle.Proofs.Storage.Meeting
import WebBundle.Proofs.Storage.Parents
import WebBundle.Proofs.Storage.Steps
import WebBundle.Proofs.Storage.Tree
import WebBundle.Proofs.Storage.Writing
import WebBundle.Proofs.Text.Encoding
import WebBundle.Proofs.Text.Pieces
import WebBundle.Proofs.Toml.Keyed
import WebBundle.Serve.MediaType
import WebBundle.Serve.Response
import WebBundle.Serve.Route
import WebBundle.Storage.Basic
import WebBundle.Storage.Change
import WebBundle.Storage.Fault
import WebBundle.Text.Blank
import WebBundle.Text.CaseFold
import WebBundle.Text.Category
import WebBundle.Text.Hex
import WebBundle.Text.Letter
import WebBundle.Text.Percent
import WebBundle.Text.Runs
import WebBundle.Text.Script
import WebBundle.Text.Substring
import WebBundle.Text.Utf8
import WebBundle.Toml.Basic
import WebBundle.Toml.Reader
import WebBundle.Toml.Scalar

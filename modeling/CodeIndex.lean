import CodeIndex.Binary32
import CodeIndex.Blake3
import CodeIndex.Change
import CodeIndex.Chunk.Basic
import CodeIndex.Chunk.File
import CodeIndex.Chunk.Group
import CodeIndex.Chunk.LineWindow
import CodeIndex.Chunk.Merge
import CodeIndex.Config.Basic
import CodeIndex.Config.Decode
import CodeIndex.Config.Load
import CodeIndex.Config.Shown
import CodeIndex.Disk.Basic
import CodeIndex.Disk.Glob
import CodeIndex.Disk.IgnoreRules
import CodeIndex.Disk.Workspace
import CodeIndex.Error
import CodeIndex.FileEntry
import CodeIndex.Grouping
import CodeIndex.Http.HostName
import CodeIndex.Http.Message
import CodeIndex.Http.Percent
import CodeIndex.Http.Url
import CodeIndex.Json.Basic
import CodeIndex.Json.Printer
import CodeIndex.Json.Reader
import CodeIndex.Json.Record
import CodeIndex.Language
import CodeIndex.Path
import CodeIndex.Path.Map
import CodeIndex.Path.Raw
import CodeIndex.Provider.Buckets
import CodeIndex.Provider.OfConfig
import CodeIndex.Provider.Ollama
import CodeIndex.Provider.OpenAi
import CodeIndex.Provider.Scripted
import CodeIndex.Refresh.Embed
import CodeIndex.Refresh.Host
import CodeIndex.Refresh.Pause
import CodeIndex.Refresh.Plan
import CodeIndex.Refresh.Progress
import CodeIndex.Refresh.ProgressRecord
import CodeIndex.Refresh.Run
import CodeIndex.Search.FullText
import CodeIndex.Search.Hit
import CodeIndex.Search.Merge
import CodeIndex.Search.Pipeline
import CodeIndex.Search.Query
import CodeIndex.Search.Similarity
import CodeIndex.Session.Basic
import CodeIndex.Session.World
import CodeIndex.Store.Basic
import CodeIndex.Store.Rows
import CodeIndex.Store.Table
import CodeIndex.Store.Update
import CodeIndex.SyntaxTree
import CodeIndex.Tag
import CodeIndex.Text.Blank
import CodeIndex.Text.CaseFold
import CodeIndex.Text.Casing
import CodeIndex.Text.Lines
import CodeIndex.Text.Lowercase
import CodeIndex.Text.Part
import CodeIndex.Text.Punycode
import CodeIndex.Text.Quoted
import CodeIndex.Text.Ranges
import CodeIndex.Text.Unprintable
import CodeIndex.Text.Utf8
import CodeIndex.Text.WordChar
import CodeIndex.Toml.Reader
import CodeIndex.Toml.Scalar
import CodeIndex.Toml.Table
import CodeIndex.Proofs.Holdings
import CodeIndex.Proofs.FileUpdate
import CodeIndex.Proofs.Journal
import CodeIndex.Proofs.Batches
import CodeIndex.Proofs.Indexing
import CodeIndex.Proofs.Turns
import CodeIndex.Proofs.Reached
import CodeIndex.Proofs.Planning
import CodeIndex.Proofs.Completion
import CodeIndex.Proofs.Files
import CodeIndex.Proofs.Coherence
import CodeIndex.Proofs.Convergence
import CodeIndex.Proofs.Degraded
import CodeIndex.Proofs.Sessions
import CodeIndex.Proofs.Protocol
import CodeIndex.Proofs.Atomicity
import CodeIndex.Proofs.AtRest
import CodeIndex.Proofs.UpToDate
import CodeIndex.Proofs.Outcomes
import CodeIndex.Proofs.Endings
import CodeIndex.Proofs.Resumption
import CodeIndex.Proofs.Positions
import CodeIndex.Proofs.Lines
import CodeIndex.Proofs.Cuts
import CodeIndex.Proofs.Pieces
import CodeIndex.Proofs.LineWindows
import CodeIndex.Proofs.Passages
import CodeIndex.Proofs.Mending
import CodeIndex.Proofs.Merging
import CodeIndex.Proofs.Origins
import CodeIndex.Proofs.Chunking
import CodeIndex.Proofs.Rankings
import CodeIndex.Proofs.Words
import CodeIndex.Proofs.RawPaths
import CodeIndex.Proofs.Directories
import CodeIndex.Proofs.Retrieval
import CodeIndex.Proofs.Transactions
import CodeIndex.Proofs.Segments
import CodeIndex.Proofs.Coverage
import CodeIndex.Proofs.Expressions
import CodeIndex.Proofs.Orders
import CodeIndex.Proofs.MachineChunks
import CodeIndex.Proofs.MachineIndexing
import CodeIndex.Proofs.Conversions
import CodeIndex.Proofs.Completeness
import CodeIndex.Proofs.NamedFiles
import CodeIndex.Proofs.Nesting
import CodeIndex.Proofs.Agreement
import CodeIndex.Proofs.Pauses
import CodeIndex.Proofs.Records
import CodeIndex.Proofs.Transparency
import CodeIndex.Proofs.Clearing
import CodeIndex.Proofs.Spellings
import CodeIndex.Proofs.Classification
import CodeIndex.Proofs.Replacement
import CodeIndex.Proofs.RowKeys
import CodeIndex.Proofs.InFlight
import CodeIndex.Proofs.Groups
import CodeIndex.Proofs.Numbers
import CodeIndex.Proofs.VectorBytes
import CodeIndex.Proofs.Winners
import CodeIndex.Proofs.NanScores
import CodeIndex.Proofs.Flips
import CodeIndex.Proofs.Labels
import CodeIndex.Proofs.Endpoints

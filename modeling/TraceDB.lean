import TraceDB.Data.Bytes
import TraceDB.Data.Except
import TraceDB.Data.Codec
import TraceDB.Data.Sha256
import TraceDB.Data.Last
import TraceDB.Data.SortedMap
import TraceDB.Core.Value
import TraceDB.Core.Schema
import TraceDB.Core.Record
import TraceDB.Jobs.Catalog
import TraceDB.Log.Commit
import TraceDB.Log.Frame
import TraceDB.Log.Reference
import TraceDB.Log.Wal
import TraceDB.Log.Recovery
import TraceDB.Store.Record
import TraceDB.Store.Basic
import TraceDB.Store.Isolation
import TraceDB.Engine.Disk
import TraceDB.Engine.Schemas
import TraceDB.Engine.Handle
import TraceDB.Engine.Segment
import TraceDB.Engine.Sync
import TraceDB.Engine.Crash
import TraceDB.Engine.Atomicity
import TraceDB.Store.Tips
import TraceDB.Engine.Alike
import TraceDB.Engine.Checkpoint
import TraceDB.Store.Replay
import TraceDB.Engine.Replay
import TraceDB.Engine.Backup
import TraceDB.Core.Policy
import TraceDB.Data.Runs
import TraceDB.Engine.Receipts
import TraceDB.Server.Request
import TraceDB.Server.Handler
import TraceDB.Server.Engines
import TraceDB.Server.Idempotency
import TraceDB.Server.Reference
import TraceDB.Server.Restart
import TraceDB.Jobs.Leases
import TraceDB.Jobs.Recovery
import TraceDB.Server.Jobs
import TraceDB.Store.Planning
import TraceDB.Store.Chains
import TraceDB.Store.Stability
import TraceDB.Engine.History
import TraceDB.Data.Pages
import TraceDB.Query.Cursor
import TraceDB.Query.Scan
import TraceDB.Data.Base64
import TraceDB.Query.Reference
import TraceDB.Data.Tally
import TraceDB.Query.Text
import TraceDB.Query.Ranking
import TraceDB.Query.Hybrid
import TraceDB.Engine.Keys
import TraceDB.Engine.Nesting
import TraceDB.Query.Soundness
import TraceDB.Query.Samples
import TraceDB.Jobs.Statuses
import TraceDB.Engine.Sourcing
import TraceDB.Keeper.Service
import TraceDB.Keeper.Durability
import TraceDB.Data.Versioned
import TraceDB.Remote.Manifest
import TraceDB.Remote.Lease
import TraceDB.Server.Aliases
import TraceDB.Engine.Faults
import TraceDB.Query.Visibility
import TraceDB.Query.Transparency
import TraceDB.Store.Tenants
import TraceDB.Server.Commands
import TraceDB.Server.Tenants
import TraceDB.Store.Dimensions
import TraceDB.Engine.Dimensions
import TraceDB.Core.Names
import TraceDB.Remote.Keys
import TraceDB.Server.Shards
import TraceDB.Server.Framing
import TraceDB.Data.Files
import TraceDB.Data.Paths
import TraceDB.Engine.Copies
import TraceDB.Data.BestFirst
import TraceDB.Index.Vector
import TraceDB.Index.Search
import TraceDB.Index.Scores
import TraceDB.Index.Artifact
import TraceDB.Query.Freshness
import TraceDB.Data.Traverse
import TraceDB.Vault.Reading
import TraceDB.Vault.Basic
import TraceDB.Lang.Basic
import TraceDB.Lang.Sqlish
import TraceDB.Lang.Traceql
import TraceDB.Server.Actor
import TraceDB.Server.Decoding
import TraceDB.Data.Brackets
import TraceDB.Lang.Statements
import TraceDB.Lang.Words
import TraceDB.Lang.Comments
import TraceDB.Lang.Reference
import TraceDB.Lang.Directives
import TraceDB.Lang.Graphql
import TraceDB.Server.Endpoint
import TraceDB.Data.Taking
import TraceDB.Lang.Components
import TraceDB.Server.JobFaults
import TraceDB.Data.Tokens
import TraceDB.Lang.Printer
import TraceDB.Lang.TraceqlPrinter
import TraceDB.Lang.SqlishScan
import TraceDB.Lang.SqlishPrinter
import TraceDB.Lang.GraphqlScan
import TraceDB.Lang.GraphqlPrinter
import TraceDB.Core.Validation
import TraceDB.Core.Envelope
import TraceDB.Index.Legacy
import TraceDB.Lang.Sdl
import TraceDB.Query.Tiers
import TraceDB.Store.Features
import TraceDB.Index.Postings
import TraceDB.Index.TextScores
import TraceDB.Log.Scan
import TraceDB.Index.Answers
import TraceDB.Index.Graph
import TraceDB.Index.Overlooked
import TraceDB.Data.BestFirstOrder
import TraceDB.Index.Levels
import TraceDB.Index.Optimum
import TraceDB.Jobs.Identity
import TraceDB.Query.Integrity
import TraceDB.Lang.GraphqlRoundTrip
import TraceDB.Store.Live
import TraceDB.Engine.Fields
import TraceDB.Vault.Sealing
import TraceDB.Vault.Calls
import TraceDB.Vault.Faithful
import TraceDB.Vault.Intact
import TraceDB.Vault.Vacuum
import TraceDB.Data.Aead
import TraceDB.Core.Encryption
import TraceDB.Engine.Sessions
import TraceDB.Data.Fencing
import TraceDB.Vault.Clones
import TraceDB.Server.FrontEnds
import TraceDB.Server.Client
import TraceDB.Server.Socket
import TraceDB.Server.Responses
import TraceDB.Data.Growth
import TraceDB.Engine.Epochs
import TraceDB.Server.Durable
import TraceDB.Server.Ledger

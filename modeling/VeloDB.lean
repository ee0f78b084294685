import VeloDB.Lib.Nom
import VeloDB.Lib.Float
import VeloDB.Host
import VeloDB.Resp.Parser
import VeloDB.Resp.Serializer
import VeloDB.Lib.Ring
import VeloDB.Lib.Run
import VeloDB.Replication.Backlog
import VeloDB.Replication.Master
import VeloDB.Replication.Resync
import VeloDB.Lib.BTree
import VeloDB.Lib.Cursor
import VeloDB.Lib.HashMap
import VeloDB.Lib.Proc
import VeloDB.Store.Types
import VeloDB.Store.Keyspace
import VeloDB.Persist.Rdb
import VeloDB.Persist.RdbRoundTrip
import VeloDB.Replication.Replica
import VeloDB.Store.Containers
import VeloDB.Store.Lists
import VeloDB.Store.Hashes
import VeloDB.Store.Sets
import VeloDB.Store.Zsets
import VeloDB.Store.Streams
import VeloDB.Cmd.Context
import VeloDB.Cmd.Strings
import VeloDB.Cmd.Containers
import VeloDB.Cmd.Streams
import VeloDB.Cmd.Server
import VeloDB.Cmd.Table
import VeloDB.Persist.Aof
import VeloDB.Persist.AofRewrite
import VeloDB.Net.Connection
import VeloDB.Net.Chunking
import VeloDB.Net.Auth
import VeloDB.Store.ZsetIndex
import VeloDB.Persist.ZsetReload
import VeloDB.Cmd.Scan
import VeloDB.Cmd.Purged
import VeloDB.Replication.Stream
import VeloDB.Net.Writes
import VeloDB.Replication.Reconnect
import VeloDB.Net.SharedLog
import VeloDB.Net.LogOrder
import VeloDB.Cmd.Acknowledged
import VeloDB.Cmd.ErrorReplies
import VeloDB.Cmd.Watched
import VeloDB.Net.Watch
import VeloDB.Cmd.StreamIds
import VeloDB.Cmd.GroupCalls
import VeloDB.Cmd.Delivery
import VeloDB.Cmd.Pending
import VeloDB.Cmd.GroupLife
import VeloDB.Cmd.GroupRace
import VeloDB.Cmd.StringRace
import VeloDB.Net.Unlogged
import VeloDB.Net.ReplayTime
import VeloDB.Cmd.Local
import VeloDB.Net.Startup
import VeloDB.Cmd.Exclusive
import VeloDB.Net.ListQueue
import VeloDB.Cmd.Expiry
import VeloDB.Persist.RdbEdges
import VeloDB.Persist.BothForms
import VeloDB.Lib.FileSystem
import VeloDB.Persist.AofSwap
import VeloDB.Net.RewriteRace
import VeloDB.Net.BlockingRace
import VeloDB.Lib.Movers
import VeloDB.Net.ExecBlock
import VeloDB.Lib.Framing
import VeloDB.Persist.RdbFraming
import VeloDB.Lib.Checksum
import VeloDB.Persist.RdbCorruption
import VeloDB.Cmd.Arity
import VeloDB.Net.Stall
import VeloDB.Cmd.Liveness
import VeloDB.Cmd.Trace
import VeloDB.Cmd.Stale
import VeloDB.Cmd.StaleReplies
import VeloDB.Net.Revival
import VeloDB.Resp.Frames
import VeloDB.Cmd.Replies
import VeloDB.Cmd.ReplyTable
import VeloDB.Cmd.OneReply
import VeloDB.Cmd.ReplyFrame
import VeloDB.Cmd.Subscriptions
import VeloDB.Cmd.ContextSteps
import VeloDB.Net.Sessions
import VeloDB.Net.Transactions
import VeloDB.Net.ExecReply
import VeloDB.Replication.FailedSync
import VeloDB.Cmd.ScanEviction
import VeloDB.Store.ZsetRanks
import VeloDB.Cmd.ZsetScores
import VeloDB.Cmd.PublishRace
import VeloDB.Net.Subscribers
import VeloDB.Cmd.IndexRanges
import VeloDB.Lib.Occurrences
import VeloDB.Store.ListRemoval
import VeloDB.Store.RandomMembers
import VeloDB.Cmd.GroupReads
import VeloDB.Cmd.StreamPages
import VeloDB.Replication.Handshake
import VeloDB.Cmd.ListPushes
import VeloDB.Cmd.SetAlgebra
import VeloDB.Store.ActiveExpiry
import VeloDB.Cmd.Counters
import VeloDB.Cmd.ExpiryInstants
import VeloDB.Cmd.StringExpiry
import VeloDB.Cmd.NextIds
import VeloDB.Cmd.StreamReads
import VeloDB.Cmd.OutOfMemory
import VeloDB.Cmd.Panics
import VeloDB.Cmd.Methods
import VeloDB.Lib.NestedMap
import VeloDB.Store.NestedHashes
import VeloDB.Resp.Unambiguous
import VeloDB.Cmd.HashSlots
import VeloDB.Config
import VeloDB.Net.Hello
import VeloDB.Net.LogPaths
import VeloDB.Lib.Footprint
import VeloDB.Store.Locality
import VeloDB.Cmd.Locality
import VeloDB.Lib.Object
import VeloDB.Lib.FiniteMap
import VeloDB.Store.Content
import VeloDB.Cmd.Objects
import VeloDB.Cmd.Apart
import VeloDB.Net.Background
import VeloDB.Lib.Replacement
import VeloDB.Net.Snapshots
import VeloDB.Cmd.Scripts
import VeloDB.Cli
import VeloDB.Lib.Accepts
import VeloDB.Resp.Grammar
import VeloDB.Cmd.KeptTypes
import VeloDB.Cmd.Forwarding
import VeloDB.Cluster
import VeloDB.Net.Feeds
import VeloDB.ConfigFile
import VeloDB.Cmd.Leases

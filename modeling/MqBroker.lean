import MqBroker.Lib.Bytes
import MqBroker.Lib.Decimal
import MqBroker.Lib.Crc
import MqBroker.Lib.Runs
import MqBroker.Lib.Traced
import MqBroker.Lib.Table
import MqBroker.Lib.Chain
import MqBroker.Lib.Incremental
import MqBroker.Lib.Dealing
import MqBroker.Lib.Early
import MqBroker.Lib.Election
import MqBroker.Lib.Reader
import MqBroker.Lib.Upsert
import MqBroker.Core.Topic
import MqBroker.Core.ConsumerGroup
import MqBroker.Core.Assignment
import MqBroker.Core.Membership
import MqBroker.Storage.Record
import MqBroker.Storage.Engine
import MqBroker.Storage.Recovery
import MqBroker.Storage.Crash
import MqBroker.Storage.Corruption
import MqBroker.Storage.Store
import MqBroker.Storage.Retained
import MqBroker.Replication.Coordinator
import MqBroker.Replication.Ballot
import MqBroker.Replication.StateFile
import MqBroker.Replication.Durability
import MqBroker.Replication.Commit
import MqBroker.Replication.Cluster
import MqBroker.Broker.Protocol
import MqBroker.Protocol.Codec
import MqBroker.Protocol.Stream
import MqBroker.Protocol.Responses
import MqBroker.Broker.State
import MqBroker.Broker.Restart
import MqBroker.Broker.HeartbeatRound
import MqBroker.Broker.Produce
import MqBroker.Broker.Idempotence
import MqBroker.Broker.ReplicaAppend
import MqBroker.Broker.Parsers
import MqBroker.Broker.Bounds
import MqBroker.Broker.Layouts
import MqBroker.Broker.Heartbeat
import MqBroker.Broker.JoinGroup
import MqBroker.Broker.Topics
import MqBroker.Broker.Pull
import MqBroker.Cluster.Brokers
import MqBroker.Cluster.Steps
import MqBroker.Cluster.Wire
import MqBroker.Cluster.Committed
import MqBroker.Cluster.LogPosition
import MqBroker.Cluster.Progress
import MqBroker.Cluster.AckAll
import MqBroker.Cluster.LogMatching
import MqBroker.Cluster.NextPush
import MqBroker.Cluster.Elections
import MqBroker.Cluster.Completeness
import MqBroker.Cluster.ReplicaSet
import MqBroker.Cluster.FixedLeader
import MqBroker.Server.Handle
import MqBroker.Server.Runs
import MqBroker.Client.Call
import MqBroker.Server.GroupHeartbeat
import MqBroker.Server.Answers
import MqBroker.Server.Consuming
import MqBroker.Client.Requests
import MqBroker.Client.Replies
import MqBroker.Server.MetadataFiles
import MqBroker.Server.Metadata
import MqBroker.Server.Assignments
import MqBroker.Server.Topics
import MqBroker.Server.Offsets
import MqBroker.Server.OffsetLog
import MqBroker.Server.DeleteCrash
import MqBroker.Storage.Paths
import MqBroker.Server.Recreated
import MqBroker.Server.Isolation
import MqBroker.Server.Access
import MqBroker.Server.Whitelist
import MqBroker.Lib.InTurn
import MqBroker.Broker.Batch
import MqBroker.Server.Batches
import MqBroker.Storage.Calls
import MqBroker.Storage.Directory
import MqBroker.Lib.Fitting
import MqBroker.Storage.Reading
import MqBroker.Storage.Retention
import MqBroker.Storage.Bookkeeping
import MqBroker.Storage.FailedAppend
import MqBroker.Storage.Streams
import MqBroker.Storage.FailedWrites
import MqBroker.Broker.PartialAppend
import MqBroker.Broker.BatchRefusals
import MqBroker.Server.Growth
import MqBroker.Client.Consumer
import MqBroker.Client.InOrder
import MqBroker.Lib.Utf8
import MqBroker.Core.TopicNames
import MqBroker.Client.Sizes
import MqBroker.Server.PushBatch
import MqBroker.Client.ReplicationClient
import MqBroker.Lib.Metering
import MqBroker.Lib.FixedWindows
import MqBroker.Broker.Quota
import MqBroker.Replication.Rounds
import MqBroker.Server.PullCursor
import MqBroker.Server.GroupFetch
import MqBroker.Lib.BitFill
import MqBroker.Lib.TicketRing
import MqBroker.Core.MpmcQueue
import MqBroker.Core.QueueOrder
import MqBroker.Lib.Custody
import MqBroker.Core.ThreadPool
import MqBroker.Core.PoolDrain
import MqBroker.Lib.Block
import MqBroker.Network.Buffer
import MqBroker.Network.TcpConnection
import MqBroker.Network.TcpServer
import MqBroker.Network.Descriptors
import MqBroker.Network.Ledger
import MqBroker.Network.Streams
import MqBroker.Network.Wakeups
import MqBroker.Network.Serving
import MqBroker.Network.Sessions
import MqBroker.Network.Exchanges
import MqBroker.Lib.FreeList
import MqBroker.Core.SlabAllocator
import MqBroker.Core.SlabBlocks
import MqBroker.Core.Logger
import MqBroker.Lib.CountedList
import MqBroker.Client.ResponseParsers
import MqBroker.Server.Config
import MqBroker.Server.RetentionHours
import MqBroker.Lib.Rotation
import MqBroker.Client.Endpoints
import MqBroker.Client.History
import MqBroker.Network.Remote
import MqBroker.Server.Acknowledged
import MqBroker.Server.RequestIds
import MqBroker.Network.Published
import MqBroker.Network.EventLoop
import MqBroker.Network.LoopTasks
import MqBroker.Server.Permissions

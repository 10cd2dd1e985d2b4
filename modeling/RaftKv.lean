import RaftKv.Foundation.Reader
import RaftKv.Foundation.Word
import RaftKv.Foundation.Counting
import RaftKv.Foundation.Table
import RaftKv.TermLog.Protocol
import RaftKv.TermLog.Growth
import RaftKv.TermLog.Invariant
import RaftKv.TermLog.Preservation
import RaftKv.TermLog.Replication
import RaftKv.TermLog.Copy
import RaftKv.Proto
import RaftKv.Wal.Record
import RaftKv.Wal.Log
import RaftKv.Raft.State
import RaftKv.Raft.Election
import RaftKv.Raft.Replication
import RaftKv.Raft.Loops
import RaftKv.Wal.Durable
import RaftKv.Raft.Input
import RaftKv.Raft.Move
import RaftKv.Raft.Storage
import RaftKv.Raft.Append
import RaftKv.Raft.Applied
import RaftKv.Raft.Compaction
import RaftKv.Raft.Link
import RaftKv.Raft.Sent
import RaftKv.Raft.Ballot
import RaftKv.Raft.Campaign
import RaftKv.Raft.Progress
import RaftKv.Raft.Role
import RaftKv.Raft.Emit
import RaftKv.Raft.Output
import RaftKv.Raft.Range
import RaftKv.Raft.Indices
import RaftKv.Raft.Mirror
import RaftKv.Foundation.Crc
import RaftKv.Foundation.Framing
import RaftKv.Foundation.Stream
import RaftKv.Foundation.Varint
import RaftKv.Wal.Crc
import RaftKv.Wal.File
import RaftKv.Wal.Msgpack
import RaftKv.Wal.Checksum
import RaftKv.Wal.Format
import RaftKv.Wal.Packing
import RaftKv.Wal.Recover
import RaftKv.Wal.Written
import RaftKv.Wal.Damage
import RaftKv.Wal.Burst
import RaftKv.Node.Boot
import RaftKv.Node.Run
import RaftKv.Node.Indices
import RaftKv.Node.Oversize
import RaftKv.Node.Append
import RaftKv.Node.Compaction
import RaftKv.Node.CatchUp
import RaftKv.Node.Send
import RaftKv.Node.Quorum
import RaftKv.Resp.Codec
import RaftKv.Resp.Grammar
import RaftKv.Resp.Session
import RaftKv.Resp.Order
import RaftKv.Resp.Malformed
import RaftKv.Resp.Reply
import RaftKv.Cluster.State
import RaftKv.Cluster.Election
import RaftKv.Cluster.Progress
import RaftKv.Cluster.Trace
import RaftKv.Cluster.PreVote
import RaftKv.Cluster.ReadRound
import RaftKv.Cluster.Read
import RaftKv.Cluster.Abstraction
import RaftKv.Cluster.Merge
import RaftKv.Cluster.Records
import RaftKv.Cluster.Following
import RaftKv.Cluster.Roles
import RaftKv.Cluster.Spoken
import RaftKv.Cluster.Simulation
import RaftKv.Cluster.Whole
import RaftKv.Cluster.Stream
import RaftKv.Cluster.Copying
import RaftKv.Cluster.Reorder
import RaftKv.Cluster.Durability
import RaftKv.Cluster.Agreement
import RaftKv.Cluster.Ledger
import RaftKv.Cluster.Cover
import RaftKv.Cluster.Files
import RaftKv.Runtime.Read
import RaftKv.Runtime.Exchange
import RaftKv.Runtime.Handoff
import RaftKv.Runtime.Applying
import RaftKv.Runtime.Committed
import RaftKv.Runtime.Replay
import RaftKv.Runtime.Recovery
import RaftKv.Runtime.Restart
import RaftKv.Raft.Within
import RaftKv.Runtime.Loop
import RaftKv.Runtime.Callbacks
import RaftKv.Runtime.Requests
import RaftKv.Runtime.Fleet
import RaftKv.Runtime.Provenance
import RaftKv.Runtime.Traced
import RaftKv.Runtime.Refusal
import RaftKv.Runtime.WriteReply
import RaftKv.Runtime.Turns
import RaftKv.Runtime.Queues
import RaftKv.Runtime.Replayed
import RaftKv.Runtime.Shadow
import RaftKv.Runtime.Followed
import RaftKv.Runtime.Served
import RaftKv.Store.Packing
import RaftKv.Store.Captured
import RaftKv.Runtime.Linear
import RaftKv.Runtime.Client
import RaftKv.Transport.ByteBuffer
import RaftKv.Transport.Framing
import RaftKv.Transport.Queue
import RaftKv.Transport.Waiting
import RaftKv.Runtime.Unreachable

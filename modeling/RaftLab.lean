import RaftLab.Lib.Runs
import RaftLab.Lib.Quorum
import RaftLab.Lib.TermLog
import RaftLab.Lib.TermLogInv
import RaftLab.Lib.Slice
import RaftLab.Lib.TermLogSafety
import RaftLab.Raft1.Cluster
import RaftLab.Raft1.Changes
import RaftLab.Raft1.Election
import RaftLab.Raft1.Replication
import RaftLab.Raft1.Safety
import RaftLab.Raft1.Progress
import RaftLab.Raft1.Indexes
import RaftLab.Raft1.Agreement
import RaftLab.Raft1.Delivery
import RaftLab.Raft1.Provenance
import RaftLab.Raft1.Placement
import RaftLab.Raft1.Reconcile
import RaftLab.Raft1.Probes
import RaftLab.Raft1.CommitRule
import RaftLab.Raft1.Majority
import RaftLab.Raft1.Availability
import RaftLab.Raft1.Triggers
import RaftLab.Raft1.PersisterWal
import RaftLab.Raft1.Deployment
import RaftLab.Persist.File
import RaftLab.Raft1.WalMirror
import RaftLab.Transport.Grpc
import RaftLab.FileWal.Model
import RaftLab.FileWal.Recovery
import RaftLab.FileWal.Limits
import RaftLab.FileWal.Size
import RaftLab.Kvraft1.Node
import RaftLab.Kvsrv1.Server
import RaftLab.Lib.Executions
import RaftLab.Lib.Substitution
import RaftLab.Lib.Retry
import RaftLab.Kvsrv1.Clerk
import RaftLab.Kvsrv1.Lock
import RaftLab.Kvsrv1.LockSafety
import RaftLab.Kvraft1.Clerk
import RaftLab.Kvsrv1.AnyOrder
import RaftLab.Kvraft1.Replica
import RaftLab.Kvraft1.Restart
import RaftLab.Lib.Handover
import RaftLab.Lib.Balance
import RaftLab.Shardkv1.Config
import RaftLab.Shardkv1.Rebalance
import RaftLab.Shardkv1.Group
import RaftLab.Shardkv1.Replica
import RaftLab.Shardkv1.Fencing
import RaftLab.Shardkv1.Migration
import RaftLab.Shardkv1.MigrationSafety
import RaftLab.Kvraft1.Rsm
import RaftLab.Kvraft1.RsmSafety
import RaftLab.Kvraft1.Waiters
import RaftLab.Kvraft1.Numbers
import RaftLab.Kvraft1.Service
import RaftLab.Kvraft1.ServiceSafety
import RaftLab.Kvraft1.ServiceObject
import RaftLab.Kvraft1.Raftkvd
import RaftLab.Kvraft1.RaftkvdSafety
import RaftLab.Kvraft1.Processes
import RaftLab.Kvraft1.RaftkvdLinear
import RaftLab.Kvraft1.Raftkvctl
import RaftLab.Shardkv1.Client
import RaftLab.Shardkv1.ClientSafety
import RaftLab.Shardkv1.Controller
import RaftLab.Shardkv1.ControllerSafety
import RaftLab.Shardkv1.Registers
import RaftLab.Shardkv1.Fleet
import RaftLab.Shardkv1.FleetShadow
import RaftLab.Shardkv1.FleetSteps
import RaftLab.Shardkv1.FleetSafety
import RaftLab.Shardkv1.Control
import RaftLab.Shardkv1.ControlSafety

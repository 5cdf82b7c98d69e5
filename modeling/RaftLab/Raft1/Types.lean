/-
  File:      RaftLab/Raft1/Types.lean
  Subject:   The data of `src/raft1/raft.go`, `src/raft1/wal.go` and `src/raftapi`: log entries,
             RPC arguments and replies, `ApplyMsg`, and the WAL contract with its reference state.

  Node ids and commands are type parameters. A `transport.NodeID` that may be the empty string
  (`voteFor`, `leaderId`) is an `Option`: `none` is `""`. A `[]byte` that may be nil (a snapshot)
  is an `Option Bytes`: `none` is nil. The nil command of a sentinel is `default`.

  `PersistState.apply` is the effect of one WAL call on the durable state, as
  `persisterWAL` computes it on its model; `none` is a slice panic. `WalOp.cut` is what a crash
  leaves of the call it falls into: of an `AppendLog` its first entries, of any other nothing.
-/
import RaftLab.Lib.Slice
import RaftLab.Lib.Torn

namespace RaftLab.Raft1

open RaftLab.Lib

abbrev Bytes := List UInt8

/-- `Leader`, `Follower`, `Candidate`: the values of `customerId`. -/
inductive Role where
  | leader
  | follower
  | candidate
  deriving DecidableEq, Repr

structure LogEntry (Cmd : Type) where
  command : Cmd
  term : ℕ
  deriving DecidableEq, Repr

/-- `LogEntry{Term: t}`: the entry that stands for a compacted prefix. -/
def LogEntry.sentinel {Cmd : Type} [Inhabited Cmd] (t : ℕ) : LogEntry Cmd := ⟨default, t⟩

structure AppendEntries (NodeID Cmd : Type) where
  term : ℕ
  leaderId : NodeID
  prevLogIndex : ℕ
  prevLogTerm : ℕ
  entries : List (LogEntry Cmd)
  leaderCommit : ℕ
  snapshot : Option Bytes
  snapshotIndex : ℕ
  snapshotTerm : ℕ
  deriving DecidableEq

structure AppendEntriesReply where
  term : ℕ
  success : Bool
  lastMatchIndex : ℕ
  deriving DecidableEq

structure RequestVoteArgs (NodeID : Type) where
  term : ℕ
  candidateId : NodeID
  lastLogIndex : ℕ
  lastLogTerm : ℕ
  deriving DecidableEq

structure RequestVoteReply where
  term : ℕ
  voteGranted : Bool
  deriving DecidableEq

structure TimeoutNowArgs (NodeID : Type) where
  term : ℕ
  leaderId : NodeID
  lastLogIndex : ℕ
  lastLogTerm : ℕ
  deriving DecidableEq

structure TimeoutNowReply where
  term : ℕ
  accepted : Bool
  deriving DecidableEq

/-- `electionRound`: what a candidate captures under the lock and sends after it. -/
structure ElectionRound where
  term : ℕ
  lastLogIndex : ℕ
  lastLogTerm : ℕ

/-- `raftapi.ApplyMsg` -/
structure ApplyMsg (Cmd : Type) where
  commandValid : Bool
  command : Cmd
  commandIndex : ℕ
  snapshotValid : Bool
  snapshot : Option Bytes
  snapshotTerm : ℕ
  snapshotIndex : ℕ
  deriving DecidableEq

/-! ## The WAL contract -/

/-- A call on `rf.wal`. -/
inductive WalOp (NodeID Cmd : Type) where
  | saveMeta (term : ℕ) (vote : Option NodeID)
  | appendLog (entries : List (LogEntry Cmd))
  | truncateSuffix (fromIndex : ℕ)
  | saveSnapshot (snapshotIndex sentinelTerm : ℕ) (snapshot : Option Bytes)
      (suffix : List (LogEntry Cmd))
  deriving DecidableEq

/-- `PersistState`: what `Load` returns. -/
structure PersistState (NodeID Cmd : Type) where
  term : ℕ
  vote : Option NodeID
  logs : List (LogEntry Cmd)
  snapshotIndex : ℕ
  snapshot : Option Bytes
  deriving DecidableEq

namespace PersistState

variable {NodeID Cmd : Type} [Inhabited Cmd]

/-- A node that has never written: `MakeWithWAL`'s literal and `newPersisterWAL`'s seed. -/
def fresh : PersistState NodeID Cmd where
  term := 0
  vote := none
  logs := [.sentinel 0]
  snapshotIndex := 0
  snapshot := none

/-- The effect of one completed call. -/
def apply (st : PersistState NodeID Cmd) : WalOp NodeID Cmd → Option (PersistState NodeID Cmd)
  | .saveMeta term vote => some { st with term := term, vote := vote }
  | .appendLog entries => some { st with logs := st.logs ++ entries }
  | .truncateSuffix fromIndex => do
      let logs ← Slice.upto? st.logs ((fromIndex : Int) - st.snapshotIndex)
      some { st with logs := logs }
  | .saveSnapshot snapshotIndex sentinelTerm snapshot suffix =>
      some { st with
        logs := .sentinel sentinelTerm :: suffix
        snapshotIndex := snapshotIndex
        snapshot := snapshot }

/-- The effect of a sequence of completed calls. -/
def applyAll (st : PersistState NodeID Cmd) (ops : List (WalOp NodeID Cmd)) :
    Option (PersistState NodeID Cmd) := ops.foldlM apply st

@[simp] theorem applyAll_nil (st : PersistState NodeID Cmd) : st.applyAll [] = some st := rfl

theorem applyAll_cons (st : PersistState NodeID Cmd) (op : WalOp NodeID Cmd)
    (ops : List (WalOp NodeID Cmd)) :
    st.applyAll (op :: ops) = (st.apply op).bind fun st' => st'.applyAll ops := rfl

end PersistState

/-- The call with its snapshot as a WAL gives it back: an empty slice is stored as nil. -/
def WalOp.stored {NodeID Cmd : Type} : WalOp NodeID Cmd → WalOp NodeID Cmd
  | .saveSnapshot snapshotIndex sentinelTerm snapshot suffix =>
      .saveSnapshot snapshotIndex sentinelTerm (Slice.nilIfEmpty snapshot) suffix
  | op => op

/-- A call with a snapshot has one that is not empty. -/
def WalOp.Filled {NodeID Cmd : Type} : WalOp NodeID Cmd → Prop
  | .saveSnapshot _ _ snapshot _ => snapshot ≠ some []
  | _ => True

theorem WalOp.Filled.stored {NodeID Cmd : Type} {op : WalOp NodeID Cmd} (h : op.Filled) :
    op.stored = op := by
  cases op with
  | saveSnapshot index term snapshot suffix =>
      rw [WalOp.stored, Slice.nilIfEmpty_of_ne h]
  | saveMeta | appendLog | truncateSuffix => rfl

/-- What a crash leaves of the call it falls into: of an `AppendLog` the first `j` entries. -/
def WalOp.cut {NodeID Cmd : Type} : WalOp NodeID Cmd → ℕ → List (WalOp NodeID Cmd)
  | .appendLog entries, j => [.appendLog (entries.take j)]
  | _, _ => []

end RaftLab.Raft1

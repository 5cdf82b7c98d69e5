/-
  File:      RaftLab/Raft1/Server.lean
  Subject:   One Raft server: every critical section of `src/raft1/raft.go` as a function on the
             server's state.

  Each function is what the source does between `rf.mu.Lock()` and the release. Two fields are
  not the source's own: `wal` collects the calls made on `rf.wal` in the order they are made
  (Cluster.lean applies them to the disk, or to a prefix of them at a crash), and `resetCh` is
  the fill of the one-slot channel. `none` is a panic or `log.Fatalf`. The identity `me` and the
  list `nodeIDs` never change after `MakeWithWAL` and are arguments. `newEntryCh`, `applyCond`
  and `done` only wake goroutines; every goroutine here may run at any time.
-/
import RaftLab.Raft1.Types

namespace RaftLab.Raft1

open RaftLab.Lib

/-- The `Raft` struct. -/
structure Raft (NodeID Cmd : Type) where
  term : ℕ
  voteFor : Option NodeID
  logs : List (LogEntry Cmd)
  customerId : Role
  leaderId : Option NodeID
  voteCount : ℕ
  commitIndex : ℕ
  appliedIndex : ℕ
  snapshotIndex : ℕ
  snapshot : Option Bytes
  matchIndex : NodeID → ℕ
  nextIndex : NodeID → ℕ
  electionGeneration : ℕ
  resetCh : Bool
  wal : List (WalOp NodeID Cmd)

namespace Raft

variable {NodeID Cmd : Type}

/-! ## 1. Log index helpers -/

def relIdx (rf : Raft NodeID Cmd) (absIdx : ℕ) : Int := (absIdx : Int) - rf.snapshotIndex

def lastLogIndex (rf : Raft NodeID Cmd) : ℕ := rf.logs.length - 1 + rf.snapshotIndex

def logAt (rf : Raft NodeID Cmd) (absIdx : ℕ) : Option (LogEntry Cmd) :=
  Slice.index rf.logs (rf.relIdx absIdx)

/-- `rf.logs[len(rf.logs)-1].Term` -/
def lastLogTerm (rf : Raft NodeID Cmd) : Option ℕ :=
  (Slice.index rf.logs ((rf.logs.length : Int) - 1)).map (·.term)

/-! ## 2. Internal helpers -/

def stepDown (rf : Raft NodeID Cmd) (newTerm : ℕ) : Raft NodeID Cmd :=
  { rf with
    term := newTerm
    customerId := .follower
    leaderId := none
    voteFor := none
    voteCount := 0
    wal := rf.wal ++ [.saveMeta newTerm none] }

def resetElectionTimerLocked (rf : Raft NodeID Cmd) : Raft NodeID Cmd :=
  { rf with electionGeneration := rf.electionGeneration + 1, resetCh := true }

def beginElectionLocked (me : NodeID) (rf : Raft NodeID Cmd) :
    Option (Raft NodeID Cmd × ElectionRound) := do
  let rf : Raft NodeID Cmd := { rf with
    term := rf.term + 1
    customerId := .candidate
    leaderId := none
    voteFor := some me
    voteCount := 1
    wal := rf.wal ++ [.saveMeta (rf.term + 1) (some me)] }
  let rf := rf.resetElectionTimerLocked
  let lastLogTerm ← rf.lastLogTerm
  some (rf, { term := rf.term, lastLogIndex := rf.lastLogIndex, lastLogTerm := lastLogTerm })

/-- The requests of an election round, one for each other node. -/
def sendRequestVotes [DecidableEq NodeID] (me : NodeID) (nodeIDs : List NodeID)
    (round : ElectionRound) : List (NodeID × RequestVoteArgs NodeID) :=
  (nodeIDs.filter (· ≠ me)).map fun id =>
    (id, { term := round.term, candidateId := me, lastLogIndex := round.lastLogIndex,
           lastLogTerm := round.lastLogTerm })

/-! ## 3. The service's snapshot -/

section Snapshot

variable [Inhabited Cmd]

/-- `Snapshot(index, snapshot)` -/
def snapshotUpTo (rf : Raft NodeID Cmd) (index : ℕ) (snapshot : Bytes) :
    Option (Raft NodeID Cmd) :=
  if index ≤ rf.snapshotIndex then
    some rf
  else if index > rf.lastLogIndex then
    none -- log.Fatalf
  else do
    let e ← rf.logAt index
    let suffix ← Slice.from? rf.logs (rf.relIdx index + 1)
    some { rf with
      logs := .sentinel e.term :: suffix
      snapshotIndex := index
      snapshot := some snapshot
      wal := rf.wal ++ [.saveSnapshot index e.term (some snapshot) suffix] }

end Snapshot

/-! ## 4. RPC handlers -/

def requestVote [DecidableEq NodeID] (rf : Raft NodeID Cmd) (args : RequestVoteArgs NodeID) :
    Option (Raft NodeID Cmd × RequestVoteReply) :=
  if args.term < rf.term then
    some (rf, { term := rf.term, voteGranted := false })
  else do
    let rf := if args.term > rf.term then rf.stepDown args.term else rf
    let lastIdx := rf.lastLogIndex
    let lastTerm ← rf.lastLogTerm
    let logOk := args.lastLogTerm > lastTerm ∨
      (args.lastLogTerm = lastTerm ∧ args.lastLogIndex ≥ lastIdx)
    if (rf.voteFor = none ∨ rf.voteFor = some args.candidateId) ∧ logOk then
      let rf : Raft NodeID Cmd := { rf with
        voteFor := some args.candidateId
        wal := rf.wal ++ [.saveMeta rf.term (some args.candidateId)] }
      some (rf.resetElectionTimerLocked, { term := rf.term, voteGranted := true })
    else
      some (rf, { term := rf.term, voteGranted := false })

section AppendEntriesHandler

variable [Inhabited Cmd]

/-- The part of `AppendEntriesHandler` every accepted message goes through. -/
def acceptLeader (rf : Raft NodeID Cmd) (term : ℕ) (leaderId : NodeID) : Raft NodeID Cmd :=
  let rf := if term > rf.term then rf.stepDown term else rf
  { rf with customerId := .follower, leaderId := some leaderId }.resetElectionTimerLocked

/-- Whether the log holds the snapshot's last entry: the test that keeps the suffix. -/
def holdsSnapshotEntry (rf : Raft NodeID Cmd) (args : AppendEntries NodeID Cmd) : Option Bool :=
  if rf.relIdx args.snapshotIndex < rf.logs.length then do
    let e ← rf.logAt args.snapshotIndex
    some (decide (e.term = args.snapshotTerm))
  else
    some false

/-- The InstallSnapshot branch of `AppendEntriesHandler`. -/
def installSnapshot (rf : Raft NodeID Cmd) (args : AppendEntries NodeID Cmd) (snapshot : Bytes) :
    Option (Raft NodeID Cmd × AppendEntriesReply) :=
  if args.snapshotIndex ≤ rf.snapshotIndex then
    some (rf, { term := rf.term, success := true, lastMatchIndex := rf.snapshotIndex })
  else do
    let keep ← rf.holdsSnapshotEntry args
    let suffix ← if keep then Slice.from? rf.logs (rf.relIdx args.snapshotIndex + 1) else some []
    let rf : Raft NodeID Cmd := { rf with
      snapshot := some snapshot
      logs := .sentinel args.snapshotTerm :: suffix
      snapshotIndex := args.snapshotIndex
      commitIndex := max rf.commitIndex args.snapshotIndex
      wal := rf.wal ++
        [.saveSnapshot args.snapshotIndex args.snapshotTerm (some snapshot) suffix] }
    some (rf, { term := rf.term, success := true, lastMatchIndex := rf.snapshotIndex })

/-- `for i := args.PrevLogIndex; i > rf.snapshotIndex; i--`: the first index below the
    conflicting term's block, 0 if the block reaches the snapshot. -/
def skipConflictTerm (rf : Raft NodeID Cmd) (conflictTerm : ℕ) : ℕ → Option ℕ
  | 0 => some 0
  | i + 1 =>
      if i + 1 > rf.snapshotIndex then do
        let e ← rf.logAt (i + 1)
        if e.term ≠ conflictTerm then some (i + 1) else rf.skipConflictTerm conflictTerm i
      else
        some 0

/-- `for i < len(args.Entries)`: how many of the entries the log already holds, by term. -/
def matchingEntries (rf : Raft NodeID Cmd) (prevLogIndex : ℕ) : List (LogEntry Cmd) → ℕ → Option ℕ
  | [], i => some i
  | entry :: rest, i =>
      let logIdx := prevLogIndex + 1 + i
      if logIdx > rf.lastLogIndex then
        some i
      else do
        let e ← rf.logAt logIdx
        if e.term ≠ entry.term then some i else rf.matchingEntries prevLogIndex rest (i + 1)

/-- Truncation at the conflict point and append, for a message that passed the check. -/
def appendNew (rf : Raft NodeID Cmd) (args : AppendEntries NodeID Cmd) :
    Option (Raft NodeID Cmd) :=
  if args.entries.length > 0 then do
    let i ← rf.matchingEntries args.prevLogIndex args.entries 0
    if i < args.entries.length then do
      let logIdx := args.prevLogIndex + 1 + i
      let kept ← Slice.upto? rf.logs (rf.relIdx logIdx)
      some { rf with
        logs := kept ++ args.entries.drop i
        wal := rf.wal ++ [.truncateSuffix logIdx, .appendLog (args.entries.drop i)] }
    else
      some rf
  else
    some rf

/-- The branches of `AppendEntriesHandler` for a message without a snapshot. -/
def appendOrReject (rf : Raft NodeID Cmd) (args : AppendEntries NodeID Cmd) :
    Option (Raft NodeID Cmd × AppendEntriesReply) :=
  if args.prevLogIndex < rf.snapshotIndex then
    some (rf, { term := rf.term, success := false, lastMatchIndex := rf.snapshotIndex })
  else if args.prevLogIndex > rf.lastLogIndex then
    some (rf, { term := rf.term, success := false, lastMatchIndex := rf.lastLogIndex })
  else do
    let e ← rf.logAt args.prevLogIndex
    if e.term ≠ args.prevLogTerm then do
      let lastMatchIndex ← rf.skipConflictTerm e.term args.prevLogIndex
      some (rf, { term := rf.term, success := false, lastMatchIndex := lastMatchIndex })
    else do
      let rf ← rf.appendNew args
      let rf := if args.leaderCommit > rf.commitIndex then
        { rf with commitIndex := min args.leaderCommit rf.lastLogIndex } else rf
      some (rf, { term := rf.term, success := true, lastMatchIndex := 0 })

def appendEntriesHandler (rf : Raft NodeID Cmd) (args : AppendEntries NodeID Cmd) :
    Option (Raft NodeID Cmd × AppendEntriesReply) :=
  if args.term < rf.term then
    some (rf, { term := rf.term, success := false, lastMatchIndex := 0 })
  else
    let rf := rf.acceptLeader args.term args.leaderId
    match args.snapshot with
    | some snapshot => rf.installSnapshot args snapshot
    | none => rf.appendOrReject args

end AppendEntriesHandler

def timeoutNow [DecidableEq NodeID] (me : NodeID) (rf : Raft NodeID Cmd)
    (args : TimeoutNowArgs NodeID) :
    Option (Raft NodeID Cmd × TimeoutNowReply × Option ElectionRound) :=
  if args.term < rf.term then
    some (rf, { term := rf.term, accepted := false }, none)
  else
    let rf := if args.term > rf.term then rf.stepDown args.term else rf
    if some args.leaderId ≠ rf.leaderId then
      some (rf, { term := rf.term, accepted := false }, none)
    else if args.lastLogIndex < rf.snapshotIndex ∨ args.lastLogIndex ≠ rf.lastLogIndex then
      some (rf, { term := rf.term, accepted := false }, none)
    else do
      let e ← rf.logAt args.lastLogIndex
      if e.term ≠ args.lastLogTerm then
        some (rf, { term := rf.term, accepted := false }, none)
      else do
        let (rf, round) ← rf.beginElectionLocked me
        some (rf, { term := round.term, accepted := true }, some round)

/-! ## 5. Replies -/

section Replies

variable [DecidableEq NodeID]

/-- `newMatch`: the index a success reply to `args` confirms. -/
def newMatch (args : AppendEntries NodeID Cmd) : ℕ :=
  if args.snapshot ≠ none then args.snapshotIndex else args.prevLogIndex + args.entries.length

/-- How many nodes hold index `N`, the leader itself included. -/
def replicaCount (me : NodeID) (nodeIDs : List NodeID) (rf : Raft NodeID Cmd) (N : ℕ) : ℕ :=
  nodeIDs.foldl (fun cnt id => if id ≠ me ∧ rf.matchIndex id ≥ N then cnt + 1 else cnt) 1

/-- One turn of the commit loop. -/
def tryCommit (me : NodeID) (nodeIDs : List NodeID) (rf : Raft NodeID Cmd) (N : ℕ) :
    Option (Raft NodeID Cmd) := do
  let e ← rf.logAt N
  if e.term ≠ rf.term then
    some rf
  else if rf.replicaCount me nodeIDs N > nodeIDs.length / 2 then
    some { rf with commitIndex := N }
  else
    some rf

/-- `for N := rf.commitIndex + 1; N <= rf.lastLogIndex(); N++` -/
def advanceCommit (me : NodeID) (nodeIDs : List NodeID) (rf : Raft NodeID Cmd) :
    Option (Raft NodeID Cmd) :=
  (List.range' (rf.commitIndex + 1) (rf.lastLogIndex - rf.commitIndex)).foldlM
    (tryCommit me nodeIDs) rf

/-- `sendAppendEntries` from the return of `Call` on. -/
def sendAppendEntries (me : NodeID) (nodeIDs : List NodeID) (rf : Raft NodeID Cmd)
    (server : NodeID) (args : AppendEntries NodeID Cmd) (reply : AppendEntriesReply) :
    Option (Raft NodeID Cmd) :=
  if reply.term > rf.term then
    some (rf.stepDown reply.term)
  else if rf.term ≠ args.term ∨ rf.customerId ≠ .leader then
    some rf
  else if reply.success then
    let rf := if newMatch args > rf.matchIndex server then
      { rf with matchIndex := Function.update rf.matchIndex server (newMatch args) } else rf
    let rf := { rf with
      nextIndex := Function.update rf.nextIndex server (rf.matchIndex server + 1) }
    rf.advanceCommit me nodeIDs
  else if args.prevLogIndex < rf.matchIndex server then
    some rf
  else
    let next := reply.lastMatchIndex + 1
    some { rf with nextIndex := Function.update rf.nextIndex server (if next < 1 then 1 else next) }

/-- `sendRequestVote` from the return of `Call` on. -/
def sendRequestVote (me : NodeID) (nodeIDs : List NodeID) (rf : Raft NodeID Cmd)
    (args : RequestVoteArgs NodeID) (reply : RequestVoteReply) : Raft NodeID Cmd :=
  if reply.term > rf.term then
    rf.stepDown reply.term
  else if ¬ reply.voteGranted ∨ rf.customerId ≠ .candidate ∨ rf.term ≠ args.term then
    rf
  else
    let rf := { rf with voteCount := rf.voteCount + 1 }
    if rf.voteCount > nodeIDs.length / 2 then
      { rf with
        customerId := .leader
        leaderId := some me
        matchIndex := fun id => if id ∈ nodeIDs then 0 else rf.matchIndex id
        nextIndex := fun id => if id ∈ nodeIDs then rf.lastLogIndex + 1 else rf.nextIndex id }
    else
      rf

/-- `TransferLeadership` up to the RPC: the other node with the highest `matchIndex`, the first
    of them in `nodeIDs`, and the request it gets; `none` if not leader or alone. -/
def transferTarget (me : NodeID) (nodeIDs : List NodeID) (rf : Raft NodeID Cmd) : Option NodeID :=
  (nodeIDs.foldl (fun (best : Option NodeID × Int) id =>
    if id = me then best
    else if (rf.matchIndex id : Int) > best.2 then (some id, (rf.matchIndex id : Int))
    else best) (none, -1)).1

def transferLeadership (me : NodeID) (nodeIDs : List NodeID) (rf : Raft NodeID Cmd) :
    Option (NodeID × TimeoutNowArgs NodeID) :=
  if rf.customerId ≠ .leader then
    none
  else do
    let target ← rf.transferTarget me nodeIDs
    let lastLogTerm ← rf.lastLogTerm
    some (target, { term := rf.term, leaderId := me, lastLogIndex := rf.lastLogIndex,
                    lastLogTerm := lastLogTerm })

/-- `TransferLeadership` from the return of the RPC on. -/
def transferReply (rf : Raft NodeID Cmd) (reply : TimeoutNowReply) : Raft NodeID Cmd :=
  if reply.term > rf.term then rf.stepDown reply.term else rf

end Replies

/-! ## 6. The service API and the background loops -/

def getState [DecidableEq NodeID] (me : NodeID) (rf : Raft NodeID Cmd) : ℕ × Bool :=
  (rf.term, decide (rf.leaderId = some me))

/-- `Start(command)`: the index is -1 where the server is not the leader. -/
def start (rf : Raft NodeID Cmd) (command : Cmd) : Raft NodeID Cmd × Int × ℕ × Bool :=
  if rf.customerId ≠ .leader then
    (rf, -1, rf.term, false)
  else
    let index := rf.lastLogIndex + 1
    let entry : LogEntry Cmd := { command := command, term := rf.term }
    ({ rf with logs := rf.logs ++ [entry], wal := rf.wal ++ [.appendLog [entry]] },
      index, rf.term, true)

/-- The message `startHeartbeat` builds for `id`. -/
def heartbeatArgs (me : NodeID) (rf : Raft NodeID Cmd) (id : NodeID) :
    Option (AppendEntries NodeID Cmd) := do
  let prev : Int := (rf.nextIndex id : Int) - 1
  let prev : Int := if prev > rf.lastLogIndex then rf.lastLogIndex else prev
  let (prevLogIndex, prevLogTerm, snapshot) ←
    if prev < rf.snapshotIndex then
      some (0, 0, rf.snapshot)
    else do
      let e ← rf.logAt prev.toNat
      some (prev.toNat, e.term, none)
  let entries ←
    if prevLogIndex < rf.lastLogIndex ∧ snapshot = none then
      Slice.from? rf.logs (rf.relIdx prevLogIndex + 1)
    else
      some []
  let first ← Slice.index rf.logs 0
  some {
    term := rf.term
    leaderId := me
    prevLogIndex := prevLogIndex
    prevLogTerm := prevLogTerm
    entries := entries
    leaderCommit := rf.commitIndex
    snapshot := snapshot
    snapshotIndex := rf.snapshotIndex
    snapshotTerm := first.term }

/-- One turn of `startHeartbeat`: the messages to all other nodes. -/
def startHeartbeat [DecidableEq NodeID] (me : NodeID) (nodeIDs : List NodeID)
    (rf : Raft NodeID Cmd) : Option (List (NodeID × AppendEntries NodeID Cmd)) :=
  if rf.customerId ≠ .leader then
    some []
  else
    (nodeIDs.filter (· ≠ me)).mapM fun id => do
      let args ← rf.heartbeatArgs me id
      some (id, args)

/-- The timer branch of `ticker`, armed when `electionGeneration` was `generation`. -/
def tickerFire (me : NodeID) (rf : Raft NodeID Cmd) (generation : ℕ) :
    Option (Raft NodeID Cmd × Option ElectionRound) :=
  if rf.customerId = .leader ∨ rf.electionGeneration ≠ generation then
    some (rf, none)
  else do
    let (rf, round) ← rf.beginElectionLocked me
    some (rf, some round)

/-- The critical section of `sendApplyMsg`, entered with `commitIndex ≠ appliedIndex`: the
    messages it sends once the lock is released. -/
def sendApplyMsg [Inhabited Cmd] (rf : Raft NodeID Cmd) :
    Option (Raft NodeID Cmd × List (ApplyMsg Cmd)) := do
  let behind := rf.appliedIndex + 1 ≤ rf.snapshotIndex
  let startIdx := if behind then rf.snapshotIndex + 1 else rf.appliedIndex + 1
  let snapshot := if behind then rf.snapshot else none
  let first ← Slice.index rf.logs 0
  let entries ← Slice.between? rf.logs (rf.relIdx startIdx) (rf.relIdx rf.commitIndex + 1)
  let snapMsg : List (ApplyMsg Cmd) :=
    match snapshot with
    | some data => [{ commandValid := false, command := default, commandIndex := 0,
                      snapshotValid := true, snapshot := some data, snapshotTerm := first.term,
                      snapshotIndex := rf.snapshotIndex }]
    | none => []
  let cmdMsgs := entries.mapIdx fun i entry =>
    { commandValid := true, command := entry.command, commandIndex := startIdx + i,
      snapshotValid := false, snapshot := none, snapshotTerm := 0, snapshotIndex := 0 }
  some ({ rf with appliedIndex := rf.commitIndex }, snapMsg ++ cmdMsgs)

/-- `MakeWithWAL` on a recovered state: a fresh node's `Load` gives `PersistState.fresh`. -/
def makeWithWAL (st : PersistState NodeID Cmd) : Raft NodeID Cmd where
  term := st.term
  voteFor := st.vote
  logs := st.logs
  customerId := .follower
  leaderId := none
  voteCount := 0
  commitIndex := st.snapshotIndex
  appliedIndex := st.snapshotIndex
  snapshotIndex := st.snapshotIndex
  snapshot := st.snapshot
  matchIndex _ := 0
  nextIndex _ := 0
  electionGeneration := 0
  resetCh := false
  wal := []

/-- The fields `rf.wal` keeps. -/
def persist (rf : Raft NodeID Cmd) : PersistState NodeID Cmd where
  term := rf.term
  vote := rf.voteFor
  logs := rf.logs
  snapshotIndex := rf.snapshotIndex
  snapshot := rf.snapshot

end Raft

end RaftLab.Raft1

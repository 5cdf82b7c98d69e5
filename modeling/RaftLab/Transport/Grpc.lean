/-
  File:      RaftLab/Transport/Grpc.lean
  Subject:   `src/transport/grpc`: Raft's RPCs as proto messages, and that they do what the direct
             calls do.

  `raft_conv.go` turns Raft's structs into proto messages and back, `RaftService` runs a handler on
  what arrives, `ClientEnd.Call` gives the sender a reply. A snapshot travels as its own method,
  whose response has a term only; `Call` makes up the rest of the reply.

  gRPC between the two is a parameter (`Wire`). It may fail on the way to the handler or on the way
  back: no connection, the deadline, a message above the 4 MiB that gRPC takes. `Call` then returns
  false, and the sender's side of that is the event `callFailed` of Cluster.lean. What does arrive is
  what was sent (`Wire.RoundTrips`), but for a `bytes` field: an empty one is not sent and decodes to
  nil. `int` and `int64` are one type on the machines this runs on, and a `transport.NodeID` is a
  string.

  **`grpc_agrees`**: a request that a sender can build (`Sendable`) and that arrives leaves the
  receiver as the direct call does, and whoever handles the reply cannot tell the two apart; one that
  does not arrive leaves the receiver alone. The replies themselves differ: to a stale snapshot the
  direct call answers with the receiver's snapshot index as `LastMatchIndex`, gRPC with the sender's.
-/
import RaftLab.Raft1.Cluster

namespace RaftLab.Transport.Grpc

open RaftLab.Lib RaftLab.Raft1

variable {NodeID α : Type}

/-- `LogEntry.Command`, an `interface{}`: nil, a `[]byte`, or a value of another type. -/
inductive Command (α : Type) where
  | nil
  | bytes (b : Option Bytes)
  | other (v : α)
  deriving DecidableEq

instance : Inhabited (Command α) := ⟨.nil⟩

/-! ## 1. Messages -/

namespace Proto

structure LogEntry where
  command : Option Bytes
  term : ℕ

structure RequestVoteArgs (NodeID : Type) where
  term : ℕ
  candidateId : NodeID
  lastLogIndex : ℕ
  lastLogTerm : ℕ

structure RequestVoteReply where
  term : ℕ
  voteGranted : Bool

structure AppendEntriesArgs (NodeID : Type) where
  term : ℕ
  leaderId : NodeID
  prevLogIndex : ℕ
  prevLogTerm : ℕ
  entries : List LogEntry
  leaderCommit : ℕ

structure AppendEntriesReply where
  term : ℕ
  success : Bool
  lastMatchIndex : ℕ

structure InstallSnapshotArgs (NodeID : Type) where
  term : ℕ
  leaderId : NodeID
  lastIncludedIndex : ℕ
  lastIncludedTerm : ℕ
  data : Option Bytes

structure InstallSnapshotReply where
  term : ℕ

structure TimeoutNowArgs (NodeID : Type) where
  term : ℕ
  leaderId : NodeID
  lastLogIndex : ℕ
  lastLogTerm : ℕ

structure TimeoutNowReply where
  term : ℕ
  accepted : Bool

/-- The methods of the service `Raft`. -/
inductive Request (NodeID : Type) where
  | requestVote (args : RequestVoteArgs NodeID)
  | appendEntries (args : AppendEntriesArgs NodeID)
  | installSnapshot (args : InstallSnapshotArgs NodeID)
  | timeoutNow (args : TimeoutNowArgs NodeID)

inductive Response where
  | requestVote (reply : RequestVoteReply)
  | appendEntries (reply : AppendEntriesReply)
  | installSnapshot (reply : InstallSnapshotReply)
  | timeoutNow (reply : TimeoutNowReply)

/-- An empty `bytes` field comes out as nil. -/
def LogEntry.decoded (e : LogEntry) : LogEntry :=
  { e with command := Slice.nilIfEmpty e.command }

def AppendEntriesArgs.decoded (pb : AppendEntriesArgs NodeID) : AppendEntriesArgs NodeID :=
  { pb with entries := pb.entries.map LogEntry.decoded }

def InstallSnapshotArgs.decoded (pb : InstallSnapshotArgs NodeID) : InstallSnapshotArgs NodeID :=
  { pb with data := Slice.nilIfEmpty pb.data }

def Request.decoded : Request NodeID → Request NodeID
  | .appendEntries args => .appendEntries args.decoded
  | .installSnapshot args => .installSnapshot args.decoded
  | request => request

end Proto

/-- gRPC between a caller and a server: what arrives of a request and of a response, if it does. -/
structure Wire (NodeID : Type) where
  request : Proto.Request NodeID → Option (Proto.Request NodeID)
  response : Proto.Response → Option Proto.Response

/-- What is assumed of marshalling: it round-trips, up to empty bytes. -/
structure Wire.RoundTrips (wire : Wire NodeID) : Prop where
  request : ∀ r r', wire.request r = some r' → r' = r.decoded
  response : ∀ r r', wire.response r = some r' → r' = r

/-! ## 2. Conversions -/

def requestVoteToPB (a : RequestVoteArgs NodeID) : Proto.RequestVoteArgs NodeID :=
  { term := a.term, candidateId := a.candidateId, lastLogIndex := a.lastLogIndex,
    lastLogTerm := a.lastLogTerm }

def requestVoteFromPB (pb : Proto.RequestVoteArgs NodeID) : RequestVoteArgs NodeID :=
  { term := pb.term, candidateId := pb.candidateId, lastLogIndex := pb.lastLogIndex,
    lastLogTerm := pb.lastLogTerm }

def requestVoteReplyToPB (r : RequestVoteReply) : Proto.RequestVoteReply :=
  { term := r.term, voteGranted := r.voteGranted }

def requestVoteReplyFromPB (pb : Proto.RequestVoteReply) : RequestVoteReply :=
  { term := pb.term, voteGranted := pb.voteGranted }

def timeoutNowToPB (a : TimeoutNowArgs NodeID) : Proto.TimeoutNowArgs NodeID :=
  { term := a.term, leaderId := a.leaderId, lastLogIndex := a.lastLogIndex,
    lastLogTerm := a.lastLogTerm }

def timeoutNowFromPB (pb : Proto.TimeoutNowArgs NodeID) : TimeoutNowArgs NodeID :=
  { term := pb.term, leaderId := pb.leaderId, lastLogIndex := pb.lastLogIndex,
    lastLogTerm := pb.lastLogTerm }

def timeoutNowReplyToPB (r : TimeoutNowReply) : Proto.TimeoutNowReply :=
  { term := r.term, accepted := r.accepted }

def timeoutNowReplyFromPB (pb : Proto.TimeoutNowReply) : TimeoutNowReply :=
  { term := pb.term, accepted := pb.accepted }

/-- A command that is not a `[]byte` is dropped. -/
def logEntryToPB (e : LogEntry (Command α)) : Proto.LogEntry :=
  let cmd :=
    match e.command with
    | .bytes b => b
    | _ => none
  { command := cmd, term := e.term }

def logEntryFromPB (pb : Proto.LogEntry) : LogEntry (Command α) :=
  let cmd : Command α :=
    match pb.command with
    | some b => .bytes (some b)
    | none => .nil
  { command := cmd, term := pb.term }

def appendEntriesToPB (a : AppendEntries NodeID (Command α)) : Proto.AppendEntriesArgs NodeID where
  term := a.term
  leaderId := a.leaderId
  prevLogIndex := a.prevLogIndex
  prevLogTerm := a.prevLogTerm
  entries := a.entries.map logEntryToPB
  leaderCommit := a.leaderCommit

/-- The fields of the snapshot are left zero. -/
def appendEntriesFromPB (pb : Proto.AppendEntriesArgs NodeID) :
    AppendEntries NodeID (Command α) where
  term := pb.term
  leaderId := pb.leaderId
  prevLogIndex := pb.prevLogIndex
  prevLogTerm := pb.prevLogTerm
  entries := pb.entries.map logEntryFromPB
  leaderCommit := pb.leaderCommit
  snapshot := none
  snapshotIndex := 0
  snapshotTerm := 0

def appendEntriesReplyToPB (r : AppendEntriesReply) : Proto.AppendEntriesReply :=
  { term := r.term, success := r.success, lastMatchIndex := r.lastMatchIndex }

def appendEntriesReplyFromPB (pb : Proto.AppendEntriesReply) : AppendEntriesReply :=
  { term := pb.term, success := pb.success, lastMatchIndex := pb.lastMatchIndex }

def installSnapshotToPB (a : AppendEntries NodeID (Command α)) :
    Proto.InstallSnapshotArgs NodeID where
  term := a.term
  leaderId := a.leaderId
  lastIncludedIndex := a.snapshotIndex
  lastIncludedTerm := a.snapshotTerm
  data := a.snapshot

/-- The fields of the log are left zero. -/
def installSnapshotFromPB (pb : Proto.InstallSnapshotArgs NodeID) :
    AppendEntries NodeID (Command α) where
  term := pb.term
  leaderId := pb.leaderId
  prevLogIndex := 0
  prevLogTerm := 0
  entries := []
  leaderCommit := 0
  snapshot := pb.data
  snapshotIndex := pb.lastIncludedIndex
  snapshotTerm := pb.lastIncludedTerm

/-! ## 3. The two ends -/

namespace RaftService

variable [DecidableEq NodeID]

def requestVote (rf : Raft NodeID (Command α)) (pb : Proto.RequestVoteArgs NodeID) :
    Option (Raft NodeID (Command α) × Proto.RequestVoteReply) := do
  let (rf, reply) ← rf.requestVote (requestVoteFromPB pb)
  some (rf, requestVoteReplyToPB reply)

def appendEntries (rf : Raft NodeID (Command α)) (pb : Proto.AppendEntriesArgs NodeID) :
    Option (Raft NodeID (Command α) × Proto.AppendEntriesReply) := do
  let (rf, reply) ← rf.appendEntriesHandler (appendEntriesFromPB pb)
  some (rf, appendEntriesReplyToPB reply)

def installSnapshot (rf : Raft NodeID (Command α)) (pb : Proto.InstallSnapshotArgs NodeID) :
    Option (Raft NodeID (Command α) × Proto.InstallSnapshotReply) := do
  let (rf, reply) ← rf.appendEntriesHandler (installSnapshotFromPB pb)
  some (rf, { term := reply.term })

/-- The round that was begun is sent after the handler has returned its reply. -/
def timeoutNow (me : NodeID) (rf : Raft NodeID (Command α)) (pb : Proto.TimeoutNowArgs NodeID) :
    Option (Raft NodeID (Command α) × Proto.TimeoutNowReply × Option ElectionRound) := do
  let (rf, reply, round) ← rf.timeoutNow me (timeoutNowFromPB pb)
  some (rf, timeoutNowReplyToPB reply, round)

/-- The method that was called. -/
def serve (me : NodeID) (rf : Raft NodeID (Command α)) :
    Proto.Request NodeID →
      Option (Raft NodeID (Command α) × Proto.Response × Option ElectionRound)
  | .requestVote pb => do
      let (rf, reply) ← requestVote rf pb
      some (rf, .requestVote reply, none)
  | .appendEntries pb => do
      let (rf, reply) ← appendEntries rf pb
      some (rf, .appendEntries reply, none)
  | .installSnapshot pb => do
      let (rf, reply) ← installSnapshot rf pb
      some (rf, .installSnapshot reply, none)
  | .timeoutNow pb => do
      let (rf, reply, round) ← timeoutNow me rf pb
      some (rf, .timeoutNow reply, round)

end RaftService

section Ends

variable [DecidableEq NodeID]

/-- A call of `proto.RaftClient`; without a response it has returned an error. -/
def RaftClient.invoke (wire : Wire NodeID) (me : NodeID) (rf : Raft NodeID (Command α))
    (request : Proto.Request NodeID) :
    Option (Raft NodeID (Command α) × Option Proto.Response × Option ElectionRound) :=
  match wire.request request with
  | some request => do
      let (rf, response, round) ← RaftService.serve me rf request
      some (rf, wire.response response, round)
  | none => some (rf, none, none)

/-- The RPC that `ClientEnd.Call` makes: a snapshot has its own method. -/
def ClientEnd.request : Call NodeID (Command α) → Proto.Request NodeID
  | .requestVote a => .requestVote (requestVoteToPB a)
  | .appendEntries a =>
      if a.snapshot ≠ none then
        .installSnapshot (installSnapshotToPB a)
      else
        .appendEntries (appendEntriesToPB a)
  | .timeoutNow a => .timeoutNow (timeoutNowToPB a)

/-- The reply that it makes of the method's response. -/
def ClientEnd.reply : Call NodeID (Command α) → Proto.Response → Option Answer
  | .requestVote _, .requestVote resp => some (.requestVote (requestVoteReplyFromPB resp))
  | .appendEntries a, .installSnapshot resp =>
      let success := decide (resp.term ≤ a.term)
      some (.appendEntries {
        term := resp.term
        success := success
        lastMatchIndex := if success then a.snapshotIndex else 0 })
  | .appendEntries _, .appendEntries resp => some (.appendEntries (appendEntriesReplyFromPB resp))
  | .timeoutNow _, .timeoutNow resp => some (.timeoutNow (timeoutNowReplyFromPB resp))
  | _, _ => none

/-- `ClientEnd.Call` on a connection to the server `me`, whose Raft is `rf`: what that becomes, the
    reply the caller reads if `Call` returns true, and the election the call has started. -/
def ClientEnd.call (wire : Wire NodeID) (me : NodeID) (rf : Raft NodeID (Command α))
    (call : Call NodeID (Command α)) :
    Option (Raft NodeID (Command α) × Option Answer × Option ElectionRound) := do
  let (rf, response, round) ← RaftClient.invoke wire me rf (ClientEnd.request call)
  some (rf, response.bind (ClientEnd.reply call), round)

/-- A request that is sent over gRPC, as `execDeliver` is one that comes directly. -/
def execGrpc (wire : Wire NodeID) (cfg : Config NodeID) (me : NodeID)
    (p : Proc NodeID (Command α)) (pkt : Packet NodeID (Command α)) :
    Option (Outcome NodeID (Command α)) := do
  let (rf, answer, round) ← ClientEnd.call wire me p.rf pkt.call
  some { Outcome.sending p rf (voteCalls cfg me round) with
    answer := answer.map fun answer => (pkt, answer) }

end Ends

/-! ## 4. What arrives -/

/-- A request as senders build them: commands are `[]byte` and not empty, and so is a snapshot. -/
def Sendable : Call NodeID (Command α) → Prop
  | .appendEntries args =>
      (∀ e ∈ args.entries, ∃ b, b ≠ [] ∧ e.command = .bytes (some b)) ∧ args.snapshot ≠ some []
  | _ => True

theorem logEntry_roundTrip {e : LogEntry (Command α)} {b : Bytes} (hb : b ≠ [])
    (he : e.command = .bytes (some b)) :
    (logEntryFromPB (logEntryToPB e).decoded : LogEntry (Command α)) = e := by
  obtain ⟨command, term⟩ := e
  cases he
  simp only [logEntryToPB, Proto.LogEntry.decoded, Slice.nilIfEmpty_some hb, logEntryFromPB]

/-- An empty command does not come through. -/
example (t : ℕ) : (logEntryFromPB
    (logEntryToPB (⟨.bytes (some []), t⟩ : LogEntry (Command α))).decoded : LogEntry (Command α)) =
      ⟨.nil, t⟩ := rfl

theorem entries_roundTrip {entries : List (LogEntry (Command α))}
    (h : ∀ e ∈ entries, ∃ b, b ≠ [] ∧ e.command = .bytes (some b)) :
    ((entries.map logEntryToPB).map Proto.LogEntry.decoded).map logEntryFromPB = entries := by
  induction entries with
  | nil => rfl
  | cons e rest ih =>
      obtain ⟨b, hb, he⟩ := h e List.mem_cons_self
      have hrest := ih fun x hx => h x (List.mem_cons_of_mem e hx)
      simp only [List.map_cons, logEntry_roundTrip hb he, hrest]

/-- A message without a snapshot arrives with the snapshot's index and term zeroed. -/
theorem appendEntries_arrives {args : AppendEntries NodeID (Command α)}
    (h : Sendable (.appendEntries args)) (hs : args.snapshot = none) :
    appendEntriesFromPB (appendEntriesToPB args).decoded =
      { args with snapshotIndex := 0, snapshotTerm := 0 } := by
  obtain ⟨hcmd, _⟩ := h
  simp only [appendEntriesFromPB, appendEntriesToPB, Proto.AppendEntriesArgs.decoded,
    entries_roundTrip hcmd, hs]

/-- A message with a snapshot arrives with the log's fields zeroed. -/
theorem installSnapshot_arrives {args : AppendEntries NodeID (Command α)} {data : Bytes}
    (hs : args.snapshot = some data) (hd : data ≠ []) :
    (installSnapshotFromPB (installSnapshotToPB args).decoded : AppendEntries NodeID (Command α)) =
      { args with prevLogIndex := 0, prevLogTerm := 0, entries := [], leaderCommit := 0 } := by
  simp only [installSnapshotFromPB, installSnapshotToPB, Proto.InstallSnapshotArgs.decoded, hs,
    Slice.nilIfEmpty_some hd]

section Handler

variable {rf rf' : Raft NodeID (Command α)} {args : AppendEntries NodeID (Command α)}
  {reply reply' : AppendEntriesReply}

/-- Without a snapshot the handler does not look at its index and term. -/
theorem handler_append_congr (hs : args.snapshot = none) (i t : ℕ) :
    rf.appendEntriesHandler { args with snapshotIndex := i, snapshotTerm := t } =
      rf.appendEntriesHandler args := by
  obtain ⟨term, leaderId, prev, prevTerm, entries, commit, snap, sidx, sterm⟩ := args
  cases hs
  rfl

/-- With one it looks at nothing of the log. -/
theorem handler_snapshot_congr {data : Bytes} (hs : args.snapshot = some data) (i t c : ℕ)
    (entries : List (LogEntry (Command α))) :
    rf.appendEntriesHandler
        { args with prevLogIndex := i, prevLogTerm := t, entries := entries, leaderCommit := c } =
      rf.appendEntriesHandler args := by
  obtain ⟨term, leaderId, prev, prevTerm, entries', commit, snap, sidx, sterm⟩ := args
  cases hs
  rfl

theorem acceptLeader_term (h : ¬ args.term < rf.term) :
    (rf.acceptLeader args.term args.leaderId).term = args.term := by
  unfold Raft.acceptLeader
  dsimp only [Raft.resetElectionTimerLocked]
  split
  · rfl
  · omega

theorem installSnapshot_reply {data : Bytes}
    (h : rf.installSnapshot args data = some (rf', reply)) :
    reply.term = rf.term ∧ reply.success = true := by
  unfold Raft.installSnapshot at h
  split at h
  · cases h
    exact ⟨rfl, rfl⟩
  · obtain ⟨keep, _, h⟩ := Option.bind_eq_some_iff.mp h
    dsimp only at h
    split at h
    · obtain ⟨suffix, _, h⟩ := Option.bind_eq_some_iff.mp h
      cases h
      exact ⟨rfl, rfl⟩
    · cases h
      exact ⟨rfl, rfl⟩

/-- **What the response of an InstallSnapshot leaves out can be told from its term**: success is a
    term that is not above the request's, and a failure has set no index. -/
theorem handler_snapshot_reply {data : Bytes} (hs : args.snapshot = some data)
    (h : rf.appendEntriesHandler args = some (rf', reply)) :
    reply.success = decide (reply.term ≤ args.term) ∧
      (reply.success = false → reply.lastMatchIndex = 0) := by
  unfold Raft.appendEntriesHandler at h
  split at h
  next hlt =>
    cases h
    exact ⟨(decide_eq_false (Nat.not_le.mpr hlt)).symm, fun _ => rfl⟩
  next hge =>
    simp only [hs] at h
    obtain ⟨hterm, hsucc⟩ := installSnapshot_reply h
    rw [acceptLeader_term hge] at hterm
    rw [hsucc]
    exact ⟨(decide_eq_true (Nat.le_of_eq hterm)).symm, fun hf => by cases hf⟩

/-- The leader reads `LastMatchIndex` in a failure only. -/
theorem sendAppendEntries_congr [DecidableEq NodeID] (me server : NodeID) (nodeIDs : List NodeID)
    (ht : reply'.term = reply.term) (hs : reply'.success = reply.success)
    (hl : reply.success = false → reply'.lastMatchIndex = reply.lastMatchIndex) :
    rf.sendAppendEntries me nodeIDs server args reply' =
      rf.sendAppendEntries me nodeIDs server args reply := by
  unfold Raft.sendAppendEntries
  rw [ht, hs]
  cases hv : reply.success with
  | true => rfl
  | false => rw [hl hv]

end Handler

namespace RaftService

variable {rf : Raft NodeID (Command α)} {args : AppendEntries NodeID (Command α)}

theorem appendEntries_eq (h : Sendable (.appendEntries args)) (hs : args.snapshot = none) :
    appendEntries rf (appendEntriesToPB args).decoded =
      (rf.appendEntriesHandler args).map fun r => (r.1, appendEntriesReplyToPB r.2) := by
  unfold appendEntries
  rw [appendEntries_arrives h hs, handler_append_congr hs]
  cases rf.appendEntriesHandler args with
  | none => rfl
  | some r => rfl

theorem installSnapshot_eq {data : Bytes} (hs : args.snapshot = some data) (hd : data ≠ []) :
    installSnapshot rf (installSnapshotToPB args).decoded =
      (rf.appendEntriesHandler args).map fun r => (r.1, ⟨r.2.term⟩) := by
  unfold installSnapshot
  rw [installSnapshot_arrives hs hd, handler_snapshot_congr hs]
  cases rf.appendEntriesHandler args with
  | none => rfl
  | some r => rfl

end RaftService

/-! ## 5. The two paths agree -/

/-- The senders of `call` go on in the same way from either answer, in whatever state they are when
    they get it. -/
def SameFor [DecidableEq NodeID] (cfg : Config NodeID) (call : Call NodeID (Command α))
    (answer answer' : Answer) : Prop :=
  ∀ (src server : NodeID) (sender : Proc NodeID (Command α)) (k : ℕ),
    sender.calls[k]? = some (server, call) →
      execReply cfg src sender k answer' = execReply cfg src sender k answer

section Agree

variable [DecidableEq NodeID] {cfg : Config NodeID} {me : NodeID} {p : Proc NodeID (Command α)}
  {pkt : Packet NodeID (Command α)} {o : Outcome NodeID (Command α)}

theorem SameFor.refl {call : Call NodeID (Command α)} (answer : Answer) :
    SameFor cfg call answer answer := fun _ _ _ _ _ => rfl

theorem SameFor.appendEntries {args : AppendEntries NodeID (Command α)}
    {reply reply' : AppendEntriesReply}
    (ht : reply'.term = reply.term) (hs : reply'.success = reply.success)
    (hl : reply.success = false → reply'.lastMatchIndex = reply.lastMatchIndex) :
    SameFor cfg (.appendEntries args) (.appendEntries reply) (.appendEntries reply') := by
  intro src server sender k hk
  unfold execReply
  simp only [hk, Option.bind_eq_bind, Option.bind_some,
    sendAppendEntries_congr src server cfg.nodeIDs ht hs hl]

/-- The handler, called directly. -/
def handle (me : NodeID) (rf : Raft NodeID (Command α)) :
    Call NodeID (Command α) → Option (Raft NodeID (Command α) × Answer × Option ElectionRound)
  | .requestVote args => (rf.requestVote args).map fun r => (r.1, .requestVote r.2, none)
  | .appendEntries args =>
      (rf.appendEntriesHandler args).map fun r => (r.1, .appendEntries r.2, none)
  | .timeoutNow args => (rf.timeoutNow me args).map fun r => (r.1, .timeoutNow r.2.1, r.2.2)

theorem execDeliver_eq : execDeliver cfg me p pkt = (handle me p.rf pkt.call).map fun r =>
    { Outcome.sending p r.1 (voteCalls cfg me r.2.2) with answer := some (pkt, r.2.1) } := by
  obtain ⟨src, dst, call⟩ := pkt
  cases call with
  | requestVote args =>
      simp only [execDeliver, handle]
      cases p.rf.requestVote args <;> simp [Outcome.sending, voteCalls]
  | appendEntries args =>
      simp only [execDeliver, handle]
      cases p.rf.appendEntriesHandler args <;> simp [Outcome.sending, voteCalls]
  | timeoutNow args =>
      simp only [execDeliver, handle]
      cases p.rf.timeoutNow me args <;> rfl

/-- The response that the handler's answer becomes. -/
def respond : Call NodeID (Command α) → Answer → Proto.Response
  | _, .requestVote reply => .requestVote (requestVoteReplyToPB reply)
  | .appendEntries args, .appendEntries reply =>
      if args.snapshot ≠ none then
        .installSnapshot ⟨reply.term⟩
      else
        .appendEntries (appendEntriesReplyToPB reply)
  | _, .appendEntries reply => .appendEntries (appendEntriesReplyToPB reply)
  | _, .timeoutNow reply => .timeoutNow (timeoutNowReplyToPB reply)

/-- **What a handler does with a request that has arrived.** -/
theorem serve_eq (rf : Raft NodeID (Command α)) {call : Call NodeID (Command α)}
    (h : Sendable call) :
    RaftService.serve me rf (ClientEnd.request call).decoded =
      (handle me rf call).map fun r => (r.1, respond call r.2.1, r.2.2) := by
  cases call with
  | requestVote args =>
      show (RaftService.requestVote rf (requestVoteToPB args)).bind _ =
        ((rf.requestVote args).map _).map _
      unfold RaftService.requestVote
      rw [show requestVoteFromPB (requestVoteToPB args) = args from rfl]
      cases rf.requestVote args <;> rfl
  | timeoutNow args =>
      show (RaftService.timeoutNow me rf (timeoutNowToPB args)).bind _ =
        ((rf.timeoutNow me args).map _).map _
      unfold RaftService.timeoutNow
      rw [show timeoutNowFromPB (timeoutNowToPB args) = args from rfl]
      cases rf.timeoutNow me args <;> rfl
  | appendEntries args =>
      cases hs : args.snapshot with
      | none =>
          have hreq : (ClientEnd.request (.appendEntries args)).decoded =
              .appendEntries (appendEntriesToPB args).decoded := by
            rw [ClientEnd.request, if_neg (not_not.mpr hs)]
            rfl
          rw [hreq, RaftService.serve, RaftService.appendEntries_eq h hs]
          cases hr : rf.appendEntriesHandler args <;> simp [handle, hr, respond, hs]
      | some data =>
          have hne : args.snapshot ≠ none := by
            rw [hs]
            exact Option.some_ne_none data
          have hd : data ≠ [] := fun e => h.2 (by rw [hs, e])
          have hreq : (ClientEnd.request (.appendEntries args)).decoded =
              .installSnapshot (installSnapshotToPB args).decoded := by
            rw [ClientEnd.request, if_pos hne]
            rfl
          rw [hreq, RaftService.serve, RaftService.installSnapshot_eq hs hd]
          cases hr : rf.appendEntriesHandler args <;> simp [handle, hr, respond, hs]

/-- **What the caller makes of the response**: an answer that it cannot tell from the handler's. -/
theorem reply_respond {rf rf' : Raft NodeID (Command α)} {call : Call NodeID (Command α)}
    {answer : Answer} {round : Option ElectionRound}
    (h : handle me rf call = some (rf', answer, round)) :
    ∃ answer', ClientEnd.reply call (respond call answer) = some answer' ∧
      SameFor cfg call answer answer' := by
  cases call with
  | requestVote args =>
      obtain ⟨r, _, e⟩ := Option.map_eq_some_iff.mp h
      cases e
      exact ⟨_, rfl, .refl _⟩
  | timeoutNow args =>
      obtain ⟨r, _, e⟩ := Option.map_eq_some_iff.mp h
      cases e
      exact ⟨_, rfl, .refl _⟩
  | appendEntries args =>
      obtain ⟨⟨rf', reply⟩, hr, e⟩ := Option.map_eq_some_iff.mp h
      cases e
      cases hs : args.snapshot with
      | none =>
          have hresp : respond (.appendEntries args) (.appendEntries reply) =
              .appendEntries (appendEntriesReplyToPB reply) := if_neg (not_not.mpr hs)
          rw [hresp]
          exact ⟨_, rfl, .refl _⟩
      | some data =>
          have hne : args.snapshot ≠ none := by
            rw [hs]
            exact Option.some_ne_none data
          have hresp : respond (.appendEntries args) (.appendEntries reply) =
              .installSnapshot ⟨reply.term⟩ := if_pos hne
          obtain ⟨hsucc, hfail⟩ := handler_snapshot_reply hs hr
          rw [hresp]
          refine ⟨_, rfl, SameFor.appendEntries rfl hsucc.symm fun hf => ?_⟩
          dsimp only
          rw [hfail hf, ← hsucc, hf]
          rfl

/-- A request that has arrived. -/
theorem execGrpc_delivered {wire : Wire NodeID} (hwire : wire.RoundTrips) (h : Sendable pkt.call)
    (hreq : wire.request (ClientEnd.request pkt.call) ≠ none) :
    execGrpc wire cfg me p pkt = (handle me p.rf pkt.call).map fun r =>
      { Outcome.sending p r.1 (voteCalls cfg me r.2.2) with
        answer := ((wire.response (respond pkt.call r.2.1)).bind (ClientEnd.reply pkt.call)).map
          fun answer => (pkt, answer) } := by
  obtain ⟨request, harr⟩ := Option.ne_none_iff_exists'.mp hreq
  simp only [execGrpc, ClientEnd.call, RaftClient.invoke, harr, hwire.request _ _ harr, serve_eq _ h]
  cases handle me p.rf pkt.call <;> rfl

/-- **The gRPC path and the direct path agree**, for every receiver, every request that a sender can
    build and whatever gRPC does with it. A request that does not arrive leaves the receiver as it
    is, and `Call` returns false. If it arrives, the handler panics over gRPC if and only if it does
    when called directly; otherwise the receiver is left in the same state and sends the same, and
    unless the response is lost, every sender that waits for the reply, in whatever state it gets
    it, is left in the same state. -/
theorem grpc_agrees (wire : Wire NodeID) (hwire : wire.RoundTrips) (cfg : Config NodeID)
    (me : NodeID) (p : Proc NodeID (Command α)) (pkt : Packet NodeID (Command α))
    (h : Sendable pkt.call) :
    (wire.request (ClientEnd.request pkt.call) = none →
      execGrpc wire cfg me p pkt = some { proc := p }) ∧
    (wire.request (ClientEnd.request pkt.call) ≠ none →
      (execGrpc wire cfg me p pkt = none ↔ execDeliver cfg me p pkt = none) ∧
      ∀ o, execDeliver cfg me p pkt = some o → ∃ answer answer', o.answer = some (pkt, answer) ∧
        SameFor cfg pkt.call answer answer' ∧
        (execGrpc wire cfg me p pkt = some { o with answer := some (pkt, answer') } ∨
          (∃ response, wire.response response = none) ∧
            execGrpc wire cfg me p pkt = some { o with answer := none })) := by
  refine ⟨fun hno => ?_, fun hreq => ?_⟩
  · simp [execGrpc, ClientEnd.call, RaftClient.invoke, hno, Outcome.sending, voteCalls]
  · rw [execGrpc_delivered hwire h hreq, execDeliver_eq]
    cases hr : handle me p.rf pkt.call with
    | none => exact ⟨⟨fun _ => rfl, fun _ => rfl⟩, fun o ho => by cases ho⟩
    | some r =>
        obtain ⟨rf', answer, round⟩ := r
        refine ⟨⟨fun hno => (by cases hno), fun hno => (by cases hno)⟩, fun o ho => ?_⟩
        cases ho
        obtain ⟨answer', hreply, hsame⟩ := reply_respond hr
        refine ⟨answer, answer', rfl, hsame, ?_⟩
        cases hresp : wire.response (respond pkt.call answer) with
        | none => exact .inr ⟨⟨_, hresp⟩, by simp [hresp]⟩
        | some response =>
            cases hwire.response _ _ hresp
            exact .inl (by simp [hresp, hreply])

end Agree

/-! ### A snapshot that the receiver is past -/

section Sample

theorem members_nodup : [0, 1, 2].Nodup := by decide

def members : Config ℕ := ⟨[0, 1, 2], members_nodup⟩

/-- A server that has compacted its log up to index 3. -/
def ahead : Proc ℕ (Command ℕ) :=
  .boot { term := 1, vote := none, logs := [.sentinel 1], snapshotIndex := 3, snapshot := some [7] }

/-- The snapshot of index 2, from the leader of term 1. -/
def stale : Packet ℕ (Command ℕ) where
  src := 0
  dst := 1
  call := .appendEntries {
    term := 1, leaderId := 0, prevLogIndex := 0, prevLogTerm := 0, entries := [], leaderCommit := 2
    snapshot := some [5], snapshotIndex := 2, snapshotTerm := 1 }

/-- Everything arrives. -/
def Wire.whole : Wire ℕ := ⟨fun r => some r.decoded, some⟩

/-- Requests arrive, responses do not. -/
def Wire.late : Wire ℕ := ⟨fun r => some r.decoded, fun _ => none⟩

/-- Nothing arrives. -/
def Wire.cut : Wire ℕ := ⟨fun _ => none, some⟩

theorem whole_roundTrips : Wire.whole.RoundTrips :=
  ⟨fun _ _ e => (Option.some.inj e).symm, fun _ _ e => (Option.some.inj e).symm⟩

theorem late_roundTrips : Wire.late.RoundTrips :=
  ⟨fun _ _ e => (Option.some.inj e).symm, fun _ _ e => (by cases e)⟩

theorem cut_roundTrips : Wire.cut.RoundTrips :=
  ⟨fun _ _ e => (by cases e), fun _ _ e => (Option.some.inj e).symm⟩

/-- The answers differ, and a leader does the same with either. If the response is lost, the
    receiver has run the handler all the same; if the request is, it has not. -/
theorem grpc_agrees_sample :
    (∃ o o', execDeliver members 1 ahead stale = some o ∧
      execGrpc .whole members 1 ahead stale = some o' ∧
      o.answer = some (stale, .appendEntries ⟨1, true, 3⟩) ∧
      o'.answer = some (stale, .appendEntries ⟨1, true, 2⟩) ∧ o'.proc = o.proc ∧
      SameFor members stale.call (.appendEntries ⟨1, true, 3⟩) (.appendEntries ⟨1, true, 2⟩)) ∧
    (∃ o, execDeliver members 1 ahead stale = some o ∧
      execGrpc .late members 1 ahead stale = some { o with answer := none } ∧ o.proc ≠ ahead) ∧
    execGrpc .cut members 1 ahead stale = some { proc := ahead } := by
  have hsend : Sendable stale.call := ⟨fun _ he => (by cases he), by decide⟩
  refine ⟨?_, ?_, (grpc_agrees .cut cut_roundTrips members 1 ahead stale hsend).1 rfl⟩
  · obtain ⟨answer, answer', hans, hsame, hgrpc | ⟨⟨_, hlost⟩, _⟩⟩ :=
      ((grpc_agrees .whole whole_roundTrips members 1 ahead stale hsend).2 (fun e => by cases e)).2
        _ rfl
    · cases hans
      have hans' : answer' = .appendEntries ⟨1, true, 2⟩ := by
        have he : some (stale, Answer.appendEntries ⟨1, true, 2⟩) = some (stale, answer') :=
          congrArg Outcome.answer (Option.some.inj hgrpc)
        cases he
        rfl
      rw [hans'] at hgrpc hsame
      exact ⟨_, _, rfl, hgrpc, rfl, rfl, rfl, hsame⟩
    · cases hlost
  · obtain ⟨answer, answer', _, _, hgrpc | ⟨_, hgrpc⟩⟩ :=
      ((grpc_agrees .late late_roundTrips members 1 ahead stale hsend).2 (fun e => by cases e)).2
        _ rfl
    · cases congrArg Outcome.answer (Option.some.inj hgrpc)
    · exact ⟨_, rfl, hgrpc, fun e => by
        have := congrArg (fun q : Proc ℕ (Command ℕ) => q.rf.resetCh) e
        cases this⟩

end Sample

end RaftLab.Transport.Grpc

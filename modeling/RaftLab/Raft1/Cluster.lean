/-
  File:      RaftLab/Raft1/Cluster.lean
  Subject:   The cluster: processes, disks and the network, and its step relation.

  A process is a `Raft` with what its goroutines hold between critical sections: the RPCs whose
  `Call` has not returned, the generation the armed election timer was created under, the rest
  of the batch `sendApplyMsg` is sending, and the index its service has been handed.

  A step lets one process run one critical section (`Event`, `exec`; `exec_cases` says what each
  can be, and every later fact about a section goes through it), writes its WAL calls to
  its disk and puts its messages on the network. Messages are never taken off the network, so a
  request may be handled late, out of order, again or never. A reply can be handled only by the
  goroutine that waits for it, which is then gone. A crash may stop a process at rest or inside
  any critical section after any part of its WAL calls (`torn`); the process starts again from
  its disk. The service calls `Snapshot` only for an index it has been handed, with non-empty
  data.

  `sent` and `made` record what leaves and what enters at the service: every `ApplyMsg` sent and
  every snapshot a service produced.
-/
import RaftLab.Raft1.Server
import Mathlib.Logic.Relation

namespace RaftLab.Raft1

open RaftLab.Lib

/-- The members of a cluster. -/
structure Config (NodeID : Type) where
  nodeIDs : List NodeID
  nodup : nodeIDs.Nodup

/-- An RPC request. -/
inductive Call (NodeID Cmd : Type) where
  | requestVote (args : RequestVoteArgs NodeID)
  | appendEntries (args : AppendEntries NodeID Cmd)
  | timeoutNow (args : TimeoutNowArgs NodeID)
  deriving DecidableEq

/-- An RPC reply. -/
inductive Answer where
  | requestVote (reply : RequestVoteReply)
  | appendEntries (reply : AppendEntriesReply)
  | timeoutNow (reply : TimeoutNowReply)
  deriving DecidableEq

/-- A request on its way. -/
structure Packet (NodeID Cmd : Type) where
  src : NodeID
  dst : NodeID
  call : Call NodeID Cmd
  deriving DecidableEq

/-- One incarnation of a server process. -/
structure Proc (NodeID Cmd : Type) where
  rf : Raft NodeID Cmd
  /-- The goroutines that wait for a reply: to whom, and the request. -/
  calls : List (NodeID × Call NodeID Cmd)
  /-- `ticker`: the generation sampled before the armed timer was created. -/
  timer : Option ℕ
  /-- `sendApplyMsg`: the messages of the current batch still to be sent. -/
  applying : List (ApplyMsg Cmd)
  /-- The index up to which the service has been handed the state. -/
  delivered : ℕ

/-- What a process does next. -/
inductive Event (NodeID Cmd : Type) where
  | tickerArm
  | tickerFire
  | tickerReset
  | deliver (pkt : Packet NodeID Cmd)
  | reply (k : ℕ) (answer : Answer)
  | callFailed (k : ℕ)
  | start (command : Cmd)
  | heartbeat
  | applyBatch
  | apply
  | snapshot (index : ℕ) (data : Bytes)
  | transferLeadership

/-- The result of a critical section. -/
structure Outcome (NodeID Cmd : Type) where
  proc : Proc NodeID Cmd
  out : List (NodeID × Call NodeID Cmd) := []
  answer : Option (Packet NodeID Cmd × Answer) := none
  sent : List (ApplyMsg Cmd) := []
  made : List (ℕ × Bytes) := []

/-- The whole system. -/
structure Cluster (NodeID Cmd : Type) where
  node : NodeID → Proc NodeID Cmd
  disk : NodeID → PersistState NodeID Cmd
  net : List (Packet NodeID Cmd)
  replies : List (Packet NodeID Cmd × Answer)
  sent : List (NodeID × ApplyMsg Cmd)
  made : List (NodeID × ℕ × Bytes)

section Exec

variable {NodeID Cmd : Type}

/-- The index an `ApplyMsg` brings the service to. -/
def ApplyMsg.index (msg : ApplyMsg Cmd) : ℕ :=
  if msg.snapshotValid then msg.snapshotIndex else msg.commandIndex

/-- A process just started from its disk. -/
def Proc.boot (st : PersistState NodeID Cmd) : Proc NodeID Cmd where
  rf := Raft.makeWithWAL st
  calls := []
  timer := none
  applying := []
  delivered := st.snapshotIndex

/-- The process after a critical section that sends `calls`: each gets a waiting goroutine. -/
def Outcome.sending (p : Proc NodeID Cmd) (rf : Raft NodeID Cmd)
    (calls : List (NodeID × Call NodeID Cmd)) : Outcome NodeID Cmd where
  proc := { p with rf := rf, calls := p.calls ++ calls }
  out := calls

variable [DecidableEq NodeID] [Inhabited Cmd] (cfg : Config NodeID) (me : NodeID)

/-- The vote requests of a round that was begun, none otherwise. -/
def voteCalls (round : Option ElectionRound) : List (NodeID × Call NodeID Cmd) :=
  match round with
  | some round => (Raft.sendRequestVotes me cfg.nodeIDs round).map fun x => (x.1, .requestVote x.2)
  | none => []

/-- A handler runs on an incoming request. -/
def execDeliver (p : Proc NodeID Cmd) (pkt : Packet NodeID Cmd) : Option (Outcome NodeID Cmd) :=
  match pkt.call with
  | .requestVote args => do
      let (rf, reply) ← p.rf.requestVote args
      some { proc := { p with rf := rf }, answer := some (pkt, .requestVote reply) }
  | .appendEntries args => do
      let (rf, reply) ← p.rf.appendEntriesHandler args
      some { proc := { p with rf := rf }, answer := some (pkt, .appendEntries reply) }
  | .timeoutNow args => do
      let (rf, reply, round) ← p.rf.timeoutNow me args
      some { Outcome.sending p rf (voteCalls cfg me round) with
        answer := some (pkt, .timeoutNow reply) }

/-- A waiting goroutine gets its reply; `none` if the reply is of another kind. -/
def execReply (p : Proc NodeID Cmd) (k : ℕ) (answer : Answer) : Option (Outcome NodeID Cmd) := do
  let (server, call) ← p.calls[k]?
  let p := { p with calls := p.calls.eraseIdx k }
  match call, answer with
  | .requestVote args, .requestVote reply =>
      some { proc := { p with rf := p.rf.sendRequestVote me cfg.nodeIDs args reply } }
  | .appendEntries args, .appendEntries reply => do
      let rf ← p.rf.sendAppendEntries me cfg.nodeIDs server args reply
      some { proc := { p with rf := rf } }
  | .timeoutNow _, .timeoutNow reply =>
      some { proc := { p with rf := p.rf.transferReply reply } }
  | _, _ => none

/-- One critical section of process `me`; `none` is a panic, or an event that cannot occur. -/
def exec (p : Proc NodeID Cmd) : Event NodeID Cmd → Option (Outcome NodeID Cmd)
  | .tickerArm => some { proc := { p with timer := some p.rf.electionGeneration } }
  | .tickerFire => do
      let generation ← p.timer
      let (rf, round) ← p.rf.tickerFire me generation
      some (Outcome.sending { p with timer := none } rf (voteCalls cfg me round))
  | .tickerReset => some { proc := { p with timer := none, rf := { p.rf with resetCh := false } } }
  | .deliver pkt => execDeliver cfg me p pkt
  | .reply k answer => execReply cfg me p k answer
  | .callFailed k => some { proc := { p with calls := p.calls.eraseIdx k } }
  | .start command => some { proc := { p with rf := (p.rf.start command).1 } }
  | .heartbeat => do
      let msgs ← p.rf.startHeartbeat me cfg.nodeIDs
      some (Outcome.sending p p.rf (msgs.map fun x => (x.1, .appendEntries x.2)))
  | .applyBatch => do
      let (rf, msgs) ← p.rf.sendApplyMsg
      some { proc := { p with rf := rf, applying := msgs } }
  | .apply =>
      match p.applying with
      | msg :: rest =>
          some { proc := { p with applying := rest, delivered := msg.index }, sent := [msg] }
      | [] => none
  | .snapshot index data => do
      let rf ← p.rf.snapshotUpTo index data
      some { proc := { p with rf := rf }, made := [(index, data)] }
  | .transferLeadership =>
      match p.rf.transferLeadership me cfg.nodeIDs with
      | some (target, args) => some (Outcome.sending p p.rf [(target, .timeoutNow args)])
      | none => some { proc := p }

/-- What a critical section can be, with what its code has computed. -/
inductive Executes (p : Proc NodeID Cmd) : Event NodeID Cmd → Outcome NodeID Cmd → Prop where
  | tickerArm : Executes p .tickerArm { proc := { p with timer := some p.rf.electionGeneration } }
  | tickerFire {generation rf round} (ht : p.timer = some generation)
      (hr : p.rf.tickerFire me generation = some (rf, round)) :
      Executes p .tickerFire (Outcome.sending { p with timer := none } rf (voteCalls cfg me round))
  | tickerReset : Executes p .tickerReset
      { proc := { p with timer := none, rf := { p.rf with resetCh := false } } }
  | requestVote {pkt args rf reply} (hc : pkt.call = .requestVote args)
      (hr : p.rf.requestVote args = some (rf, reply)) :
      Executes p (.deliver pkt)
        { proc := { p with rf := rf }, answer := some (pkt, .requestVote reply) }
  | appendEntries {pkt args rf reply} (hc : pkt.call = .appendEntries args)
      (hr : p.rf.appendEntriesHandler args = some (rf, reply)) :
      Executes p (.deliver pkt)
        { proc := { p with rf := rf }, answer := some (pkt, .appendEntries reply) }
  | timeoutNow {pkt args rf reply round} (hc : pkt.call = .timeoutNow args)
      (hr : p.rf.timeoutNow me args = some (rf, reply, round)) :
      Executes p (.deliver pkt) { Outcome.sending p rf (voteCalls cfg me round) with
        answer := some (pkt, .timeoutNow reply) }
  | votes {k server args reply} (hk : p.calls[k]? = some (server, .requestVote args)) :
      Executes p (.reply k (.requestVote reply)) { proc := { p with
        calls := p.calls.eraseIdx k
        rf := p.rf.sendRequestVote me cfg.nodeIDs args reply } }
  | matched {k server args reply rf} (hk : p.calls[k]? = some (server, .appendEntries args))
      (hr : p.rf.sendAppendEntries me cfg.nodeIDs server args reply = some rf) :
      Executes p (.reply k (.appendEntries reply))
        { proc := { p with calls := p.calls.eraseIdx k, rf := rf } }
  | transferred {k server args reply} (hk : p.calls[k]? = some (server, .timeoutNow args)) :
      Executes p (.reply k (.timeoutNow reply))
        { proc := { p with calls := p.calls.eraseIdx k, rf := p.rf.transferReply reply } }
  | callFailed {k} : Executes p (.callFailed k) { proc := { p with calls := p.calls.eraseIdx k } }
  | start {command} :
      Executes p (.start command) { proc := { p with rf := (p.rf.start command).1 } }
  | heartbeat {msgs} (hr : p.rf.startHeartbeat me cfg.nodeIDs = some msgs) :
      Executes p .heartbeat (Outcome.sending p p.rf (msgs.map fun x => (x.1, .appendEntries x.2)))
  | applyBatch {rf msgs} (hr : p.rf.sendApplyMsg = some (rf, msgs)) :
      Executes p .applyBatch { proc := { p with rf := rf, applying := msgs } }
  | apply {msg rest} (happ : p.applying = msg :: rest) :
      Executes p .apply
        { proc := { p with applying := rest, delivered := msg.index }, sent := [msg] }
  | snapshot {index data rf} (hr : p.rf.snapshotUpTo index data = some rf) :
      Executes p (.snapshot index data) { proc := { p with rf := rf }, made := [(index, data)] }
  | transfer {target args} (hr : p.rf.transferLeadership me cfg.nodeIDs = some (target, args)) :
      Executes p .transferLeadership (Outcome.sending p p.rf [(target, .timeoutNow args)])
  | noTransfer : Executes p .transferLeadership { proc := p }

variable {cfg me} {p : Proc NodeID Cmd} {o : Outcome NodeID Cmd}

theorem execDeliver_cases {pkt : Packet NodeID Cmd} (h : execDeliver cfg me p pkt = some o) :
    Executes cfg me p (.deliver pkt) o := by
  unfold execDeliver at h
  split at h
  next args hc =>
    obtain ⟨⟨rf, reply⟩, hr, e⟩ := Option.bind_eq_some_iff.mp h
    cases e
    exact .requestVote hc hr
  next args hc =>
    obtain ⟨⟨rf, reply⟩, hr, e⟩ := Option.bind_eq_some_iff.mp h
    cases e
    exact .appendEntries hc hr
  next args hc =>
    obtain ⟨⟨rf, reply, round⟩, hr, e⟩ := Option.bind_eq_some_iff.mp h
    cases e
    exact .timeoutNow hc hr

theorem execReply_cases {k : ℕ} {answer : Answer} (h : execReply cfg me p k answer = some o) :
    Executes cfg me p (.reply k answer) o := by
  obtain ⟨⟨server, call⟩, hk, h⟩ := Option.bind_eq_some_iff.mp h
  dsimp only at h
  split at h
  · cases h
    exact .votes hk
  · obtain ⟨rf, hr, e⟩ := Option.bind_eq_some_iff.mp h
    cases e
    exact .matched hk hr
  · cases h
    exact .transferred hk
  · cases h

/-- **The branches of `exec`.** -/
theorem exec_cases {ev : Event NodeID Cmd} (h : exec cfg me p ev = some o) :
    Executes cfg me p ev o := by
  cases ev with
  | tickerArm =>
      cases h
      exact .tickerArm
  | tickerFire =>
      obtain ⟨generation, ht, h⟩ := Option.bind_eq_some_iff.mp h
      obtain ⟨⟨rf, round⟩, hr, e⟩ := Option.bind_eq_some_iff.mp h
      cases e
      exact .tickerFire ht hr
  | tickerReset =>
      cases h
      exact .tickerReset
  | deliver pkt => exact execDeliver_cases h
  | reply k answer => exact execReply_cases h
  | callFailed k =>
      cases h
      exact .callFailed
  | start command =>
      cases h
      exact .start
  | heartbeat =>
      obtain ⟨msgs, hr, e⟩ := Option.bind_eq_some_iff.mp h
      cases e
      exact .heartbeat hr
  | applyBatch =>
      obtain ⟨⟨rf, msgs⟩, hr, e⟩ := Option.bind_eq_some_iff.mp h
      cases e
      exact .applyBatch hr
  | apply =>
      unfold exec at h
      dsimp only at h
      split at h
      next msg rest happ =>
        cases h
        exact .apply happ
      next => cases h
  | snapshot index data =>
      obtain ⟨rf, hr, e⟩ := Option.bind_eq_some_iff.mp h
      cases e
      exact .snapshot hr
  | transferLeadership =>
      unfold exec at h
      dsimp only at h
      split at h
      next target args hr =>
        cases h
        exact .transfer hr
      next =>
        cases h
        exact .noTransfer

end Exec

namespace Cluster

variable {NodeID Cmd : Type}

/-- When an event can occur at node `n`. -/
def Enabled (c : Cluster NodeID Cmd) (n : NodeID) : Event NodeID Cmd → Prop
  | .tickerArm => (c.node n).timer = none
  | .tickerFire => (c.node n).timer ≠ none
  | .tickerReset => (c.node n).timer ≠ none ∧ (c.node n).rf.resetCh = true
  | .deliver pkt => pkt ∈ c.net ∧ pkt.dst = n
  | .reply k answer => ∃ x, (c.node n).calls[k]? = some x ∧ (⟨n, x.1, x.2⟩, answer) ∈ c.replies
  | .callFailed _ => True
  | .start _ => True
  | .heartbeat => True
  | .applyBatch =>
      (c.node n).applying = [] ∧ (c.node n).rf.commitIndex ≠ (c.node n).rf.appliedIndex
  | .apply => (c.node n).applying ≠ []
  | .snapshot index data => index ≤ (c.node n).delivered ∧ data ≠ []
  | .transferLeadership => True

variable [DecidableEq NodeID]

/-- The system after node `n` completed a critical section with result `o`, its disk at `st`. -/
def complete (c : Cluster NodeID Cmd) (n : NodeID) (o : Outcome NodeID Cmd)
    (st : PersistState NodeID Cmd) : Cluster NodeID Cmd where
  node := Function.update c.node n { o.proc with rf := { o.proc.rf with wal := [] } }
  disk := Function.update c.disk n st
  net := c.net ++ o.out.map fun x => ⟨n, x.1, x.2⟩
  replies := c.replies ++ o.answer.toList
  sent := c.sent ++ o.sent.map fun msg => (n, msg)
  made := c.made ++ o.made.map fun x => (n, x.1, x.2)

/-- The system after node `n` crashed with its disk at `st` and started again. The snapshots its
    service had produced by then were produced. -/
def reboot (c : Cluster NodeID Cmd) (n : NodeID) (made : List (ℕ × Bytes))
    (st : PersistState NodeID Cmd) : Cluster NodeID Cmd :=
  { c with
    node := Function.update c.node n (Proc.boot st)
    disk := Function.update c.disk n st
    made := c.made ++ made.map fun x => (n, x.1, x.2) }

variable [Inhabited Cmd]

/-- Every node fresh, nothing sent. -/
def init : Cluster NodeID Cmd where
  node _ := Proc.boot .fresh
  disk _ := .fresh
  net := []
  replies := []
  sent := []
  made := []

/-- **One step of the cluster.** -/
inductive Step (cfg : Config NodeID) : Cluster NodeID Cmd → Cluster NodeID Cmd → Prop where
  | run {c : Cluster NodeID Cmd} (n : NodeID) (hn : n ∈ cfg.nodeIDs) (ev : Event NodeID Cmd)
      (hev : c.Enabled n ev) (o : Outcome NodeID Cmd) (ho : exec cfg n (c.node n) ev = some o)
      (st : PersistState NodeID Cmd) (hst : (c.disk n).applyAll o.proc.rf.wal = some st) :
      Step cfg c (c.complete n o st)
  | crash {c : Cluster NodeID Cmd} (n : NodeID) (hn : n ∈ cfg.nodeIDs) (ev : Event NodeID Cmd)
      (hev : c.Enabled n ev) (o : Outcome NodeID Cmd) (ho : exec cfg n (c.node n) ev = some o)
      (k j : ℕ) (st : PersistState NodeID Cmd)
      (hst : (c.disk n).applyAll (torn WalOp.cut o.proc.rf.wal k j) = some st) :
      Step cfg c (c.reboot n o.made st)
  | restart {c : Cluster NodeID Cmd} (n : NodeID) (hn : n ∈ cfg.nodeIDs) :
      Step cfg c (c.reboot n [] (c.disk n))

/-- A run of the cluster. -/
abbrev Run (cfg : Config NodeID) : Cluster NodeID Cmd → Cluster NodeID Cmd → Prop :=
  Relation.ReflTransGen (Step cfg)

/-- The states the cluster can reach. -/
abbrev Reachable (cfg : Config NodeID) (c : Cluster NodeID Cmd) : Prop := Run cfg init c

/-! ## Schedules -/

variable [DecidableEq Cmd]

instance (c : Cluster NodeID Cmd) (n : NodeID) : DecidablePred (c.Enabled n)
  | .tickerArm => inferInstanceAs (Decidable ((c.node n).timer = none))
  | .tickerFire => inferInstanceAs (Decidable ((c.node n).timer ≠ none))
  | .tickerReset =>
      inferInstanceAs (Decidable ((c.node n).timer ≠ none ∧ (c.node n).rf.resetCh = true))
  | .deliver pkt => inferInstanceAs (Decidable (pkt ∈ c.net ∧ pkt.dst = n))
  | .reply k answer =>
      match hk : (c.node n).calls[k]? with
      | none => isFalse fun ⟨x, hx, _⟩ => by simp [hk] at hx
      | some x =>
          if hx : (⟨n, x.1, x.2⟩, answer) ∈ c.replies then isTrue ⟨x, hk, hx⟩
          else isFalse fun ⟨y, hy, hr⟩ => hx (by rw [hk] at hy; cases hy; exact hr)
  | .callFailed _ => isTrue trivial
  | .start _ => isTrue trivial
  | .heartbeat => isTrue trivial
  | .applyBatch => inferInstanceAs (Decidable
      ((c.node n).applying = [] ∧ (c.node n).rf.commitIndex ≠ (c.node n).rf.appliedIndex))
  | .apply => inferInstanceAs (Decidable ((c.node n).applying ≠ []))
  | .snapshot index data => inferInstanceAs (Decidable (index ≤ (c.node n).delivered ∧ data ≠ []))
  | .transferLeadership => isTrue trivial

/-- What a schedule lets a node do. -/
inductive Action (NodeID Cmd : Type) where
  | run (ev : Event NodeID Cmd)
  | crash (ev : Event NodeID Cmd) (k j : ℕ)
  | restart

/-- The step of one action, if it can be taken. -/
def next (cfg : Config NodeID) (c : Cluster NodeID Cmd) (n : NodeID) :
    Action NodeID Cmd → Option (Cluster NodeID Cmd)
  | .run ev =>
      if n ∈ cfg.nodeIDs ∧ c.Enabled n ev then do
        let o ← exec cfg n (c.node n) ev
        let st ← (c.disk n).applyAll o.proc.rf.wal
        some (c.complete n o st)
      else
        none
  | .crash ev k j =>
      if n ∈ cfg.nodeIDs ∧ c.Enabled n ev then do
        let o ← exec cfg n (c.node n) ev
        let st ← (c.disk n).applyAll (torn WalOp.cut o.proc.rf.wal k j)
        some (c.reboot n o.made st)
      else
        none
  | .restart => if n ∈ cfg.nodeIDs then some (c.reboot n [] (c.disk n)) else none

/-- A schedule names a node and chooses its action from the state. -/
abbrev Schedule (NodeID Cmd : Type) := List (NodeID × (Cluster NodeID Cmd → Action NodeID Cmd))

def play (cfg : Config NodeID) (c : Cluster NodeID Cmd) (script : Schedule NodeID Cmd) :
    Option (Cluster NodeID Cmd) :=
  script.foldlM (fun c x => c.next cfg x.1 (x.2 c)) c

theorem next_run {cfg : Config NodeID} {c c' : Cluster NodeID Cmd} {n : NodeID}
    {ev : Event NodeID Cmd} (h : c.next cfg n (.run ev) = some c') :
    n ∈ cfg.nodeIDs ∧ c.Enabled n ev ∧ ∃ o st, exec cfg n (c.node n) ev = some o ∧
      (c.disk n).applyAll o.proc.rf.wal = some st ∧ c' = c.complete n o st := by
  unfold next at h
  dsimp only at h
  split at h
  next hc =>
    obtain ⟨o, ho, h⟩ := Option.bind_eq_some_iff.mp h
    obtain ⟨st, hst, e⟩ := Option.bind_eq_some_iff.mp h
    cases e
    exact ⟨hc.1, hc.2, o, st, ho, hst, rfl⟩
  next => cases h

theorem next_crash {cfg : Config NodeID} {c c' : Cluster NodeID Cmd} {n : NodeID}
    {ev : Event NodeID Cmd} {k j : ℕ} (h : c.next cfg n (.crash ev k j) = some c') :
    n ∈ cfg.nodeIDs ∧ c.Enabled n ev ∧ ∃ o st, exec cfg n (c.node n) ev = some o ∧
      (c.disk n).applyAll (torn WalOp.cut o.proc.rf.wal k j) = some st ∧
      c' = c.reboot n o.made st := by
  unfold next at h
  dsimp only at h
  split at h
  next hc =>
    obtain ⟨o, ho, h⟩ := Option.bind_eq_some_iff.mp h
    obtain ⟨st, hst, e⟩ := Option.bind_eq_some_iff.mp h
    cases e
    exact ⟨hc.1, hc.2, o, st, ho, hst, rfl⟩
  next => cases h

theorem next_restart {cfg : Config NodeID} {c c' : Cluster NodeID Cmd} {n : NodeID}
    (h : c.next cfg n .restart = some c') : n ∈ cfg.nodeIDs ∧ c' = c.reboot n [] (c.disk n) := by
  unfold next at h
  dsimp only at h
  split at h
  next hn =>
    cases h
    exact ⟨hn, rfl⟩
  next => cases h

theorem next_step {cfg : Config NodeID} {c c' : Cluster NodeID Cmd} {n : NodeID}
    {act : Action NodeID Cmd} (h : c.next cfg n act = some c') : Step cfg c c' := by
  cases act with
  | run ev =>
      obtain ⟨hn, hev, o, st, ho, hst, rfl⟩ := next_run h
      exact .run n hn ev hev o ho st hst
  | crash ev k j =>
      obtain ⟨hn, hev, o, st, ho, hst, rfl⟩ := next_crash h
      exact .crash n hn ev hev o ho k j st hst
  | restart =>
      obtain ⟨hn, rfl⟩ := next_restart h
      exact .restart n hn

/-- **A schedule played to its end is a run.** -/
theorem play_run {cfg : Config NodeID} {script : Schedule NodeID Cmd} {c c' : Cluster NodeID Cmd}
    (h : play cfg c script = some c') : Run cfg c c' := by
  induction script generalizing c with
  | nil =>
      cases h
      exact .refl
  | cons x script ih =>
      have h' : (c.next cfg x.1 (x.2 c)).bind (fun c₁ => play cfg c₁ script) = some c' := h
      obtain ⟨c₁, h1, h2⟩ := Option.bind_eq_some_iff.mp h'
      exact .head (next_step h1) (ih h2)

end Cluster

end RaftLab.Raft1

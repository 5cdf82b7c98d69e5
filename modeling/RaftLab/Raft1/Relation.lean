/-
  File:      RaftLab/Raft1/Relation.lean
  Subject:   The relation between a cluster and the abstract term log it implements.

  * `DiskOk`  -- what a node's durable state says about the record: its term, its vote, its
    compacted log, and that everything below its snapshot is committed;
  * `MemOk`   -- what the volatile fields say: `commitIndex` bounds a committed prefix, the two
    role fields agree, a leader leads its term, `matchIndex` counts only confirmed prefixes;
  * `PollOk`  -- a candidate's `voteCount` counts distinct voters, none of which has another vote
    request of the term under way;
  * `PacketOk`, `ReplyOk`, `MsgOk` -- what a request, a reply and an `ApplyMsg` say;
  * `Sim`     -- all of these at every node and for everything ever sent.

  What is about one node survives the steps of every other (`frame` lemmas); what is about a
  message survives every step (`mono` lemmas).

  `Track` follows one critical section from the state it entered with to where it has come: the
  abstract run so far, and for every crash inside it an abstract run to what the disk then
  holds. `Track.write` extends it by one WAL call, `Track.quiet` by a change in memory.
-/
import RaftLab.Raft1.View

namespace RaftLab.Raft1

open RaftLab.Lib RaftLab.Lib.TermLog Relation

variable {NodeID Cmd : Type} [DecidableEq NodeID] [Inhabited Cmd]

/-- The term log of a Raft cluster. -/
abbrev Record (NodeID Cmd : Type) := TermLog NodeID (LogEntry Cmd)

/-- The majorities of the members. -/
abbrev Config.quorums (cfg : Config NodeID) : QuorumSystem NodeID :=
  majority cfg.nodeIDs cfg.nodup

/-- A committed prefix, as the members' majorities decide it. -/
abbrev Committed (cfg : Config NodeID) (a : Record NodeID Cmd) (t : ℕ)
    (p : List (LogEntry Cmd)) : Prop := CommittedBy cfg.quorums tm a t p

/-- One abstract step of node `n`. -/
abbrev Move (cfg : Config NodeID) (n : NodeID) : Record NodeID Cmd → Record NodeID Cmd → Prop :=
  TermLog.Step cfg.quorums tm n

/-! ## 1. What the parts of a cluster say -/

/-- Bytes kept as the snapshot up to `index`: some service produced them for it. -/
def SnapOk (made : List (NodeID × ℕ × Bytes)) (index : ℕ) (snapshot : Option Bytes) : Prop :=
  (snapshot = none → index = 0) ∧ ∀ data, snapshot = some data → ∃ m, (m, index, data) ∈ made

structure DiskOk (cfg : Config NodeID) (made : List (NodeID × ℕ × Bytes)) (a : Record NodeID Cmd)
    (n : NodeID) (st : PersistState NodeID Cmd) : Prop where
  term : st.term = a.term n
  vote : a.vote (a.term n) n = st.vote
  logs : st.logs = compact (a.log n) st.snapshotIndex
  le : st.snapshotIndex ≤ (a.log n).length
  committed : Committed cfg a (a.term n) ((a.log n).take st.snapshotIndex)
  snap : SnapOk made st.snapshotIndex st.snapshot

structure MemOk (cfg : Config NodeID) (a : Record NodeID Cmd) (n : NodeID)
    (rf : Raft NodeID Cmd) : Prop where
  snapLe : rf.snapshotIndex ≤ rf.commitIndex
  commitLe : rf.commitIndex ≤ (a.log n).length
  appliedLe : rf.appliedIndex ≤ rf.commitIndex
  committed : Committed cfg a (a.term n) ((a.log n).take rf.commitIndex)
  leads : rf.leaderId = some n ↔ rf.customerId = .leader
  leader : rf.customerId = .leader → a.leader (a.term n) = some n
  matched : rf.customerId = .leader → ∀ m ∈ cfg.nodeIDs, 0 < rf.matchIndex m →
    a.ack (a.term n) m (rf.matchIndex m)
  stands : rf.customerId = .candidate →
    a.cand (a.term n) n = some (a.log n) ∧ a.leader (a.term n) ≠ some n

/-- A waiting vote request of term `t` to node `d`. -/
def isVoteCall (t : ℕ) (d : NodeID) : NodeID × Call NodeID Cmd → Bool
  | (id, .requestVote args) => decide (id = d ∧ args.term = t)
  | _ => false

/-- A candidate has counted `voteCount` voters, and no voter twice. -/
def PollOk (cfg : Config NodeID) (a : Record NodeID Cmd) (n : NodeID) (rf : Raft NodeID Cmd)
    (calls : List (NodeID × Call NodeID Cmd)) : Prop :=
  rf.customerId = .candidate → ∃ S : Finset NodeID, S ⊆ cfg.nodeIDs.toFinset ∧
    S.card = rf.voteCount ∧ (∀ v ∈ S, a.vote rf.term v = some n) ∧
    (∀ d, calls.countP (isVoteCall rf.term d) ≤ 1) ∧
    ∀ d ∈ S, calls.countP (isVoteCall rf.term d) = 0

/-- What an `ApplyMsg` says. -/
structure MsgOk (cfg : Config NodeID) (made : List (NodeID × ℕ × Bytes)) (a : Record NodeID Cmd)
    (msg : ApplyMsg Cmd) : Prop where
  command : msg.commandValid = true → ∃ t p e, Committed cfg a t (p ++ [e]) ∧
    p.length + 1 = msg.commandIndex ∧ e.command = msg.command
  snapshot : msg.snapshotValid = true →
    ∃ m data, msg.snapshot = some data ∧ (m, msg.snapshotIndex, data) ∈ made

/-- What an `AppendEntries` message says: a piece of the leader's log behind a probe, or the
    leader's snapshot. -/
structure EntriesOk (cfg : Config NodeID) (made : List (NodeID × ℕ × Bytes))
    (a : Record NodeID Cmd) (args : AppendEntries NodeID Cmd) : Prop where
  led : a.leader args.term ≠ none
  entries : args.snapshot = none →
    args.prevLogIndex + args.entries.length ≤ (a.llog args.term).length ∧
    args.prevLogTerm = termAt tm (a.llog args.term) args.prevLogIndex ∧
    args.entries = ((a.llog args.term).drop args.prevLogIndex).take args.entries.length ∧
    args.leaderCommit ≤ args.prevLogIndex + args.entries.length ∧
    Committed cfg a args.term ((a.llog args.term).take args.leaderCommit)
  snapshot : ∀ data, args.snapshot = some data →
    args.snapshotIndex ≤ (a.llog args.term).length ∧
    args.snapshotTerm = termAt tm (a.llog args.term) args.snapshotIndex ∧
    Committed cfg a args.term ((a.llog args.term).take args.snapshotIndex) ∧
    ∃ m, (m, args.snapshotIndex, data) ∈ made

/-- What a request on the network says. -/
def PacketOk (cfg : Config NodeID) (made : List (NodeID × ℕ × Bytes)) (a : Record NodeID Cmd)
    (pkt : Packet NodeID Cmd) : Prop :=
  match pkt.call with
  | .requestVote args => args.candidateId = pkt.src ∧ pkt.dst ∈ cfg.nodeIDs ∧
      ∃ l, a.cand args.term pkt.src = some l ∧ args.lastLogIndex = l.length ∧
        args.lastLogTerm = lastTerm tm l
  | .appendEntries args => args.leaderId = pkt.src ∧ pkt.src ≠ pkt.dst ∧
      EntriesOk cfg made a args
  | .timeoutNow _ => True

/-- What a reply says about the request it answers. -/
def ReplyOk (a : Record NodeID Cmd) (pkt : Packet NodeID Cmd) (answer : Answer) : Prop :=
  match pkt.call, answer with
  | .requestVote args, .requestVote reply =>
      reply.voteGranted = true → a.vote args.term pkt.dst = some args.candidateId
  | .appendEntries args, .appendEntries reply =>
      reply.success = true → a.ack args.term pkt.dst (Raft.newMatch args)
  | .timeoutNow _, .timeoutNow _ => True
  | _, _ => False

/-- What a process at rest says. -/
structure ProcOk (cfg : Config NodeID) (made : List (NodeID × ℕ × Bytes)) (a : Record NodeID Cmd)
    (n : NodeID) (p : Proc NodeID Cmd) : Prop where
  disk : DiskOk cfg made a n p.rf.persist
  mem : MemOk cfg a n p.rf
  poll : PollOk cfg a n p.rf p.calls
  applying : ∀ msg ∈ p.applying, MsgOk cfg made a msg ∧ msg.index ≤ p.rf.commitIndex
  delivered : p.delivered ≤ p.rf.commitIndex

/-- **The relation**: cluster `c` is in a state the record `a` describes. -/
structure Sim (cfg : Config NodeID) (c : Cluster NodeID Cmd) (a : Record NodeID Cmd) : Prop where
  inv : Inv cfg.quorums tm a
  disk : ∀ n, c.disk n = (c.node n).rf.persist
  wal : ∀ n, (c.node n).rf.wal = []
  proc : ∀ n, ProcOk cfg c.made a n (c.node n)
  calls : ∀ n, ∀ x ∈ (c.node n).calls, (⟨n, x.1, x.2⟩ : Packet NodeID Cmd) ∈ c.net
  net : ∀ pkt ∈ c.net, PacketOk cfg c.made a pkt
  replies : ∀ x ∈ c.replies, ReplyOk a x.1 x.2
  sent : ∀ x ∈ c.sent, MsgOk cfg c.made a x.2

/-! ## 2. What survives -/

section Mono

variable {cfg : Config NodeID} {made made' : List (NodeID × ℕ × Bytes)} {a a' : Record NodeID Cmd}
  {n m : NodeID}

omit [DecidableEq NodeID] in
theorem SnapOk.mono {index : ℕ} {snapshot : Option Bytes} (h : SnapOk made index snapshot)
    (hm : made ⊆ made') : SnapOk made' index snapshot :=
  ⟨h.1, fun data hd => (h.2 data hd).imp fun _ hx => hm hx⟩

theorem DiskOk.made_mono {st : PersistState NodeID Cmd} (h : DiskOk cfg made a n st)
    (hm : made ⊆ made') : DiskOk cfg made' a n st :=
  { h with snap := h.snap.mono hm }

omit [Inhabited Cmd] in
theorem MsgOk.mono {msg : ApplyMsg Cmd} (h : MsgOk cfg made a msg) (hx : Ext a a')
    (hm : made ⊆ made') : MsgOk cfg made' a' msg where
  command hc := by
    obtain ⟨t, p, e, hp, hi, he⟩ := h.command hc
    exact ⟨t, p, e, hp.mono hx, hi, he⟩
  snapshot hs := by
    obtain ⟨k, data, hd, hk⟩ := h.snapshot hs
    exact ⟨k, data, hd, hm hk⟩

omit [Inhabited Cmd] in
theorem EntriesOk.mono {args : AppendEntries NodeID Cmd} (h : EntriesOk cfg made a args)
    (hx : Ext a a') (hm : made ⊆ made') : EntriesOk cfg made' a' args where
  led := hx.leader_ne h.led
  entries hs := by
    obtain ⟨h1, h2, h3, h4, h5⟩ := h.entries hs
    obtain ⟨r, hr⟩ := hx.llog h.led
    have hdrop : ((a.llog args.term ++ r).drop args.prevLogIndex).take args.entries.length =
        ((a.llog args.term).drop args.prevLogIndex).take args.entries.length := by
      rw [List.drop_append_of_le_length (by omega), List.take_append_of_le_length]
      rw [List.length_drop]
      omega
    refine ⟨h1.trans (hx.llog h.led).length_le, ?_, ?_, h4, ?_⟩
    · rw [← termAt_isPrefix (hx.llog h.led) (by omega)]
      exact h2
    · rw [← hr, hdrop]
      exact h3
    · rw [hx.take_llog h.led (by omega)]
      exact h5.mono hx
  snapshot data hs := by
    obtain ⟨h1, h2, h3, k, hk⟩ := h.snapshot data hs
    refine ⟨h1.trans (hx.llog h.led).length_le, ?_, ?_, k, hm hk⟩
    · rw [← termAt_isPrefix (hx.llog h.led) h1]
      exact h2
    · rw [hx.take_llog h.led h1]
      exact h3.mono hx

omit [Inhabited Cmd] in
theorem PacketOk.mono {pkt : Packet NodeID Cmd} (h : PacketOk cfg made a pkt) (hx : Ext a a')
    (hm : made ⊆ made') : PacketOk cfg made' a' pkt := by
  unfold PacketOk at h ⊢
  cases hc : pkt.call with
  | requestVote args =>
      rw [hc] at h
      obtain ⟨h1, h2, l, h3, h4⟩ := h
      exact ⟨h1, h2, l, hx.cand h3, h4⟩
  | appendEntries args =>
      rw [hc] at h
      obtain ⟨h1, h2, h3⟩ := h
      exact ⟨h1, h2, h3.mono hx hm⟩
  | timeoutNow args => trivial

omit [DecidableEq NodeID] [Inhabited Cmd] in
theorem ReplyOk.mono {pkt : Packet NodeID Cmd} {answer : Answer} (h : ReplyOk a pkt answer)
    (hx : Ext a a') : ReplyOk a' pkt answer := by
  unfold ReplyOk at h ⊢
  split at h
  · exact fun hg => hx.vote (h hg)
  · exact fun hs => hx.ack (h hs)
  · trivial
  · exact h

/-- A node's disk does not notice the steps of another node. -/
theorem DiskOk.frame {st : PersistState NodeID Cmd} (h : DiskOk cfg made a m st) (hx : Ext a a')
    (ho : Others n a a') (hm : m ≠ n) : DiskOk cfg made a' m st where
  term := by rw [ho.term hm]; exact h.term
  vote := by rw [ho.term hm, ho.vote hm]; exact h.vote
  logs := by rw [ho.log hm]; exact h.logs
  le := by rw [ho.log hm]; exact h.le
  committed := by rw [ho.term hm, ho.log hm]; exact h.committed.mono hx
  snap := h.snap

omit [Inhabited Cmd] in
/-- Nor does its memory. -/
theorem MemOk.frame {rf : Raft NodeID Cmd} (h : MemOk cfg a m rf) (hx : Ext a a')
    (ho : Others n a a') (hm : m ≠ n) : MemOk cfg a' m rf where
  snapLe := h.snapLe
  commitLe := by rw [ho.log hm]; exact h.commitLe
  appliedLe := h.appliedLe
  committed := by rw [ho.term hm, ho.log hm]; exact h.committed.mono hx
  leads := h.leads
  leader hr := by rw [ho.term hm]; exact hx.leader (h.leader hr)
  matched hr k hk hp := by rw [ho.term hm]; exact hx.ack (h.matched hr k hk hp)
  stands hr := by
    rw [ho.term hm, ho.log hm]
    exact ⟨hx.cand (h.stands hr).1, fun hl => (h.stands hr).2 (ho.leader hm hl)⟩

omit [Inhabited Cmd] in
/-- A poll goes on through any later record, as long as the server stays in it. -/
theorem PollOk.mono {rf rf' : Raft NodeID Cmd} {calls calls' : List (NodeID × Call NodeID Cmd)}
    (h : PollOk cfg a n rf calls) (hx : Ext a a')
    (hr : rf'.customerId = .candidate →
      rf.customerId = .candidate ∧ rf'.term = rf.term ∧ rf'.voteCount = rf.voteCount)
    (hc : ∀ t d, calls'.countP (isVoteCall t d) ≤ calls.countP (isVoteCall t d)) :
    PollOk cfg a' n rf' calls' := by
  intro hcand
  obtain ⟨h1, h2, h3⟩ := hr hcand
  obtain ⟨S, hS, hcard, hv, hone, hzero⟩ := h h1
  refine ⟨S, hS, by rw [h3]; exact hcard, fun v hvS => ?_, fun d => ?_, fun d hd => ?_⟩
  · rw [h2]
    exact hx.vote (hv v hvS)
  · rw [h2]
    exact (hc _ d).trans (hone d)
  · rw [h2]
    exact Nat.le_zero.mp ((hc _ d).trans (hzero d hd).le)

theorem ProcOk.frame {p : Proc NodeID Cmd} (h : ProcOk cfg made a m p) (hx : Ext a a')
    (ho : Others n a a') (hm : m ≠ n) (hmade : made ⊆ made') : ProcOk cfg made' a' m p where
  disk := (h.disk.frame hx ho hm).made_mono hmade
  mem := h.mem.frame hx ho hm
  poll := h.poll.mono hx (fun hr => ⟨hr, rfl, rfl⟩) fun _ _ => le_refl _
  applying msg hmsg := ⟨(h.applying msg hmsg).1.mono hx hmade, (h.applying msg hmsg).2⟩
  delivered := h.delivered

end Mono

/-! ## 3. Following a critical section -/

omit [DecidableEq NodeID] in
theorem PersistState.applyAll_append (st : PersistState NodeID Cmd)
    (ops ops' : List (WalOp NodeID Cmd)) :
    st.applyAll (ops ++ ops') = (st.applyAll ops).bind fun st' => st'.applyAll ops' := by
  unfold PersistState.applyAll
  rw [List.foldlM_append]
  rfl

/-- Where a critical section of node `n` has come: it entered with the record `a₀` and the disk
    `st₀`, and has made the calls `rf.wal`. -/
structure Track (cfg : Config NodeID) (made : List (NodeID × ℕ × Bytes)) (n : NodeID)
    (a₀ : Record NodeID Cmd) (st₀ : PersistState NodeID Cmd) (a : Record NodeID Cmd)
    (rf : Raft NodeID Cmd) : Prop where
  run : ReflTransGen (Move cfg n) a₀ a
  inv : Inv cfg.quorums tm a
  full : st₀.applyAll rf.wal = some rf.persist
  torn : ∀ k j st, st₀.applyAll (torn WalOp.cut rf.wal k j) = some st →
    ∃ a', ReflTransGen (Move cfg n) a₀ a' ∧ DiskOk cfg made a' n st
  disk : DiskOk cfg made a n rf.persist
  mem : MemOk cfg a n rf

namespace Track

variable {cfg : Config NodeID} {made : List (NodeID × ℕ × Bytes)} {n : NodeID}
  {a₀ a a' : Record NodeID Cmd} {st₀ : PersistState NodeID Cmd} {rf rf' : Raft NodeID Cmd}

/-- A section begins. -/
theorem enter (hI : Inv cfg.quorums tm a) (hw : rf.wal = [])
    (hd : DiskOk cfg made a n rf.persist) (hm : MemOk cfg a n rf) :
    Track cfg made n a rf.persist a rf where
  run := .refl
  inv := hI
  full := by rw [hw]; rfl
  torn k j st hst := by
    rw [hw, torn_nil] at hst
    obtain rfl : rf.persist = st := by simpa using hst
    exact ⟨a, .refl, hd⟩
  disk := hd
  mem := hm

/-- A section changes its memory and perhaps the record, and writes nothing. -/
theorem quiet (h : Track cfg made n a₀ st₀ a rf) (hw : rf'.wal = rf.wal)
    (hp : rf'.persist = rf.persist) (hrun : ReflTransGen (Move cfg n) a a')
    (hd : DiskOk cfg made a' n rf'.persist) (hm : MemOk cfg a' n rf') :
    Track cfg made n a₀ st₀ a' rf' where
  run := h.run.trans hrun
  inv := (run_later hrun h.inv).1
  full := by rw [hw, hp]; exact h.full
  torn := by rw [hw]; exact h.torn
  disk := hd
  mem := hm

/-- **A section makes one WAL call**: a crash before, inside or after it is followed. -/
theorem write (h : Track cfg made n a₀ st₀ a rf) (op : WalOp NodeID Cmd)
    (hw : rf'.wal = rf.wal ++ [op]) (hop : rf.persist.apply op = some rf'.persist)
    (hrun : ReflTransGen (Move cfg n) a a') (hd : DiskOk cfg made a' n rf'.persist)
    (hm : MemOk cfg a' n rf')
    (hcut : ∀ es, op = .appendLog es → ∀ j st, rf.persist.apply (.appendLog (es.take j)) = some st →
      ∃ a'', ReflTransGen (Move cfg n) a a'' ∧ DiskOk cfg made a'' n st) :
    Track cfg made n a₀ st₀ a' rf' where
  run := h.run.trans hrun
  inv := (run_later hrun h.inv).1
  full := by
    rw [hw, PersistState.applyAll_append, h.full]
    show (rf.persist.apply op).bind some = _
    rw [hop]
    rfl
  torn k j st hst := by
    rw [hw] at hst
    rcases Nat.lt_trichotomy k rf.wal.length with hk | hk | hk
    · rw [torn_append_lt _ _ hk] at hst
      exact h.torn k j st hst
    · rw [hk, torn_concat_last, PersistState.applyAll_append, h.full] at hst
      cases op with
      | appendLog es =>
          have hst' : rf.persist.apply (.appendLog (es.take j)) = some st := hst
          obtain ⟨a'', hrun'', hd''⟩ := hcut es rfl j st hst'
          exact ⟨a'', h.run.trans hrun'', hd''⟩
      | saveMeta _ _ | truncateSuffix _ | saveSnapshot _ _ _ _ =>
          obtain rfl : rf.persist = st := Option.some.inj hst
          exact ⟨a, h.run, h.disk⟩
    · rw [torn_of_length_le _ _ (by simp; omega), PersistState.applyAll_append, h.full] at hst
      have hst' : (rf.persist.apply op).bind some = some st := hst
      rw [hop] at hst'
      obtain rfl : rf'.persist = st := Option.some.inj hst'
      exact ⟨a', h.run.trans hrun, hd⟩
  disk := hd
  mem := hm

theorem views (h : Track cfg made n a₀ st₀ a rf) : Views (a.log n) rf :=
  ⟨h.disk.logs, h.disk.le⟩

theorem term (h : Track cfg made n a₀ st₀ a rf) : rf.term = a.term n := h.disk.term

/-- What the section entered with is still there. -/
theorem ext (h : Track cfg made n a₀ st₀ a rf) (h0 : Inv cfg.quorums tm a₀) : Ext a₀ a :=
  (run_later h.run h0).2.1

end Track

end RaftLab.Raft1

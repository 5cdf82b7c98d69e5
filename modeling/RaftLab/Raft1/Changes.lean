/-
  File:      RaftLab/Raft1/Changes.lean
  Subject:   What the critical sections of a Raft server write and put out.

  A section is a sequence of single writes to the memory, or to the memory and the WAL
  (`Change`). Two writes are made by one kind of section only and end it: an election won
  (`Raft.won`) and a snapshot saved (`Raft.saved`).

  * `exec_course` -- **every event, as such writes**;
  * `exec_output` -- where the snapshots it produces and the log entries it sends come from.

  What a section keeps (Frame.lean) and what it never takes back (Progress.lean) rest on one
  server alone: they are shown for the single writes, and no function is unfolded for them again.
-/
import RaftLab.Raft1.Cluster

namespace RaftLab.Raft1

open RaftLab.Lib Relation

variable {NodeID Cmd : Type}

/-! ## 1. Single writes -/

/-- **One write of a critical section.** -/
inductive Change (rf : Raft NodeID Cmd) : Raft NodeID Cmd → Prop where
  /-- Fields that are neither durable nor about leadership. -/
  | memory (leaderId : Option NodeID) (voteCount commitIndex electionGeneration : ℕ)
      (resetCh : Bool) : Change rf { rf with
        leaderId := leaderId, voteCount := voteCount, commitIndex := commitIndex
        electionGeneration := electionGeneration, resetCh := resetCh }
  | follow : Change rf { rf with customerId := .follower }
  | stepDown (newTerm : ℕ) (h : rf.term < newTerm) : Change rf (rf.stepDown newTerm)
  | campaign (me : NodeID) : Change rf { rf with
        term := rf.term + 1, customerId := .candidate, voteFor := some me
        wal := rf.wal ++ [.saveMeta (rf.term + 1) (some me)] }
  | vote (id : NodeID) : Change rf { rf with
        voteFor := some id, wal := rf.wal ++ [.saveMeta rf.term (some id)] }
  | append (entry : LogEntry Cmd) : Change rf { rf with
        logs := rf.logs ++ [entry], wal := rf.wal ++ [.appendLog [entry]] }
  | splice (k : ℕ) (logs entries : List (LogEntry Cmd)) (h : rf.snapshotIndex < k) :
      Change rf { rf with
        logs := logs, wal := rf.wal ++ [.truncateSuffix k, .appendLog entries] }
  | credit (matchIndex nextIndex : NodeID → ℕ) (hm : ∀ m, rf.matchIndex m ≤ matchIndex m)
      (hn : ∀ m, 1 ≤ rf.nextIndex m → 1 ≤ nextIndex m) :
      Change rf { rf with matchIndex := matchIndex, nextIndex := nextIndex }

abbrev Changes : Raft NodeID Cmd → Raft NodeID Cmd → Prop := ReflTransGen Change

/-- A candidate that has become the leader. -/
def Raft.won [DecidableEq NodeID] (me : NodeID) (nodeIDs : List NodeID) (rf : Raft NodeID Cmd) :
    Raft NodeID Cmd :=
  { rf with
    customerId := .leader
    leaderId := some me
    matchIndex := fun id => if id ∈ nodeIDs then 0 else rf.matchIndex id
    nextIndex := fun id => if id ∈ nodeIDs then rf.lastLogIndex + 1 else rf.nextIndex id }

/-- A server that has saved a snapshot up to `N`. -/
def Raft.saved [Inhabited Cmd] (rf : Raft NodeID Cmd) (N term : ℕ) (data : Bytes)
    (suffix : List (LogEntry Cmd)) (commitIndex : ℕ) : Raft NodeID Cmd :=
  { rf with
    snapshot := some data
    logs := .sentinel term :: suffix
    snapshotIndex := N
    commitIndex := commitIndex
    wal := rf.wal ++ [.saveSnapshot N term (some data) suffix] }

/-- The entries a WAL call writes are of commands of which `P` holds. -/
def WalOp.Carries (P : Cmd → Prop) : WalOp NodeID Cmd → Prop
  | .appendLog entries => ∀ e ∈ entries, P e.command
  | .saveSnapshot _ _ _ suffix => ∀ e ∈ suffix, P e.command
  | _ => True

/-- Writes that leave the leader's bookkeeping alone and append nothing to the WAL but commands of
    which `P` holds. -/
structure Plain (P : Cmd → Prop) (rf rf' : Raft NodeID Cmd) : Prop where
  changes : Changes rf rf'
  matchIndex : rf'.matchIndex = rf.matchIndex
  nextIndex : rf'.nextIndex = rf.nextIndex
  wal : ∀ op ∈ rf'.wal, op ∈ rf.wal ∨ op.Carries P

section Plain

variable {P : Cmd → Prop} {rf rf' rf'' : Raft NodeID Cmd}

theorem Plain.refl (rf : Raft NodeID Cmd) : Plain P rf rf := ⟨.refl, rfl, rfl, fun _ h => .inl h⟩

theorem Plain.trans (h : Plain P rf rf') (h' : Plain P rf' rf'') : Plain P rf rf'' where
  changes := h.changes.trans h'.changes
  matchIndex := h'.matchIndex.trans h.matchIndex
  nextIndex := h'.nextIndex.trans h.nextIndex
  wal op hop := by
    rcases h'.wal op hop with hold | hnew
    · exact h.wal op hold
    · exact .inr hnew

/-- A write to the memory. -/
theorem Change.plain (h : Change rf rf') (hm : rf'.matchIndex = rf.matchIndex)
    (hn : rf'.nextIndex = rf.nextIndex) (hw : rf'.wal = rf.wal) : Plain P rf rf' :=
  ⟨.single h, hm, hn, fun _ hop => .inl (hw ▸ hop)⟩

/-- A write to the memory and the WAL. -/
theorem Change.logged (h : Change rf rf') (hm : rf'.matchIndex = rf.matchIndex)
    (hn : rf'.nextIndex = rf.nextIndex) {ops : List (WalOp NodeID Cmd)}
    (hw : rf'.wal = rf.wal ++ ops) (hops : ∀ op ∈ ops, op.Carries P) : Plain P rf rf' := by
  refine ⟨.single h, hm, hn, fun op hop => ?_⟩
  rw [hw] at hop
  rcases List.mem_append.mp hop with hold | hnew
  · exact .inl hold
  · exact .inr (hops op hnew)

end Plain

/-- `SaveMeta` writes no entry. -/
theorem carries_saveMeta {P : Cmd → Prop} (term : ℕ) (vote : Option NodeID) :
    ∀ op ∈ [(.saveMeta term vote : WalOp NodeID Cmd)], op.Carries P := by
  intro op hop
  rw [List.mem_singleton.mp hop]
  trivial

/-! ## 2. The sections -/

section Sections

variable (P : Cmd → Prop) {rf rf' : Raft NodeID Cmd}

theorem plain_memory (rf : Raft NodeID Cmd) (leaderId : Option NodeID)
    (voteCount commitIndex electionGeneration : ℕ) (resetCh : Bool) : Plain P rf { rf with
      leaderId := leaderId, voteCount := voteCount, commitIndex := commitIndex
      electionGeneration := electionGeneration, resetCh := resetCh } :=
  (Change.memory leaderId voteCount commitIndex electionGeneration resetCh).plain rfl rfl rfl

theorem plain_stepDownIf (rf : Raft NodeID Cmd) (newTerm : ℕ) :
    Plain P rf (if newTerm > rf.term then rf.stepDown newTerm else rf) := by
  split
  · rename_i h
    exact (Change.stepDown newTerm h).logged rfl rfl rfl (carries_saveMeta _ _)
  · exact .refl rf

theorem plain_beginElectionLocked {me : NodeID} {round : ElectionRound}
    (h : rf.beginElectionLocked me = some (rf', round)) : Plain P rf rf' := by
  obtain ⟨_, _, e⟩ := Option.bind_eq_some_iff.mp h
  cases e
  exact ((Change.campaign me).logged rfl rfl rfl (carries_saveMeta _ _)).trans
    (plain_memory P _ none 1 rf.commitIndex (rf.electionGeneration + 1) true)

theorem plain_tickerFire {me : NodeID} {generation : ℕ} {round : Option ElectionRound}
    (h : rf.tickerFire me generation = some (rf', round)) : Plain P rf rf' := by
  unfold Raft.tickerFire at h
  split at h
  · cases h
    exact .refl rf
  · obtain ⟨⟨rf1, r⟩, hb, e⟩ := Option.bind_eq_some_iff.mp h
    cases e
    exact plain_beginElectionLocked P hb

theorem plain_start (rf : Raft NodeID Cmd) {command : Cmd} (hP : P command) :
    Plain P rf (rf.start command).1 := by
  unfold Raft.start
  split
  · exact .refl rf
  · refine (Change.append ⟨command, rf.term⟩).logged rfl rfl rfl ?_
    intro op hop
    cases List.mem_singleton.mp hop
    intro e he
    cases List.mem_singleton.mp he
    exact hP

theorem plain_requestVote [DecidableEq NodeID] {args : RequestVoteArgs NodeID}
    {reply : RequestVoteReply} (h : rf.requestVote args = some (rf', reply)) : Plain P rf rf' := by
  unfold Raft.requestVote at h
  split at h
  · cases h
    exact .refl rf
  · have hstep := plain_stepDownIf P rf args.term
    generalize (if args.term > rf.term then rf.stepDown args.term else rf) = rf1 at h hstep
    obtain ⟨lastTerm, _, h⟩ := Option.bind_eq_some_iff.mp h
    dsimp only at h
    split at h
    · cases h
      exact (hstep.trans ((Change.vote args.candidateId).logged rfl rfl rfl
          (carries_saveMeta _ _))).trans
        (plain_memory P _ rf1.leaderId rf1.voteCount rf1.commitIndex (rf1.electionGeneration + 1)
          true)
    · cases h
      exact hstep

theorem plain_timeoutNow [DecidableEq NodeID] {me : NodeID} {args : TimeoutNowArgs NodeID}
    {reply : TimeoutNowReply} {round : Option ElectionRound}
    (h : rf.timeoutNow me args = some (rf', reply, round)) : Plain P rf rf' := by
  unfold Raft.timeoutNow at h
  split at h
  · cases h
    exact .refl rf
  · have hstep := plain_stepDownIf P rf args.term
    generalize (if args.term > rf.term then rf.stepDown args.term else rf) = rf1 at h hstep
    dsimp only at h
    split at h
    · cases h
      exact hstep
    · split at h
      · cases h
        exact hstep
      · obtain ⟨_, _, h⟩ := Option.bind_eq_some_iff.mp h
        split at h
        · cases h
          exact hstep
        · obtain ⟨⟨rf2, r⟩, hb, e⟩ := Option.bind_eq_some_iff.mp h
          cases e
          exact hstep.trans (plain_beginElectionLocked P hb)

/-- **`sendRequestVote`** is the one section that makes a leader. -/
theorem sendRequestVote_plain [DecidableEq NodeID] (me : NodeID) (nodeIDs : List NodeID)
    (rf : Raft NodeID Cmd) (args : RequestVoteArgs NodeID) (reply : RequestVoteReply) :
    Plain P rf (rf.sendRequestVote me nodeIDs args reply) ∨
      rf.customerId = .candidate ∧ ∃ count, rf.sendRequestVote me nodeIDs args reply =
        Raft.won me nodeIDs { rf with voteCount := count } := by
  unfold Raft.sendRequestVote
  split
  · rename_i hgt
    exact Or.inl ((Change.stepDown reply.term hgt).logged rfl rfl rfl (carries_saveMeta _ _))
  · split
    · exact Or.inl (.refl rf)
    · rename_i hvalid
      have hcand : rf.customerId = .candidate := by
        refine Classical.byContradiction fun hc => hvalid ?_
        exact Or.inr (Or.inl hc)
      dsimp only
      split
      · exact Or.inr ⟨hcand, rf.voteCount + 1, rfl⟩
      · exact Or.inl (plain_memory P rf rf.leaderId (rf.voteCount + 1) rf.commitIndex
          rf.electionGeneration rf.resetCh)

/-- The commit loop moves `commitIndex` and nothing else. -/
theorem commitLoop_eq [DecidableEq NodeID] (me : NodeID) (nodeIDs : List NodeID) (Ns : List ℕ) :
    ∀ {rf rf' : Raft NodeID Cmd}, Ns.foldlM (Raft.tryCommit me nodeIDs) rf = some rf' →
      ∃ c, rf' = { rf with commitIndex := c } := by
  induction Ns with
  | nil =>
      intro rf rf' h
      cases h
      exact ⟨rf.commitIndex, rfl⟩
  | cons N Ns ih =>
      intro rf rf' h
      obtain ⟨rf1, h1, h2⟩ := Option.bind_eq_some_iff.mp h
      obtain ⟨c, rfl⟩ := ih h2
      obtain ⟨_, _, h1⟩ := Option.bind_eq_some_iff.mp h1
      split at h1
      · cases h1
        exact ⟨c, rfl⟩
      · split at h1 <;> cases h1 <;> exact ⟨c, rfl⟩

/-- A confirmed index is counted, and a next one is noted. -/
theorem change_credit [DecidableEq NodeID] (rf : Raft NodeID Cmd) (server : NodeID)
    {k next : ℕ} (hk : rf.matchIndex server ≤ k) (hnext : 1 ≤ next) :
    Change rf { rf with
      matchIndex := Function.update rf.matchIndex server k
      nextIndex := Function.update rf.nextIndex server next } := by
  refine .credit _ _ ?_ ?_
  · intro m
    by_cases hm : m = server
    · subst hm
      rw [Function.update_self]
      exact hk
    · exact Nat.le_of_eq (Function.update_of_ne hm _ _).symm
  · intro m hpos
    by_cases hm : m = server
    · subst hm
      rw [Function.update_self]
      exact hnext
    · rw [Function.update_of_ne hm]
      exact hpos

theorem changes_sendAppendEntries [DecidableEq NodeID] {me : NodeID} {nodeIDs : List NodeID}
    {server : NodeID} {args : AppendEntries NodeID Cmd} {reply : AppendEntriesReply}
    (h : rf.sendAppendEntries me nodeIDs server args reply = some rf') : Changes rf rf' := by
  have hsame : Function.update rf.matchIndex server (rf.matchIndex server) = rf.matchIndex :=
    Function.update_eq_self _ _
  have hcommit : ∀ (rf1 : Raft NodeID Cmd) (c : ℕ), Change rf1 { rf1 with commitIndex := c } :=
    fun rf1 c => .memory rf1.leaderId rf1.voteCount c rf1.electionGeneration rf1.resetCh
  unfold Raft.sendAppendEntries at h
  split at h
  · rename_i hgt
    cases h
    exact .single (.stepDown reply.term hgt)
  · split at h
    · cases h
      exact .refl
    · split at h
      · by_cases hgt : Raft.newMatch args > rf.matchIndex server
        · simp only [if_pos hgt, Function.update_self] at h
          obtain ⟨c, rfl⟩ := commitLoop_eq me nodeIDs _ h
          have h1 := change_credit rf server (Nat.le_of_lt hgt)
            (Nat.le_add_left 1 (Raft.newMatch args))
          exact (ReflTransGen.single h1).tail (hcommit _ c)
        · simp only [if_neg hgt] at h
          obtain ⟨c, rfl⟩ := commitLoop_eq me nodeIDs _ h
          have h1 := change_credit rf server (Nat.le_refl _)
            (Nat.le_add_left 1 (rf.matchIndex server))
          rw [hsame] at h1
          exact (ReflTransGen.single h1).tail (hcommit _ c)
      · split at h
        · cases h
          exact .refl
        · cases h
          have hpos : 1 ≤ if reply.lastMatchIndex + 1 < 1 then 1 else reply.lastMatchIndex + 1 := by
            split <;> omega
          have h1 := change_credit rf server (Nat.le_refl _) hpos
          rw [hsame] at h1
          exact .single h1

theorem appendNew_cases {args : AppendEntries NodeID Cmd} (h : rf.appendNew args = some rf') :
    rf' = rf ∨ ∃ i logs, rf' = { rf with
      logs := logs
      wal := rf.wal ++
        [.truncateSuffix (args.prevLogIndex + 1 + i), .appendLog (args.entries.drop i)] } := by
  unfold Raft.appendNew at h
  split at h
  · obtain ⟨i, _, h⟩ := Option.bind_eq_some_iff.mp h
    split at h
    · obtain ⟨kept, _, e⟩ := Option.bind_eq_some_iff.mp h
      cases e
      exact Or.inr ⟨i, _, rfl⟩
    · cases h
      exact Or.inl rfl
  · cases h
    exact Or.inl rfl

/-- A message without a snapshot is rejected, or the log takes it in behind an index it
    represents. -/
theorem appendOrReject_cases {args : AppendEntries NodeID Cmd} {reply : AppendEntriesReply}
    (h : rf.appendOrReject args = some (rf', reply)) :
    rf' = rf ∨ reply.success = true ∧ rf.snapshotIndex ≤ args.prevLogIndex ∧
      ∃ rf1, rf.appendNew args = some rf1 ∧
        rf' = if args.leaderCommit > rf1.commitIndex then
          { rf1 with commitIndex := min args.leaderCommit rf1.lastLogIndex } else rf1 := by
  unfold Raft.appendOrReject at h
  split at h
  · cases h
    exact Or.inl rfl
  · rename_i hlow
    split at h
    · cases h
      exact Or.inl rfl
    · obtain ⟨e, _, h⟩ := Option.bind_eq_some_iff.mp h
      split at h
      · obtain ⟨_, _, e⟩ := Option.bind_eq_some_iff.mp h
        cases e
        exact Or.inl rfl
      · obtain ⟨rf1, h1, e⟩ := Option.bind_eq_some_iff.mp h
        cases e
        exact Or.inr ⟨rfl, Nat.le_of_not_lt hlow, rf1, h1, rfl⟩

/-- **Truncation is above the snapshot.** -/
theorem plain_appendOrReject {args : AppendEntries NodeID Cmd} {reply : AppendEntriesReply}
    (hP : ∀ e ∈ args.entries, P e.command)
    (h : rf.appendOrReject args = some (rf', reply)) : Plain P rf rf' := by
  rcases appendOrReject_cases h with rfl | ⟨_, hlow, rf1, h1, rfl⟩
  · exact .refl _
  · have hnew : Plain P rf rf1 := by
      rcases appendNew_cases h1 with rfl | ⟨i, logs, rfl⟩
      · exact .refl _
      · refine (Change.splice _ _ _ (by omega)).logged rfl rfl rfl ?_
        intro op hop
        rcases List.mem_pair.mp hop with rfl | rfl
        · trivial
        · exact fun e he => hP e (List.mem_of_mem_drop he)
    split
    · exact hnew.trans (plain_memory P rf1 rf1.leaderId rf1.voteCount _ rf1.electionGeneration
        rf1.resetCh)
    · exact hnew

variable [Inhabited Cmd]

theorem installSnapshot_changes {args : AppendEntries NodeID Cmd} {data : Bytes}
    {reply : AppendEntriesReply} (h : rf.installSnapshot args data = some (rf', reply)) :
    rf' = rf ∨ rf.snapshotIndex < args.snapshotIndex ∧ ∃ term suffix c, suffix ⊆ rf.logs.tail ∧
      rf' = rf.saved args.snapshotIndex term data suffix c := by
  unfold Raft.installSnapshot at h
  split at h
  · cases h
    exact Or.inl rfl
  · rename_i hnew
    obtain ⟨keep, _, h⟩ := Option.bind_eq_some_iff.mp h
    refine Or.inr ⟨Nat.lt_of_not_le hnew, args.snapshotTerm, ?_⟩
    dsimp only at h
    split at h
    · obtain ⟨suffix, hsuf, e⟩ := Option.bind_eq_some_iff.mp h
      cases e
      exact ⟨suffix, _, Slice.from?_subset_tail hsuf (by unfold Raft.relIdx; omega), rfl⟩
    · cases h
      exact ⟨[], _, List.nil_subset _, rfl⟩

/-- **`AppendEntriesHandler`** may end with the snapshot the message brings. -/
theorem appendEntriesHandler_plain {args : AppendEntries NodeID Cmd} {reply : AppendEntriesReply}
    (hP : ∀ e ∈ args.entries, P e.command)
    (h : rf.appendEntriesHandler args = some (rf', reply)) :
    Plain P rf rf' ∨ ∃ data rf1 term suffix c, args.snapshot = some data ∧ Plain P rf rf1 ∧
      rf1.snapshotIndex < args.snapshotIndex ∧ suffix ⊆ rf.logs.tail ∧
      rf' = rf1.saved args.snapshotIndex term data suffix c := by
  unfold Raft.appendEntriesHandler at h
  split at h
  · cases h
    exact Or.inl (.refl rf)
  · have hlogs : (rf.acceptLeader args.term args.leaderId).logs = rf.logs := by
      unfold Raft.acceptLeader
      dsimp only
      split <;> rfl
    have hacc : Plain P rf (rf.acceptLeader args.term args.leaderId) := by
      have hstep := plain_stepDownIf P rf args.term
      unfold Raft.acceptLeader
      generalize (if args.term > rf.term then rf.stepDown args.term else rf) = rf1 at hstep ⊢
      exact (hstep.trans (Change.follow.plain rfl rfl rfl)).trans
        (plain_memory P _ (some args.leaderId) rf1.voteCount rf1.commitIndex
          (rf1.electionGeneration + 1) true)
    simp only at h
    split at h
    · rename_i data hdata
      rcases installSnapshot_changes h with rfl | ⟨hnew, term, suffix, c, hsuf, rfl⟩
      · exact Or.inl hacc
      · rw [hlogs] at hsuf
        exact Or.inr ⟨data, _, term, suffix, c, hdata, hacc, hnew, hsuf, rfl⟩
    · exact Or.inl (hacc.trans (plain_appendOrReject P hP h))

theorem snapshotUpTo_changes {index : ℕ} {data : Bytes}
    (h : rf.snapshotUpTo index data = some rf') :
    rf' = rf ∨ rf.snapshotIndex < index ∧ ∃ term suffix, suffix ⊆ rf.logs.tail ∧
      rf' = rf.saved index term data suffix rf.commitIndex := by
  unfold Raft.snapshotUpTo at h
  split at h
  · cases h
    exact Or.inl rfl
  · rename_i hnew
    split at h
    · cases h
    · obtain ⟨e, _, h⟩ := Option.bind_eq_some_iff.mp h
      obtain ⟨suffix, hsuf, eq⟩ := Option.bind_eq_some_iff.mp h
      cases eq
      exact Or.inr ⟨Nat.lt_of_not_le hnew, e.term, suffix,
        Slice.from?_subset_tail hsuf (by unfold Raft.relIdx; omega), rfl⟩

theorem sendApplyMsg_eq {msgs : List (ApplyMsg Cmd)} (h : rf.sendApplyMsg = some (rf', msgs)) :
    rf' = { rf with appliedIndex := rf.commitIndex } := by
  obtain ⟨_, _, h⟩ := Option.bind_eq_some_iff.mp h
  obtain ⟨_, _, e⟩ := Option.bind_eq_some_iff.mp h
  cases e
  rfl

end Sections

/-! ## 3. The events -/

/-- The event brings snapshot `data` of index `N` to the server. -/
def Brings (N : ℕ) (data : Bytes) : Event NodeID Cmd → Prop
  | .snapshot index data' => index = N ∧ data' = data
  | .deliver pkt => ∃ args, pkt.call = .appendEntries args ∧ args.snapshot = some data ∧
      args.snapshotIndex = N
  | _ => False

/-- What event `ev` may write at server `me`. -/
inductive Writes [DecidableEq NodeID] [Inhabited Cmd] (cfg : Config NodeID) (me : NodeID)
    (ev : Event NodeID Cmd) (rf : Raft NodeID Cmd) : Raft NodeID Cmd → Prop where
  | plain {rf' : Raft NodeID Cmd} (h : Changes rf rf') : Writes cfg me ev rf rf'
  | won (count : ℕ) (hc : rf.customerId = .candidate) :
      Writes cfg me ev rf (Raft.won me cfg.nodeIDs { rf with voteCount := count })
  | saved {rf1 : Raft NodeID Cmd} (N term : ℕ) (data : Bytes) (suffix : List (LogEntry Cmd))
      (c : ℕ) (hb : Brings N data ev) (h : Changes rf rf1) (hN : rf1.snapshotIndex < N) :
      Writes cfg me ev rf (rf1.saved N term data suffix c)

/-- What an event does to a process: the batch of `sendApplyMsg` is taken by `applyBatch` and
    handed over by `apply`, and every other event leaves it alone. -/
def Course [DecidableEq NodeID] [Inhabited Cmd] (cfg : Config NodeID) (me : NodeID)
    (ev : Event NodeID Cmd) (p p' : Proc NodeID Cmd) : Prop :=
  match ev with
  | .applyBatch => ∃ rf msgs, p.rf.sendApplyMsg = some (rf, msgs) ∧
      p' = { p with rf := rf, applying := msgs }
  | .apply => ∃ msg rest, p.applying = msg :: rest ∧
      p' = { p with applying := rest, delivered := msg.index }
  | ev => p'.applying = p.applying ∧ p'.delivered = p.delivered ∧ Writes cfg me ev p.rf p'.rf

section Exec

variable [DecidableEq NodeID] [Inhabited Cmd] {cfg : Config NodeID} {me : NodeID}
  {p : Proc NodeID Cmd} {o : Outcome NodeID Cmd}

/-- **Every critical section, as what it writes.** -/
theorem exec_course {ev : Event NodeID Cmd} (h : exec cfg me p ev = some o) :
    Course cfg me ev p o.proc := by
  cases exec_cases h with
  | tickerArm | callFailed | heartbeat | transfer | noTransfer =>
      exact ⟨rfl, rfl, .plain .refl⟩
  | tickerFire _ hr => exact ⟨rfl, rfl, .plain (plain_tickerFire (fun _ => True) hr).changes⟩
  | tickerReset => exact ⟨rfl, rfl, .plain (.single (.memory _ _ _ _ false))⟩
  | requestVote _ hr => exact ⟨rfl, rfl, .plain (plain_requestVote (fun _ => True) hr).changes⟩
  | appendEntries hc hr =>
      rcases appendEntriesHandler_plain (fun _ => True) (fun _ _ => trivial) hr with
        hplain | ⟨data, rf1, term, suffix, c, hd, hplain, hN, _, rfl⟩
      · exact ⟨rfl, rfl, .plain hplain.changes⟩
      · exact ⟨rfl, rfl, .saved _ term data suffix c ⟨_, hc, hd, rfl⟩ hplain.changes hN⟩
  | timeoutNow _ hr => exact ⟨rfl, rfl, .plain (plain_timeoutNow (fun _ => True) hr).changes⟩
  | votes _ =>
      refine ⟨rfl, rfl, ?_⟩
      dsimp only
      rcases sendRequestVote_plain (fun _ => True) me cfg.nodeIDs p.rf _ _ with hc | ⟨hc, count, e⟩
      · exact .plain hc.changes
      · rw [e]
        exact .won count hc
  | matched _ hr => exact ⟨rfl, rfl, .plain (changes_sendAppendEntries hr)⟩
  | transferred _ => exact ⟨rfl, rfl, .plain (plain_stepDownIf (fun _ => True) p.rf _).changes⟩
  | start => exact ⟨rfl, rfl, .plain (plain_start (fun _ => True) p.rf trivial).changes⟩
  | applyBatch hr => exact ⟨_, _, hr, rfl⟩
  | apply happ => exact ⟨_, _, happ, rfl⟩
  | snapshot hr =>
      refine ⟨rfl, rfl, ?_⟩
      rcases snapshotUpTo_changes hr with rfl | ⟨hN, term, suffix, _, rfl⟩
      · exact .plain .refl
      · exact .saved _ term _ suffix _ ⟨rfl, rfl⟩ .refl hN

end Exec

/-! ## 4. What an event puts out -/

theorem mem_of_mapM {α β : Type} {f : α → Option β} {y : β} {l : List α} :
    ∀ {ys : List β}, l.mapM f = some ys → y ∈ ys → ∃ x ∈ l, f x = some y := by
  induction l with
  | nil =>
      intro ys h hy
      cases h
      exact absurd hy List.not_mem_nil
  | cons x l ih =>
      intro ys h hy
      rw [List.mapM_cons] at h
      obtain ⟨z, hz, h⟩ := Option.bind_eq_some_iff.mp h
      obtain ⟨zs, hzs, e⟩ := Option.bind_eq_some_iff.mp h
      cases e
      rcases List.mem_cons.mp hy with rfl | hmem
      · exact ⟨x, List.mem_cons_self, hz⟩
      · obtain ⟨x', hx', hf⟩ := ih hzs hmem
        exact ⟨x', List.mem_cons_of_mem _ hx', hf⟩

section Output

variable [DecidableEq NodeID] {cfg : Config NodeID} {me : NodeID}

theorem startHeartbeat_args {id : NodeID} {nodeIDs : List NodeID} {rf : Raft NodeID Cmd}
    {msgs : List (NodeID × AppendEntries NodeID Cmd)} {args : AppendEntries NodeID Cmd}
    (h : rf.startHeartbeat me nodeIDs = some msgs) (hmem : (id, args) ∈ msgs) :
    rf.customerId = .leader ∧ rf.heartbeatArgs me id = some args := by
  unfold Raft.startHeartbeat at h
  split at h
  · cases h
    exact absurd hmem List.not_mem_nil
  · rename_i hr
    obtain ⟨id', _, hf⟩ := mem_of_mapM h hmem
    obtain ⟨args', ha, e⟩ := Option.bind_eq_some_iff.mp hf
    cases e
    exact ⟨Decidable.not_not.mp hr, ha⟩

theorem not_mem_voteCalls {id : NodeID} {round : Option ElectionRound}
    {args : AppendEntries NodeID Cmd} : (id, .appendEntries args) ∉ voteCalls cfg me round := by
  cases round with
  | none => exact List.not_mem_nil
  | some round => simp [voteCalls]

/-- Where the snapshots come from that an event produces, and the log entries that it sends. -/
structure Output (me : NodeID) (ev : Event NodeID Cmd) (rf : Raft NodeID Cmd)
    (o : Outcome NodeID Cmd) : Prop where
  made : ∀ x ∈ o.made, ev = .snapshot x.1 x.2
  appendEntries : ∀ id args, (id, .appendEntries args) ∈ o.out →
    rf.customerId = .leader ∧ rf.heartbeatArgs me id = some args

omit [DecidableEq NodeID] in
theorem Output.silent {ev : Event NodeID Cmd} {rf : Raft NodeID Cmd} {o : Outcome NodeID Cmd}
    (hmade : o.made = []) (hout : o.out = []) : Output me ev rf o := by
  refine ⟨?_, ?_⟩
  · rw [hmade]
    exact fun x hx => absurd hx List.not_mem_nil
  · rw [hout]
    exact fun id args hx => absurd hx List.not_mem_nil

variable [Inhabited Cmd] {p : Proc NodeID Cmd} {o : Outcome NodeID Cmd}

/-- **Only the service produces snapshots, and only `startHeartbeat` sends log entries.** -/
theorem exec_output {ev : Event NodeID Cmd} (h : exec cfg me p ev = some o) :
    Output me ev p.rf o := by
  cases exec_cases h with
  | tickerFire | timeoutNow =>
      exact ⟨fun x hx => absurd hx List.not_mem_nil, fun id args hx => absurd hx not_mem_voteCalls⟩
  | heartbeat hr =>
      refine ⟨fun x hx => absurd hx List.not_mem_nil, fun id args hx => ?_⟩
      obtain ⟨⟨id', args'⟩, hmem, e⟩ := List.mem_map.mp hx
      cases e
      exact startHeartbeat_args hr hmem
  | snapshot hr =>
      refine ⟨fun x hx => ?_, fun id args hx => absurd hx List.not_mem_nil⟩
      rw [List.mem_singleton.mp hx]
  | transfer hr =>
      refine ⟨fun x hx => absurd hx List.not_mem_nil, fun id args hx => ?_⟩
      exact absurd (List.mem_singleton.mp hx) (by simp)
  | _ => exact .silent rfl rfl

end Output

end RaftLab.Raft1

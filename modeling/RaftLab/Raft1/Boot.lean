/-
  File:      RaftLab/Raft1/Boot.lean
  Subject:   A Raft server between its start and the first request that reaches it.

  `MakeWithWAL` starts the goroutines of Raft before the server is connected: the ticker may fire,
  the election may even be won by the votes that come back, and heartbeats go out. But an index is
  committed by a leader's message or by an entry of the server's own term, and of these there is
  none yet: what is on the disk is of no later term than the disk itself, and an election goes to a
  new one (`Unheard`).

  * `exec_unheard` -- **no section of a server nobody has reached commits anything**;
  * `reachable_inTerm` -- the disks of a cluster are of no later term than themselves, whatever the
    nodes did and wherever they died.
-/
import RaftLab.Raft1.Simulation

namespace RaftLab.Raft1

open RaftLab.Lib RaftLab.Lib.TermLog Cluster

variable {NodeID Cmd : Type}

/-! ## 1. The disk -/

/-- No entry is of a later term than the disk. -/
def PersistState.InTerm (st : PersistState NodeID Cmd) : Prop := ∀ e ∈ st.logs, e.term ≤ st.term

instance (st : PersistState NodeID Cmd) : Decidable st.InTerm :=
  inferInstanceAs (Decidable (∀ e ∈ st.logs, e.term ≤ st.term))

/-- **What a cluster leaves on a disk.** -/
theorem reachable_inTerm [DecidableEq NodeID] [Inhabited Cmd] {cfg : Config NodeID}
    {c : Cluster NodeID Cmd} (h : Reachable cfg c) (n : NodeID) : (c.disk n).InTerm := by
  obtain ⟨a, hsim⟩ := reachable_sim h
  have hdisk := (hsim.proc n).disk
  have hle := hsim.inv.logLe n
  rw [hsim.disk n]
  intro e he
  rw [hdisk.term]
  rw [hdisk.logs] at he
  rcases List.mem_cons.mp he with rfl | hmem
  · -- the sentinel carries the term of the entry it stands for
    show termAt tm (a.log n) _ ≤ a.term n
    exact termAt_le hle _
  · exact hle e (List.mem_of_mem_drop hmem)

/-! ## 2. Before the first request -/

/-- Somebody else has to call the server for this to happen. -/
def Event.Inbound : Event NodeID Cmd → Prop
  | .deliver _ => True
  | .start _ => True
  | _ => False

instance : DecidablePred (Event.Inbound : Event NodeID Cmd → Prop)
  | .deliver _ | .start _ => isTrue trivial
  | .tickerArm | .tickerFire | .tickerReset | .reply _ _ | .callFailed _ | .heartbeat | .applyBatch
  | .apply | .snapshot _ _ | .transferLeadership => isFalse id

/-- The server has committed and applied no more than its snapshot, and its log is of earlier terms
    than the election it stands for. -/
structure Unheard (rf : Raft NodeID Cmd) : Prop where
  commitIndex : rf.commitIndex = rf.snapshotIndex
  appliedIndex : rf.appliedIndex = rf.snapshotIndex
  inTerm : rf.persist.InTerm
  earlier : rf.customerId ≠ .follower → ∀ e ∈ rf.logs, e.term < rf.term

section Sections

variable {rf rf' : Raft NodeID Cmd}

/-- A server just started. -/
theorem unheard_boot {st : PersistState NodeID Cmd} (h : st.InTerm) : Unheard (Proc.boot st).rf :=
  ⟨rfl, rfl, h, fun hr => absurd rfl hr⟩

theorem Unheard.stepDown (h : Unheard rf) {newTerm : ℕ} (hlt : newTerm > rf.term) :
    Unheard (rf.stepDown newTerm) :=
  ⟨h.commitIndex, h.appliedIndex, fun e he => (h.inTerm e he).trans (Nat.le_of_lt hlt),
    fun hr => absurd rfl hr⟩

theorem Unheard.beginElectionLocked (h : Unheard rf) {me : NodeID} {round : ElectionRound}
    (hb : rf.beginElectionLocked me = some (rf', round)) : Unheard rf' := by
  obtain ⟨_, _, e⟩ := Option.bind_eq_some_iff.mp hb
  cases e
  exact ⟨h.commitIndex, h.appliedIndex, fun e he => (h.inTerm e he).trans (Nat.le_succ _),
    fun _ e he => Nat.lt_succ_of_le (h.inTerm e he)⟩

theorem Unheard.tickerFire (h : Unheard rf) {me : NodeID} {generation : ℕ}
    {round : Option ElectionRound} (hb : rf.tickerFire me generation = some (rf', round)) :
    Unheard rf' := by
  unfold Raft.tickerFire at hb
  split at hb
  · cases hb
    exact h
  · obtain ⟨⟨rf1, r⟩, hr, e⟩ := Option.bind_eq_some_iff.mp hb
    cases e
    exact h.beginElectionLocked hr

variable [DecidableEq NodeID]

/-- The election may be won. -/
theorem Unheard.sendRequestVote (h : Unheard rf) (me : NodeID) (nodeIDs : List NodeID)
    (args : RequestVoteArgs NodeID) (reply : RequestVoteReply) :
    Unheard (rf.sendRequestVote me nodeIDs args reply) := by
  unfold Raft.sendRequestVote
  split
  next hgt => exact h.stepDown hgt
  split
  · exact h
  next hvalid =>
    have hcand : rf.customerId = .candidate :=
      Classical.byContradiction fun hc => hvalid (.inr (.inl hc))
    have hearlier := h.earlier (by rw [hcand]; exact fun e => (by cases e))
    dsimp only
    split
    · exact ⟨h.commitIndex, h.appliedIndex, h.inTerm, fun _ => hearlier⟩
    · exact ⟨h.commitIndex, h.appliedIndex, h.inTerm, fun _ => hearlier⟩

/-- The commit loop finds no entry of the leader's term. -/
theorem Unheard.advanceCommit (h : Unheard rf) {me : NodeID} {nodeIDs : List NodeID}
    (hs : rf.advanceCommit me nodeIDs = some rf') (hr : rf.customerId ≠ .follower) :
    Unheard rf' := by
  unfold Raft.advanceCommit at hs
  generalize List.range' (rf.commitIndex + 1) (rf.lastLogIndex - rf.commitIndex) = Ns at hs
  induction Ns with
  | nil =>
      cases hs
      exact h
  | cons N Ns ih =>
      obtain ⟨rf1, h1, h2⟩ := Option.bind_eq_some_iff.mp hs
      obtain ⟨e, he, h1⟩ := Option.bind_eq_some_iff.mp h1
      have hne : e.term ≠ rf.term := Nat.ne_of_lt (h.earlier hr e (Slice.mem_of_index he))
      rw [if_pos hne] at h1
      cases h1
      exact ih h2

omit [DecidableEq NodeID] in
theorem Unheard.credit (h : Unheard rf) (matchIndex nextIndex : NodeID → ℕ) :
    Unheard { rf with matchIndex := matchIndex, nextIndex := nextIndex } :=
  ⟨h.commitIndex, h.appliedIndex, h.inTerm, h.earlier⟩

/-- A reply to a heartbeat moves the leader's bookkeeping and commits nothing. -/
theorem Unheard.sendAppendEntries (h : Unheard rf) {me server : NodeID} {nodeIDs : List NodeID}
    {args : AppendEntries NodeID Cmd} {reply : AppendEntriesReply}
    (hs : rf.sendAppendEntries me nodeIDs server args reply = some rf') : Unheard rf' := by
  unfold Raft.sendAppendEntries at hs
  split at hs
  next hgt =>
    cases hs
    exact h.stepDown hgt
  split at hs
  · cases hs
    exact h
  next hvalid =>
    have hlead : rf.customerId = .leader :=
      Classical.byContradiction fun hc => hvalid (.inr hc)
    have hr : rf.customerId ≠ .follower := by
      rw [hlead]
      exact fun e => (by cases e)
    split at hs
    · by_cases hgt : Raft.newMatch args > rf.matchIndex server
      · simp only [if_pos hgt, Function.update_self] at hs
        exact (h.credit _ _).advanceCommit hs hr
      · simp only [if_neg hgt] at hs
        exact (h.credit _ _).advanceCommit hs hr
    · split at hs
      · cases hs
        exact h
      · cases hs
        exact h.credit _ _

omit [DecidableEq NodeID] in
theorem Unheard.transferReply (h : Unheard rf) (reply : TimeoutNowReply) :
    Unheard (rf.transferReply reply) := by
  unfold Raft.transferReply
  split
  next hgt => exact h.stepDown hgt
  · exact h

variable [Inhabited Cmd] {cfg : Config NodeID} {me : NodeID} {p : Proc NodeID Cmd}
  {o : Outcome NodeID Cmd} {ev : Event NodeID Cmd}

/-- **Every section that nobody else causes**: nothing is committed, and nothing is left for
    `sendApplyMsg`. -/
theorem exec_unheard (ho : exec cfg me p ev = some o) (h : Unheard p.rf)
    (hev : ¬ ev.Inbound) (hsnap : ∀ index data, ev ≠ .snapshot index data)
    (hbatch : ev ≠ .applyBatch) : Unheard o.proc.rf := by
  cases exec_cases ho with
  | tickerArm | callFailed | heartbeat | apply | transfer | noTransfer => exact h
  | tickerReset => exact ⟨h.commitIndex, h.appliedIndex, h.inTerm, h.earlier⟩
  | tickerFire _ hr => exact h.tickerFire hr
  | votes _ => exact h.sendRequestVote me cfg.nodeIDs _ _
  | matched _ hr => exact h.sendAppendEntries hr
  | transferred _ => exact h.transferReply _
  | requestVote | appendEntries | timeoutNow | start => exact absurd trivial hev
  | applyBatch => exact absurd rfl hbatch
  | snapshot => exact absurd rfl (hsnap _ _)

end Sections

end RaftLab.Raft1

/-
  File:      RaftLab/Raft1/CommitRule.lean
  Subject:   What a leader has committed is what it knows to be replicated.

  `sendAppendEntries` looks for indexes to commit only when a peer confirms something. That is
  enough: `caughtUp_reachable` -- with two servers or more, every entry of a leader's own term that
  it knows to be on a majority is committed already, in every reachable state. Between two
  confirmations a leader only appends, and no peer has confirmed what is new. The other way round
  nothing else moves the `commitIndex` of a leader (`backed_reachable`):

  **`commits_exactly`** -- an entry of a leader's own term is committed if and only if the leader
  knows it to be on a majority.
-/
import RaftLab.Raft1.Probes

namespace RaftLab.Raft1

open RaftLab.Lib RaftLab.Lib.TermLog Relation Cluster

variable {NodeID Cmd : Type} [DecidableEq NodeID] [Inhabited Cmd]

/-! ## 1. The loop of `sendAppendEntries` -/

omit [Inhabited Cmd] in
theorem replicaCount_congr (me : NodeID) (nodeIDs : List NodeID) {rf rf' : Raft NodeID Cmd}
    (h : rf'.matchIndex = rf.matchIndex) (N : ℕ) :
    rf'.replicaCount me nodeIDs N = rf.replicaCount me nodeIDs N := by
  rw [Raft.replicaCount, Raft.replicaCount, h]

omit [Inhabited Cmd] in
/-- What no peer has confirmed is counted once. -/
theorem replicaCount_one {me : NodeID} {nodeIDs : List NodeID} {rf : Raft NodeID Cmd} {N : ℕ}
    (h : ∀ id ∈ nodeIDs, rf.matchIndex id < N) : rf.replicaCount me nodeIDs N = 1 := by
  have hnone : nodeIDs.filter (fun id => decide (id ≠ me ∧ rf.matchIndex id ≥ N)) = [] := by
    refine List.filter_eq_nil_iff.mpr fun id hid hge => ?_
    exact absurd (of_decide_eq_true hge).2 (Nat.not_le.mpr (h id hid))
  rw [Track.replicaCount_eq, hnone]
  rfl

omit [Inhabited Cmd] in
/-- Who has confirmed an index has confirmed those below, and does not take it back. -/
theorem replicaCount_mono {me : NodeID} {nodeIDs : List NodeID} {rf rf' : Raft NodeID Cmd}
    (h : ∀ id, rf.matchIndex id ≤ rf'.matchIndex id) {N M : ℕ} (hle : M ≤ N) :
    rf.replicaCount me nodeIDs N ≤ rf'.replicaCount me nodeIDs M := by
  rw [Track.replicaCount_eq, Track.replicaCount_eq, ← List.countP_eq_length_filter,
    ← List.countP_eq_length_filter]
  refine Nat.add_le_add_left (List.countP_mono_left fun id _ hid => ?_) 1
  obtain ⟨hne, hge⟩ := of_decide_eq_true hid
  exact decide_eq_true ⟨hne, hle.trans (hge.trans (h id))⟩

section Loop

variable {l : List (LogEntry Cmd)} {rf rf' : Raft NodeID Cmd}

theorem Views.tryCommit_eq (h : Views l rf) {me : NodeID} {nodeIDs : List NodeID} {N : ℕ}
    (hs : rf.snapshotIndex ≤ N) (hcom : Views.Committable me nodeIDs l rf N) :
    rf.tryCommit me nodeIDs N = some { rf with commitIndex := N } := by
  obtain ⟨e, he, hterm, _⟩ := h.logAt hs hcom.1
  simp only [Raft.tryCommit, he, Option.bind_eq_bind, Option.bind_some]
  rw [if_neg (not_not.mpr (hterm.trans hcom.2.1)), if_pos hcom.2.2]

/-- The loop passes every index that may be committed. -/
theorem Views.commitLoop_complete (h : Views l rf) (me : NodeID) (nodeIDs : List NodeID)
    {Ns : List ℕ} (hsort : Ns.Pairwise (· < ·))
    (hN : ∀ N ∈ Ns, rf.snapshotIndex ≤ N ∧ N ≤ l.length) {c : ℕ}
    (hrun : Ns.foldlM (Raft.tryCommit me nodeIDs) { rf with commitIndex := c } = some rf') :
    ∀ N ∈ Ns, Views.Committable me nodeIDs l rf N → N ≤ rf'.commitIndex := by
  induction Ns generalizing c with
  | nil => exact fun N hmem => absurd hmem List.not_mem_nil
  | cons M Ns ih =>
      obtain ⟨hlt, hsort⟩ := List.pairwise_cons.mp hsort
      have hN' := fun N hmem => hN N (List.mem_cons_of_mem M hmem)
      obtain ⟨h1, h2⟩ := hN M List.mem_cons_self
      obtain ⟨rf1, hM, hrest⟩ := Option.bind_eq_some_iff.mp hrun
      have hv : Views l ({ rf with commitIndex := c } : Raft NodeID Cmd) := h.congr rfl rfl
      obtain ⟨c1, rfl⟩ : ∃ c1, rf1 = { rf with commitIndex := c1 } := by
        rcases hv.tryCommit_spec me nodeIDs h1 h2 with hs | ⟨_, hs⟩
        · exact ⟨c, Option.some.inj (hM.symm.trans hs)⟩
        · exact ⟨M, Option.some.inj (hM.symm.trans hs)⟩
      intro N hmem hcom
      rcases List.mem_cons.mp hmem with rfl | hmem
      · -- it is committed now, and the loop does not go back
        have hc1 : c1 = N := congrArg Raft.commitIndex
          (Option.some.inj (hM.symm.trans (hv.tryCommit_eq h1 hcom)))
        obtain ⟨c', hloop, hor⟩ := h.commitLoop_spec me nodeIDs Ns c1 hN'
        cases hrest.symm.trans hloop
        rcases hor with rfl | ⟨hc', _⟩
        · exact Nat.le_of_eq hc1.symm
        · exact Nat.le_of_lt (hlt c' hc')
      · exact ih hsort hN' hrest N hmem hcom

/-- **`commitIndex` is not behind after the loop.** -/
theorem Views.advanceCommit_complete (h : Views l rf) (hs : rf.snapshotIndex ≤ rf.commitIndex)
    {me : NodeID} {nodeIDs : List NodeID} (hrun : rf.advanceCommit me nodeIDs = some rf') {N : ℕ}
    (hcom : Views.Committable me nodeIDs l rf N) : N ≤ rf'.commitIndex := by
  obtain ⟨c, hc, hor⟩ := h.advanceCommit_spec me nodeIDs hs
  cases hrun.symm.trans hc
  rcases Nat.lt_or_ge rf.commitIndex N with hlt | hle
  · have hlen := h.lastLogIndex
    have hle := hcom.1
    refine h.commitLoop_complete me nodeIDs List.pairwise_lt_range' (fun M hM => ?_) hrun N ?_ hcom
    · rw [List.mem_range'_1] at hM
      omega
    · rw [List.mem_range'_1]
      omega
  · rcases hor with rfl | ⟨hlt, _⟩
    · exact hle
    · exact Nat.le_trans hle (Nat.le_of_lt hlt)

end Loop

/-! ## 2. A leader is not behind -/

/-- A leader has committed what it knows to be on a majority. -/
def CaughtUp (nodeIDs : List NodeID) (me : NodeID) (rf : Raft NodeID Cmd) : Prop :=
  rf.customerId = .leader → ∀ N e, rf.logAt N = some e → e.term = rf.term →
    nodeIDs.length / 2 < rf.replicaCount me nodeIDs N → N ≤ rf.commitIndex

section CaughtUp

variable {cfg : Config NodeID} {c c' : Cluster NodeID Cmd} {n : NodeID}

/-- The commit loop ran on what a peer has confirmed. -/
theorem sendAppendEntries_caughtUp {rf rf' : Raft NodeID Cmd} {l : List (LogEntry Cmd)}
    {server : NodeID} {args : AppendEntries NodeID Cmd} {reply : AppendEntriesReply}
    (hv : Views l rf) (hs : rf.snapshotIndex ≤ rf.commitIndex)
    (h : rf.sendAppendEntries n cfg.nodeIDs server args reply = some rf')
    (hold : CaughtUp cfg.nodeIDs n rf) : CaughtUp cfg.nodeIDs n rf' := by
  unfold Raft.sendAppendEntries at h
  split at h
  next =>
    cases h
    exact fun hl => by cases hl
  next =>
    split at h
    next =>
      cases h
      exact hold
    next =>
      split at h
      next =>
        -- whatever was confirmed, the loop has seen it
        obtain ⟨rf1, hrf1, hv1, hs1⟩ : ∃ rf1 : Raft NodeID Cmd,
            rf1.advanceCommit n cfg.nodeIDs = some rf' ∧ Views l rf1 ∧
              rf1.snapshotIndex ≤ rf1.commitIndex := by
          refine ⟨_, h, ?_, ?_⟩
          · split <;> exact hv.congr rfl rfl
          · split <;> exact hs
        intro _ N e he hterm hcount
        obtain ⟨c, hc, _⟩ := hv1.advanceCommit_spec n cfg.nodeIDs hs1
        have hrf' := Option.some.inj (hrf1.symm.trans hc)
        have hv' : Views l rf' := by
          rw [hrf']
          exact hv1.congr rfl rfl
        obtain ⟨_, hle, hte, _⟩ := hv'.of_logAt he
        refine hv1.advanceCommit_complete hs1 hrf1 ⟨hle, ?_, ?_⟩
        · rw [← hte, hterm, hrf']
        · rw [hrf'] at hcount
          exact hcount
      next =>
        split at h
        next =>
          cases h
          exact hold
        next =>
          cases h
          exact hold

/-- The log of a leader only grows. -/
theorem Sim.leader_grows {a a' : Record NodeID Cmd} (h : Sim cfg c a) (h' : Sim cfg c' a')
    (hx : Ext a a') (hl : (c.node n).rf.customerId = .leader)
    (hl' : (c'.node n).rf.customerId = .leader)
    (hterm : (c'.node n).rf.term = (c.node n).rf.term) : a.log n <+: a'.log n := by
  have ht : a'.term n = a.term n := by
    rw [← (h'.enter n).term, ← (h.enter n).term]
    exact hterm
  have hlead := (h.proc n).mem.leader hl
  rw [h.inv.leaderLog hlead rfl, h'.inv.leaderLog ((h'.proc n).mem.leader hl') rfl, ht]
  exact hx.llog (by rw [hlead]; exact Option.some_ne_none n)

/-- Where a leader only appends and compacts, nothing new is known to be replicated. -/
theorem caughtUp_steady {a a' : Record NodeID Cmd} (h : Sim cfg c a) (h' : Sim cfg c' a')
    (hx : Ext a a') (hsize : 2 ≤ cfg.nodeIDs.length)
    (hst : Steady (c.node n).rf (c'.node n).rf) (hback : NotBack (c.node n).rf (c'.node n).rf)
    (hterm : (c'.node n).rf.customerId = .leader → (c'.node n).rf.term = (c.node n).rf.term)
    (hold : CaughtUp cfg.nodeIDs n (c.node n).rf) : CaughtUp cfg.nodeIDs n (c'.node n).rf := by
  intro hl N e he hte hcount
  obtain ⟨hl0, hmatch, _⟩ := hst hl
  rw [replicaCount_congr n cfg.nodeIDs hmatch] at hcount
  obtain ⟨hlow, hlen, hteN, _⟩ := (h'.views n).of_logAt he
  have hsnap := (h'.proc n).mem.snapLe
  have hpre := h.leader_grows h' hx hl0 hl (hterm hl)
  rcases Nat.lt_or_ge (a.log n).length N with hnew | hle
  · have hone : (c.node n).rf.replicaCount n cfg.nodeIDs N = 1 :=
      replicaCount_one fun id hid => Nat.lt_of_le_of_lt (h.matchIndex_le hl0 hid) hnew
    omega
  · rcases Nat.lt_or_ge (c'.node n).rf.snapshotIndex N with hgt | hle'
    · obtain ⟨e0, he0, hte0, _⟩ := (h.views n).logAt (i := N)
        (Nat.le_of_lt (Nat.lt_of_le_of_lt hback.snapshotIndex hgt)) hle
      refine Nat.le_trans (hold hl0 N e0 he0 ?_ hcount) hback.commitIndex
      rw [hte0, termAt_isPrefix hpre hle, ← hteN, hte, hterm hl]
    · exact Nat.le_trans hle' hsnap

omit [Inhabited Cmd] in
/-- A leader that was just elected knows of nothing. -/
theorem caughtUp_won (hsize : 2 ≤ cfg.nodeIDs.length) (rf : Raft NodeID Cmd) :
    CaughtUp cfg.nodeIDs n (Raft.won n cfg.nodeIDs rf) := by
  intro _ N e _ _ hcount
  rcases Nat.eq_zero_or_pos N with rfl | hpos
  · exact Nat.zero_le _
  · have hone : (Raft.won n cfg.nodeIDs rf).replicaCount n cfg.nodeIDs N = 1 := by
      refine replicaCount_one fun id hid => ?_
      rw [Raft.won]
      dsimp only
      rw [if_pos hid]
      exact hpos
    omega

theorem caughtUp_step (h : Reachable cfg c) (hs : Step cfg c c') (hsize : 2 ≤ cfg.nodeIDs.length)
    (hold : CaughtUp cfg.nodeIDs n (c.node n).rf) : CaughtUp cfg.nodeIDs n (c'.node n).rf := by
  obtain ⟨a, hsim⟩ := reachable_sim h
  obtain ⟨a', hmoves, hsim'⟩ := hsim.step hs
  rcases hs.alive_or_boot n with halive | ⟨st, hboot⟩
  · have hback := halive.notBack hsim
    rcases halive.node with e | ⟨ev, o, hn, hev, ho, e⟩
    · rw [e]
      exact hold
    · have hterm : (c'.node n).rf.customerId = .leader → Steady (c.node n).rf (c'.node n).rf →
          (c'.node n).rf.term = (c.node n).rf.term := by
        intro hl hst
        rcases exec_advances ho with hadv | hel
        · rw [e] at hl ⊢
          exact (hadv.leads hl).2.1
        · have hcand := (hst hl).1
          rw [hel.candidate] at hcand
          cases hcand
      have hrf : (c'.node n).rf = { o.proc.rf with wal := [] } := by rw [e]
      rcases exec_books ho with hst | ⟨count, hwon⟩ | ⟨k, server, args, reply, rfl, hk, hsend⟩
      · have hst' : Steady (c.node n).rf (c'.node n).rf := by
          rw [e]
          exact hst
        exact caughtUp_steady hsim hsim' (ext_of_moves hmoves) hsize hst' hback
          (fun hl => hterm hl hst') hold
      · have hnew := caughtUp_won (n := n) hsize { (c.node n).rf with voteCount := count }
        rw [hrf, hwon]
        exact hnew
      · have hnew := sendAppendEntries_caughtUp (hsim.views n) (hsim.proc n).mem.snapLe hsend hold
        rw [hrf]
        exact hnew
  · rw [hboot]
    exact fun hl => by cases hl

/-- **A leader has committed whatever it knows to be on a majority**, in every reachable state. -/
theorem caughtUp_reachable (h : Reachable cfg c) (hsize : 2 ≤ cfg.nodeIDs.length) (n : NodeID) :
    CaughtUp cfg.nodeIDs n (c.node n).rf := by
  induction h with
  | refl => exact fun hl => by cases hl
  | tail hr hs ih => exact caughtUp_step hr hs hsize ih

end CaughtUp

/-! ## 3. Nor is it ahead -/

section Handlers

variable {rf rf' : Raft NodeID Cmd}

/-- What the branches of `AppendEntriesHandler` leave alone, and the term they answer. -/
structure Answers (rf rf' : Raft NodeID Cmd) (reply : AppendEntriesReply) : Prop where
  customerId : rf'.customerId = rf.customerId
  term : rf'.term = rf.term
  reply : reply.term = rf.term

omit [DecidableEq NodeID] in
theorem installSnapshot_answers {args : AppendEntries NodeID Cmd} {data : Bytes}
    {reply : AppendEntriesReply} (h : rf.installSnapshot args data = some (rf', reply)) :
    Answers rf rf' reply := by
  unfold Raft.installSnapshot at h
  split at h
  next =>
    cases h
    exact ⟨rfl, rfl, rfl⟩
  next =>
    obtain ⟨keep, _, h⟩ := Option.bind_eq_some_iff.mp h
    cases keep with
    | true =>
        obtain ⟨suffix, _, h⟩ := Option.bind_eq_some_iff.mp h
        cases h
        exact ⟨rfl, rfl, rfl⟩
    | false =>
        cases h
        exact ⟨rfl, rfl, rfl⟩

omit [DecidableEq NodeID] [Inhabited Cmd] in
theorem appendOrReject_answers {args : AppendEntries NodeID Cmd} {reply : AppendEntriesReply}
    (h : rf.appendOrReject args = some (rf', reply)) : Answers rf rf' reply := by
  unfold Raft.appendOrReject at h
  split at h
  next =>
    cases h
    exact ⟨rfl, rfl, rfl⟩
  next =>
    split at h
    next =>
      cases h
      exact ⟨rfl, rfl, rfl⟩
    next =>
      obtain ⟨e, _, h⟩ := Option.bind_eq_some_iff.mp h
      split at h
      next =>
        obtain ⟨_, _, h⟩ := Option.bind_eq_some_iff.mp h
        cases h
        exact ⟨rfl, rfl, rfl⟩
      next =>
        obtain ⟨rf1, h1, h⟩ := Option.bind_eq_some_iff.mp h
        cases h
        rcases appendNew_cases h1 with rfl | ⟨i, logs, rfl⟩
        · split <;> exact ⟨rfl, rfl, rfl⟩
        · split <;> exact ⟨rfl, rfl, rfl⟩

omit [DecidableEq NodeID] in
/-- **A message of a leader that is not behind** makes a follower in the leader's term. -/
theorem appendEntriesHandler_later {args : AppendEntries NodeID Cmd} {reply : AppendEntriesReply}
    (ht : rf.term ≤ args.term) (h : rf.appendEntriesHandler args = some (rf', reply)) :
    rf'.customerId = .follower ∧ rf'.term = args.term ∧ reply.term = args.term := by
  have hrole : (rf.acceptLeader args.term args.leaderId).customerId = .follower := rfl
  have hterm : (rf.acceptLeader args.term args.leaderId).term = args.term := by
    unfold Raft.acceptLeader
    dsimp only
    split
    next => rfl
    next hle => exact Nat.le_antisymm ht (Nat.le_of_not_lt hle)
  have hdone : ∀ {rf'} {reply : AppendEntriesReply},
      Answers (rf.acceptLeader args.term args.leaderId) rf' reply →
        rf'.customerId = .follower ∧ rf'.term = args.term ∧ reply.term = args.term :=
    fun ha => ⟨ha.customerId.trans hrole, ha.term.trans hterm, ha.reply.trans hterm⟩
  unfold Raft.appendEntriesHandler at h
  rw [if_neg (Nat.not_lt.mpr ht)] at h
  dsimp only at h
  split at h
  next => exact hdone (installSnapshot_answers h)
  next => exact hdone (appendOrReject_answers h)

omit [Inhabited Cmd] in
/-- The answer to a vote request moves no index. -/
theorem requestVote_commitIndex {args : RequestVoteArgs NodeID} {reply : RequestVoteReply}
    (h : rf.requestVote args = some (rf', reply)) : rf'.commitIndex = rf.commitIndex := by
  unfold Raft.requestVote at h
  split at h
  next =>
    cases h
    rfl
  next =>
    have hdown : (if args.term > rf.term then rf.stepDown args.term else rf).commitIndex =
        rf.commitIndex := by
      split <;> rfl
    generalize (if args.term > rf.term then rf.stepDown args.term else rf) = rf1 at h hdown
    obtain ⟨_, _, h⟩ := Option.bind_eq_some_iff.mp h
    dsimp only at h
    split at h
    next =>
      cases h
      exact hdown
    next =>
      cases h
      exact hdown

omit [Inhabited Cmd] in
/-- Nor does `TimeoutNow`. -/
theorem timeoutNow_commitIndex {me : NodeID} {args : TimeoutNowArgs NodeID}
    {reply : TimeoutNowReply} {round : Option ElectionRound}
    (h : rf.timeoutNow me args = some (rf', reply, round)) : rf'.commitIndex = rf.commitIndex := by
  unfold Raft.timeoutNow at h
  split at h
  next =>
    cases h
    rfl
  next =>
    have hdown : (if args.term > rf.term then rf.stepDown args.term else rf).commitIndex =
        rf.commitIndex := by
      split <;> rfl
    generalize (if args.term > rf.term then rf.stepDown args.term else rf) = rf1 at h hdown
    dsimp only at h
    split at h
    next =>
      cases h
      exact hdown
    next =>
      split at h
      next =>
        cases h
        exact hdown
      next =>
        obtain ⟨e, _, h⟩ := Option.bind_eq_some_iff.mp h
        split at h
        next =>
          cases h
          exact hdown
        next =>
          obtain ⟨⟨rf2, r⟩, hb, h⟩ := Option.bind_eq_some_iff.mp h
          obtain ⟨_, _, hb⟩ := Option.bind_eq_some_iff.mp hb
          cases hb
          cases h
          exact hdown

end Handlers

/-- Every entry of its own term that a leader has committed is known to be on a majority. -/
def Backed (nodeIDs : List NodeID) (me : NodeID) (rf : Raft NodeID Cmd) : Prop :=
  rf.customerId = .leader → ∀ N e, 0 < N → rf.logAt N = some e → e.term = rf.term →
    N ≤ rf.commitIndex → nodeIDs.length / 2 < rf.replicaCount me nodeIDs N

/-- What makes or keeps a leader, and what it does to `commitIndex`. -/
def CommitMove (cfg : Config NodeID) (me : NodeID) (rf rf' : Raft NodeID Cmd) : Prop :=
  rf.customerId = .candidate ∧
    (∃ count, rf' = Raft.won me cfg.nodeIDs { rf with voteCount := count }) ∨
  rf.customerId = .leader ∧ (rf'.commitIndex = rf.commitIndex ∨
    cfg.nodeIDs.length / 2 < rf'.replicaCount me cfg.nodeIDs rf'.commitIndex)

section Backed

variable {cfg : Config NodeID} {c c' : Cluster NodeID Cmd} {me n : NodeID} {p : Proc NodeID Cmd}
  {o : Outcome NodeID Cmd}

/-- The commit loop stops at an index that is on a majority. -/
theorem sendAppendEntries_commitMove {rf rf' : Raft NodeID Cmd} {l : List (LogEntry Cmd)}
    {server : NodeID} {args : AppendEntries NodeID Cmd} {reply : AppendEntriesReply}
    (hv : Views l rf) (hs : rf.snapshotIndex ≤ rf.commitIndex)
    (h : rf.sendAppendEntries me cfg.nodeIDs server args reply = some rf')
    (hl : rf'.customerId = .leader) : CommitMove cfg me rf rf' := by
  unfold Raft.sendAppendEntries at h
  split at h
  next =>
    cases h
    cases hl
  next =>
    split at h
    next =>
      cases h
      exact .inr ⟨hl, .inl rfl⟩
    next hcur =>
      have hlead : rf.customerId = .leader := by
        refine Classical.byContradiction fun hne => hcur (.inr hne)
      split at h
      next =>
        obtain ⟨rf1, hrf1, hv1, hs1, hc1⟩ : ∃ rf1 : Raft NodeID Cmd,
            rf1.advanceCommit me cfg.nodeIDs = some rf' ∧ Views l rf1 ∧
              rf1.snapshotIndex ≤ rf1.commitIndex ∧ rf1.commitIndex = rf.commitIndex := by
          refine ⟨_, h, ?_, ?_, ?_⟩
          · split <;> exact hv.congr rfl rfl
          · split <;> exact hs
          · split <;> rfl
        obtain ⟨c, hc, hor⟩ := hv1.advanceCommit_spec me cfg.nodeIDs hs1
        cases hrf1.symm.trans hc
        exact .inr ⟨hlead, hor.imp (fun e => e.trans hc1) fun hcom => hcom.2.2.2⟩
      next =>
        split at h
        next =>
          cases h
          exact .inr ⟨hl, .inl rfl⟩
        next =>
          cases h
          exact .inr ⟨hl, .inl rfl⟩

theorem exec_commitMove {ev : Event NodeID Cmd} {l : List (LogEntry Cmd)} (hv : Views l p.rf)
    (hs : p.rf.snapshotIndex ≤ p.rf.commitIndex) (h : exec cfg me p ev = some o)
    (hl : o.proc.rf.customerId = .leader) : CommitMove cfg me p.rf o.proc.rf := by
  have hstay : Steady p.rf o.proc.rf → o.proc.rf.commitIndex = p.rf.commitIndex →
      CommitMove cfg me p.rf o.proc.rf := fun hs hc => .inr ⟨(hs hl).1, .inl hc⟩
  cases exec_cases h with
  | tickerArm | tickerReset | callFailed | heartbeat | apply | transfer | noTransfer =>
      exact .inr ⟨hl, .inl rfl⟩
  | tickerFire _ hr =>
      have hlead := ((plain_tickerFire (fun _ => True) hr).steady hl).1
      rw [Raft.tickerFire, if_pos (.inl hlead)] at hr
      cases hr
      exact .inr ⟨hl, .inl rfl⟩
  | requestVote _ hr =>
      exact hstay (plain_requestVote (fun _ => True) hr).steady (requestVote_commitIndex hr)
  | @appendEntries _ args _ _ _ hr =>
      by_cases hold : args.term < p.rf.term
      · rw [Raft.appendEntriesHandler, if_pos hold] at hr
        cases hr
        exact .inr ⟨hl, .inl rfl⟩
      · obtain ⟨hf, _⟩ := appendEntriesHandler_later (Nat.le_of_not_lt hold) hr
        cases hf.symm.trans hl
  | timeoutNow _ hr =>
      exact hstay (plain_timeoutNow (fun _ => True) hr).steady (timeoutNow_commitIndex hr)
  | votes _ =>
      rcases sendRequestVote_plain (fun _ => True) me cfg.nodeIDs p.rf _ _ with
        hc | ⟨hcand, count, e⟩
      · have hlead := (hc.steady hl).1
        refine hstay hc.steady ?_
        unfold Raft.sendRequestVote
        split
        next => rfl
        next =>
          rw [if_pos (.inr (.inl (by rw [hlead]; exact fun e => Role.noConfusion e)))]
      · exact .inl ⟨hcand, count, e⟩
  | matched _ hr => exact sendAppendEntries_commitMove hv hs hr hl
  | transferred _ =>
      refine hstay (plain_stepDownIf (fun _ => True) p.rf _).steady ?_
      unfold Raft.transferReply
      dsimp only
      split <;> rfl
  | start =>
      refine hstay (plain_start (fun _ => True) p.rf trivial).steady ?_
      unfold Raft.start
      dsimp only
      split <;> rfl
  | applyBatch hr =>
      rw [sendApplyMsg_eq hr] at hl ⊢
      exact .inr ⟨hl, .inl rfl⟩
  | snapshot hr =>
      rcases snapshotUpTo_changes hr with rfl | ⟨_, term, suffix, _, rfl⟩
      · exact .inr ⟨hl, .inl rfl⟩
      · exact .inr ⟨hl, .inl rfl⟩

/-- The log of a candidate is older than its term. -/
theorem candidate_termAt_lt {a : Record NodeID Cmd} (h : Sim cfg c a)
    (hcand : (c.node n).rf.customerId = .candidate) {N : ℕ} (hpos : 0 < N)
    (hlen : N ≤ (a.log n).length) : termAt tm (a.log n) N < (c.node n).rf.term := by
  obtain ⟨i, rfl⟩ : ∃ i, N = i + 1 := ⟨N - 1, by omega⟩
  have hget : (a.log n)[i]? = some ((a.log n).get ⟨i, hlen⟩) := List.getElem?_eq_getElem hlen
  rw [termAt_succ, hget, (h.enter n).term]
  exact h.inv.candLt ((h.proc n).mem.stands hcand).1 _ (List.get_mem _ _)

theorem backed_step (h : Reachable cfg c) (hs : Step cfg c c')
    (hold : Backed cfg.nodeIDs n (c.node n).rf) : Backed cfg.nodeIDs n (c'.node n).rf := by
  obtain ⟨a, hsim⟩ := reachable_sim h
  obtain ⟨a', hmoves, hsim'⟩ := hsim.step hs
  have hx := ext_of_moves hmoves
  rcases hs.alive_or_boot n with halive | ⟨st, hboot⟩
  · rcases halive.node with e | ⟨ev, o, hn, hev, ho, e⟩
    · rw [e]
      exact hold
    · intro hl N x hpos hat hterm hN
      obtain ⟨hlow, hlen, htx, _⟩ := (hsim'.views n).of_logAt hat
      have hrf : (c'.node n).rf = { o.proc.rf with wal := [] } := by rw [e]
      have hl' : o.proc.rf.customerId = .leader := by
        rw [hrf] at hl
        exact hl
      rcases exec_commitMove (hsim.views n) (hsim.proc n).mem.snapLe ho hl' with
        ⟨hcand, count, hwon⟩ | ⟨hlead, hmove⟩
      · -- a candidate has no entry of its own term
        rw [hrf, hwon] at hat hterm
        obtain ⟨_, hlen0, htx0, _⟩ := (hsim.views n).of_logAt hat
        have hlt := candidate_termAt_lt hsim hcand hpos hlen0
        rw [← htx0, hterm] at hlt
        exact absurd hlt (Nat.lt_irrefl _)
      · rcases exec_advances ho with hadv | hel
        · obtain ⟨_, hsame, hmatch, _⟩ := hadv.leads hl'
          have hback := halive.notBack hsim
          have hterm0 : (c'.node n).rf.term = (c.node n).rf.term := by
            rw [hrf]
            exact hsame
          have hmono : ∀ id, (c.node n).rf.matchIndex id ≤ (c'.node n).rf.matchIndex id := by
            rw [hrf]
            exact hmatch
          rcases Nat.lt_or_ge (c.node n).rf.commitIndex N with hgt | hle
          · rcases hmove with hc | hmaj
            · rw [hrf] at hN
              exact absurd (Nat.lt_of_lt_of_le hgt (hN.trans (Nat.le_of_eq hc))) (Nat.lt_irrefl _)
            · rw [hrf] at hN ⊢
              exact Nat.lt_of_lt_of_le hmaj (replicaCount_mono (fun _ => Nat.le_refl _) hN)
          · have hlen0 := hle.trans (hsim.proc n).mem.commitLe
            obtain ⟨x0, hx0, htx0, _⟩ := (hsim.views n).logAt (hback.snapshotIndex.trans hlow) hlen0
            have hpre := hsim.leader_grows hsim' hx hlead hl hterm0
            have hte : x0.term = (c.node n).rf.term := by
              rw [htx0, termAt_isPrefix hpre hlen0, ← htx, hterm, hterm0]
            exact Nat.lt_of_lt_of_le (hold hlead N x0 hpos hx0 hte hle)
              (replicaCount_mono hmono (Nat.le_refl N))
        · cases hlead.symm.trans hel.candidate
  · rw [hboot]
    exact fun hl => by cases hl

theorem backed_reachable (h : Reachable cfg c) (n : NodeID) :
    Backed cfg.nodeIDs n (c.node n).rf := by
  induction h with
  | refl => exact fun hl => by cases hl
  | tail hr hs ih => exact backed_step hr hs ih

end Backed

/-! ## 4. Exactly -/

section Exactly

variable {cfg : Config NodeID} {c : Cluster NodeID Cmd} {n : NodeID}

omit [Inhabited Cmd] in
/-- The count of the source is over half exactly where a majority has confirmed, the leader for
    itself. -/
theorem replicaCount_majority (hn : n ∈ cfg.nodeIDs) (rf : Raft NodeID Cmd) (N : ℕ) :
    cfg.nodeIDs.length / 2 < rf.replicaCount n cfg.nodeIDs N ↔
      ∃ Q, cfg.quorums.isQuorum Q ∧ ∀ m ∈ Q, m ≠ n → N ≤ rf.matchIndex m := by
  obtain ⟨S, hS, hcard⟩ : ∃ S : Finset NodeID,
      (∀ m, m ∈ S ↔ m ∈ cfg.nodeIDs ∧ m ≠ n ∧ N ≤ rf.matchIndex m) ∧
      rf.replicaCount n cfg.nodeIDs N = 1 + S.card := by
    refine ⟨(cfg.nodeIDs.filter fun id => decide (id ≠ n ∧ rf.matchIndex id ≥ N)).toFinset,
      fun m => ?_, ?_⟩
    · rw [List.mem_toFinset, List.mem_filter, decide_eq_true_iff]
    · rw [Track.replicaCount_eq, List.toFinset_card_of_nodup (cfg.nodup.filter _)]
  rw [hcard]
  constructor
  · intro hmaj
    have hnS : n ∉ S := fun hmem => ((hS n).mp hmem).2.1 rfl
    refine ⟨insert n S, ⟨fun m hm => ?_, ?_⟩, fun m hm hne => ?_⟩
    · rcases Finset.mem_insert.mp hm with rfl | hm
      · exact List.mem_toFinset.mpr hn
      · exact List.mem_toFinset.mpr ((hS m).mp hm).1
    · rw [Finset.card_insert_of_notMem hnS, Nat.add_comm]
      exact hmaj
    · exact ((hS m).mp ((Finset.mem_insert.mp hm).resolve_left hne)).2.2
  · rintro ⟨Q, ⟨hsub, hQ⟩, hall⟩
    have hle : Q.card ≤ (insert n S).card := by
      refine Finset.card_le_card fun m hm => ?_
      by_cases hne : m = n
      · rw [hne]
        exact Finset.mem_insert_self n S
      · exact Finset.mem_insert_of_mem
          ((hS m).mpr ⟨List.mem_toFinset.mp (hsub hm), hne, hall m hm hne⟩)
    have hins := Finset.card_insert_le n S
    omega

/-- **A leader has committed exactly what it knows to be on a majority**, of the entries of its own
    term: in every reachable state, whatever was sent, lost, repeated or compacted. -/
theorem commits_exactly (h : Reachable cfg c) (hsize : 2 ≤ cfg.nodeIDs.length)
    (hn : n ∈ cfg.nodeIDs) (hl : (c.node n).rf.customerId = .leader) {N : ℕ} {e : LogEntry Cmd}
    (hpos : 0 < N) (he : (c.node n).rf.logAt N = some e) (hterm : e.term = (c.node n).rf.term) :
    N ≤ (c.node n).rf.commitIndex ↔
      ∃ Q, cfg.quorums.isQuorum Q ∧ ∀ m ∈ Q, m ≠ n → N ≤ (c.node n).rf.matchIndex m := by
  rw [← replicaCount_majority hn]
  exact ⟨backed_reachable h n hl N e hpos he hterm, caughtUp_reachable h hsize n hl N e he hterm⟩

end Exactly

/-- Server 1 has confirmed the first command of server 0. -/
theorem commits_exactly_sample : ∃ c : Cluster ℕ ℕ, Reachable three c ∧
    (c.node 0).rf.logAt 1 = some ⟨7, 1⟩ ∧ (c.node 0).rf.matchIndex 1 = 1 ∧
    (c.node 0).rf.matchIndex 2 = 0 ∧ 1 ≤ (c.node 0).rf.commitIndex := by
  obtain ⟨c, hr, hread⟩ := exists_played init (sections commitSeven)
    (fun c => decide ((c.node 0).rf.customerId = .leader ∧ (c.node 0).rf.term = 1 ∧
      (c.node 0).rf.logAt 1 = some ⟨7, 1⟩ ∧ (c.node 0).rf.matchIndex 1 = 1 ∧
      (c.node 0).rf.matchIndex 2 = 0)) (v := true) (by decide +kernel)
  obtain ⟨hl, ht, he, h1, h2⟩ := of_decide_eq_true hread
  have hQ : three.quorums.isQuorum {0, 1} := ⟨by decide, by decide⟩
  refine ⟨c, hr, he, h1, h2, ?_⟩
  refine (commits_exactly hr (by decide) (by decide) hl Nat.one_pos he ht.symm).mpr
    ⟨{0, 1}, hQ, fun m hm hne => ?_⟩
  obtain rfl : m = 1 := by
    simp only [Finset.mem_insert, Finset.mem_singleton] at hm
    omega
  rw [h1]

end RaftLab.Raft1

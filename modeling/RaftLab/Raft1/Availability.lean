/-
  File:      RaftLab/Raft1/Availability.lean
  Subject:   A majority can always commit.

  In whatever state a run has left the cluster, with logs in conflict, compacted logs, old leaders,
  half-done elections and any messages under way, a majority of its servers can go on by itself:
  **`majority_available`** -- it can elect one of its servers, which accepts the command,
  commits it and hands it to its service.

  After the election (Majority.lean) the new leader brings the servers of the majority up to its
  log, one by one. The round trips of Reconcile.lean are runs of the cluster (`roundTrips_within`);
  that the cluster empties `wal` after every section makes no difference, as no handler reads it.
-/
import RaftLab.Raft1.Majority
import RaftLab.Raft1.Placement

namespace RaftLab.Raft1

open RaftLab.Lib RaftLab.Lib.TermLog Relation Cluster

variable {NodeID Cmd : Type} [Inhabited Cmd]

/-! ## 1. No handler reads what it has written to the WAL -/

section Blind

variable (rf : Raft NodeID Cmd) (w : List (WalOp NodeID Cmd))

omit [Inhabited Cmd] in
theorem acceptLeader_wal (term : ℕ) (leaderId : NodeID) :
    ∃ w', ({ rf with wal := w } : Raft NodeID Cmd).acceptLeader term leaderId =
      { rf.acceptLeader term leaderId with wal := w' } := by
  unfold Raft.acceptLeader
  by_cases h : term > rf.term
  · simp only [if_pos h]
    exact ⟨_, rfl⟩
  · simp only [if_neg h]
    exact ⟨_, rfl⟩

omit [Inhabited Cmd] in
theorem skipConflictTerm_wal (conflictTerm : ℕ) (i : ℕ) :
    ({ rf with wal := w } : Raft NodeID Cmd).skipConflictTerm conflictTerm i =
      rf.skipConflictTerm conflictTerm i := by
  induction i with
  | zero => rfl
  | succ i ih =>
      rw [Raft.skipConflictTerm, Raft.skipConflictTerm, ih]
      rfl

omit [Inhabited Cmd] in
theorem matchingEntries_wal (prev : ℕ) (entries : List (LogEntry Cmd)) (i : ℕ) :
    ({ rf with wal := w } : Raft NodeID Cmd).matchingEntries prev entries i =
      rf.matchingEntries prev entries i := by
  induction entries generalizing i with
  | nil => rfl
  | cons entry rest ih =>
      rw [Raft.matchingEntries, Raft.matchingEntries, ih]
      rfl

variable {rf} {rf' : Raft NodeID Cmd} {args : AppendEntries NodeID Cmd} {reply : AppendEntriesReply}

theorem installSnapshot_wal {data : Bytes} (h : rf.installSnapshot args data = some (rf', reply)) :
    ∃ w', ({ rf with wal := w } : Raft NodeID Cmd).installSnapshot args data =
      some ({ rf' with wal := w' }, reply) := by
  unfold Raft.installSnapshot at h ⊢
  by_cases hold : args.snapshotIndex ≤ rf.snapshotIndex
  · rw [if_pos hold] at h ⊢
    cases h
    exact ⟨w, rfl⟩
  · rw [if_neg hold] at h ⊢
    obtain ⟨keep, hkeep, h⟩ := Option.bind_eq_some_iff.mp h
    cases keep with
    | true =>
        obtain ⟨suffix, hsuf, h⟩ := Option.bind_eq_some_iff.mp h
        cases h
        exact ⟨_, Option.bind_eq_some_iff.mpr ⟨true, hkeep,
          Option.bind_eq_some_iff.mpr ⟨suffix, hsuf, rfl⟩⟩⟩
    | false =>
        cases h
        exact ⟨_, Option.bind_eq_some_iff.mpr ⟨false, hkeep, rfl⟩⟩

omit [Inhabited Cmd] in
theorem appendNew_wal (h : rf.appendNew args = some rf') :
    ∃ w', ({ rf with wal := w } : Raft NodeID Cmd).appendNew args =
      some { rf' with wal := w' } := by
  unfold Raft.appendNew at h ⊢
  by_cases hpos : args.entries.length > 0
  · rw [if_pos hpos] at h ⊢
    rw [matchingEntries_wal]
    obtain ⟨i, hi, h⟩ := Option.bind_eq_some_iff.mp h
    rw [hi]
    by_cases hlt : i < args.entries.length
    · rw [if_pos hlt] at h
      obtain ⟨kept, hkept, h⟩ := Option.bind_eq_some_iff.mp h
      cases h
      simp only [Option.bind_eq_bind, Option.bind_some, if_pos hlt]
      exact ⟨_, Option.bind_eq_some_iff.mpr ⟨kept, hkept, rfl⟩⟩
    · rw [if_neg hlt] at h
      cases h
      simp only [Option.bind_eq_bind, Option.bind_some, if_neg hlt]
      exact ⟨w, rfl⟩
  · rw [if_neg hpos] at h ⊢
    cases h
    exact ⟨w, rfl⟩

omit [Inhabited Cmd] in
theorem appendOrReject_wal (h : rf.appendOrReject args = some (rf', reply)) :
    ∃ w', ({ rf with wal := w } : Raft NodeID Cmd).appendOrReject args =
      some ({ rf' with wal := w' }, reply) := by
  unfold Raft.appendOrReject at h ⊢
  by_cases hlow : args.prevLogIndex < rf.snapshotIndex
  · rw [if_pos hlow] at h ⊢
    cases h
    exact ⟨w, rfl⟩
  · rw [if_neg hlow] at h ⊢
    by_cases hhigh : args.prevLogIndex > rf.lastLogIndex
    · rw [if_pos hhigh] at h
      cases h
      exact ⟨w, if_pos hhigh⟩
    · rw [if_neg hhigh] at h
      rw [if_neg (show ¬ args.prevLogIndex >
        ({ rf with wal := w } : Raft NodeID Cmd).lastLogIndex from hhigh)]
      obtain ⟨e, he, h⟩ := Option.bind_eq_some_iff.mp h
      rw [show ({ rf with wal := w } : Raft NodeID Cmd).logAt args.prevLogIndex = some e from he]
      simp only [Option.bind_eq_bind, Option.bind_some]
      by_cases hconf : e.term ≠ args.prevLogTerm
      · rw [if_pos hconf] at h ⊢
        rw [skipConflictTerm_wal]
        obtain ⟨i, hi, h⟩ := Option.bind_eq_some_iff.mp h
        cases h
        exact ⟨w, Option.bind_eq_some_iff.mpr ⟨i, hi, rfl⟩⟩
      · rw [if_neg hconf] at h ⊢
        obtain ⟨rf1, h1, h⟩ := Option.bind_eq_some_iff.mp h
        obtain ⟨w1, hw1⟩ := appendNew_wal w h1
        cases h
        refine ⟨w1, Option.bind_eq_some_iff.mpr ⟨_, hw1, ?_⟩⟩
        dsimp only
        split <;> rfl

/-- **`AppendEntriesHandler` does not read `wal`.** -/
theorem appendEntriesHandler_wal (h : rf.appendEntriesHandler args = some (rf', reply)) :
    ∃ w', ({ rf with wal := w } : Raft NodeID Cmd).appendEntriesHandler args =
      some ({ rf' with wal := w' }, reply) := by
  unfold Raft.appendEntriesHandler at h ⊢
  by_cases hold : args.term < rf.term
  · rw [if_pos hold] at h ⊢
    cases h
    exact ⟨w, rfl⟩
  · rw [if_neg hold] at h ⊢
    obtain ⟨w1, hw1⟩ := acceptLeader_wal rf w args.term args.leaderId
    dsimp only at h ⊢
    rw [hw1]
    cases hs : args.snapshot with
    | some data =>
        rw [hs] at h
        exact installSnapshot_wal w1 h
    | none =>
        rw [hs] at h
        exact appendOrReject_wal w1 h

end Blind

variable [DecidableEq NodeID]

/-! ## 2. Round trips in the cluster -/

/-- A leader's bookkeeping of `F` and its `commitIndex` have changed, and nothing else. -/
def Credits (F : NodeID) (rf rf' : Raft NodeID Cmd) : Prop :=
  ∃ k j c, rf' = { rf with
    matchIndex := Function.update rf.matchIndex F k
    nextIndex := Function.update rf.nextIndex F j
    commitIndex := c }

section Rounds

variable {cfg : Config NodeID} {Q : Finset NodeID} {c c' : Cluster NodeID Cmd} {n F : NodeID}

omit [Inhabited Cmd] in
theorem Credits.refl (F : NodeID) (rf : Raft NodeID Cmd) : Credits F rf rf := by
  refine ⟨rf.matchIndex F, rf.nextIndex F, rf.commitIndex, ?_⟩
  rw [Function.update_eq_self, Function.update_eq_self]

omit [Inhabited Cmd] in
theorem Credits.trans {rf rf' rf'' : Raft NodeID Cmd} (h : Credits F rf rf')
    (h' : Credits F rf' rf'') : Credits F rf rf'' := by
  obtain ⟨k, j, c, rfl⟩ := h
  obtain ⟨k', j', c', rfl⟩ := h'
  refine ⟨k', j', c', ?_⟩
  simp only [Function.update_idem]

omit [Inhabited Cmd] in
/-- **What a reply that is not newer changes.** -/
theorem sendAppendEntries_credits {me : NodeID} {nodeIDs : List NodeID} {rf rf' : Raft NodeID Cmd}
    {args : AppendEntries NodeID Cmd} {reply : AppendEntriesReply} (ht : reply.term ≤ rf.term)
    (h : rf.sendAppendEntries me nodeIDs F args reply = some rf') : Credits F rf rf' := by
  have hsame : Function.update rf.matchIndex F (rf.matchIndex F) = rf.matchIndex :=
    Function.update_eq_self _ _
  unfold Raft.sendAppendEntries at h
  rw [if_neg (Nat.not_lt.mpr ht)] at h
  split at h
  next =>
    cases h
    exact .refl F rf
  next =>
    split at h
    next =>
      by_cases hgt : Raft.newMatch args > rf.matchIndex F
      · simp only [if_pos hgt] at h
        obtain ⟨c, rfl⟩ := commitLoop_eq me nodeIDs _ h
        exact ⟨_, _, c, rfl⟩
      · simp only [if_neg hgt] at h
        obtain ⟨c, rfl⟩ := commitLoop_eq me nodeIDs _ h
        refine ⟨rf.matchIndex F, rf.matchIndex F + 1, c, ?_⟩
        rw [hsame]
    next =>
      split at h
      next =>
        cases h
        exact .refl F rf
      next =>
        cases h
        refine ⟨rf.matchIndex F, if reply.lastMatchIndex + 1 < 1 then 1 else reply.lastMatchIndex + 1,
          rf.commitIndex, ?_⟩
        rw [hsame]

/-- **A round trip is a run**: the heartbeat, its delivery and the reply. -/
theorem roundTrip_within (hQ : Q ⊆ cfg.nodeIDs.toFinset) (h : Reachable cfg c) (hn : n ∈ Q)
    (hF : F ∈ Q) (hne : F ≠ n) (hL : (c.node n).rf.customerId = .leader) {L f : Raft NodeID Cmd}
    (hr : roundTrip n F cfg.nodeIDs ((c.node n).rf, (c.node F).rf) = some (L, f)) :
    ∃ c', Within cfg Q c c' ∧ (c'.node n).rf = { L with wal := [] } ∧
      (c'.node F).rf = { f with wal := [] } ∧ ∀ m, m ≠ n → m ≠ F → c'.node m = c.node m := by
  obtain ⟨args, hargs, hr⟩ := Option.bind_eq_some_iff.mp hr
  obtain ⟨⟨f', reply⟩, hhandle, hr⟩ := Option.bind_eq_some_iff.mp hr
  obtain ⟨L', hsend, hr⟩ := Option.bind_eq_some_iff.mp hr
  cases hr
  obtain ⟨args', c1, hargs', hstep1, hrf1, hcall, hothers1⟩ := exists_heartbeat hQ h hn hF hne hL
  cases hargs.symm.trans hargs'
  have h1 := h.tail (hstep1.step hQ)
  obtain ⟨o2, c2, hex2, hstep2, htook2⟩ := exists_delivered hQ h1 hn hF hcall
  cases hex2 with
  | requestVote hc _ => cases hc
  | timeoutNow hc _ => cases hc
  | appendEntries hc hr2 =>
      cases hc
      rw [hothers1 F hne] at hr2
      cases hhandle.symm.trans hr2
      have hnode : c2.node n = c1.node n := htook2.others n hne.symm
      rw [← hnode] at hcall
      have hans : (⟨n, F, .appendEntries args⟩, .appendEntries reply) ∈ c2.replies := by
        rw [htook2.replies]
        exact List.mem_append_right _ List.mem_cons_self
      have h2 := h1.tail (hstep2.step hQ)
      obtain ⟨k, o3, c3, hk, hex3, hstep3, htook3⟩ := exists_answered hQ h2 hn hF hcall hans
      cases hex3 with
      | matched hk' hr3 =>
          cases hk.symm.trans hk'
          rw [hnode, hrf1] at hr3
          cases hsend.symm.trans hr3
          refine ⟨c3, .tail (.tail (.single hstep1) hstep2) hstep3, ?_, ?_, fun m hm hmF => ?_⟩
          · rw [htook3.self]
          · rw [htook3.others F hne, htook2.self]
          · rw [htook3.others m hm, htook2.others m hmF, hothers1 m hm]

/-- **And so are all of them**, as long as the follower is not ahead of the leader's term. -/
theorem roundTrips_within (hQ : Q ⊆ cfg.nodeIDs.toFinset) (hn : n ∈ Q) (hF : F ∈ Q) (hne : F ≠ n)
    {L' f' : Raft NodeID Cmd} (k : ℕ) :
    ∀ {c : Cluster NodeID Cmd} {f : Raft NodeID Cmd}, Reachable cfg c →
      (c.node F).rf = { f with wal := [] } → (c.node n).rf.customerId = .leader →
      f.term ≤ (c.node n).rf.term →
      roundTrips n F cfg.nodeIDs k ((c.node n).rf, f) = some (L', f') →
      ∃ c', Within cfg Q c c' ∧ (c'.node n).rf = L' ∧ Credits F (c.node n).rf L' ∧
        ∀ m, m ≠ n → m ≠ F → c'.node m = c.node m := by
  induction k with
  | zero =>
      intro c f h _ _ _ hr
      cases hr
      exact ⟨c, .refl, rfl, .refl F _, fun m _ _ => rfl⟩
  | succ k ih =>
      intro c f h hf hL ht hr
      obtain ⟨⟨L1, f1⟩, hround, hrest⟩ := Option.bind_eq_some_iff.mp hr
      obtain ⟨a, hsim⟩ := reachable_sim h
      obtain ⟨args, hargs, hround⟩ := Option.bind_eq_some_iff.mp hround
      obtain ⟨⟨f2, reply⟩, hhandle, hround⟩ := Option.bind_eq_some_iff.mp hround
      obtain ⟨L2, hsend, hround⟩ := Option.bind_eq_some_iff.mp hround
      cases hround
      have hterm : args.term = (c.node n).rf.term := by
        obtain ⟨args', hargs', hterm, _⟩ :=
          (hsim.views n).heartbeatArgs_spec (hsim.proc n).disk.snap.1 n F
        cases hargs.symm.trans hargs'
        exact hterm
      obtain ⟨_, hf1, hreply⟩ := appendEntriesHandler_later (by rw [hterm]; exact ht) hhandle
      have hcred := sendAppendEntries_credits (by rw [hreply, hterm]) hsend
      -- the follower has emptied its `wal`
      obtain ⟨w, hw⟩ := appendEntriesHandler_wal [] hhandle
      have hround : roundTrip n F cfg.nodeIDs ((c.node n).rf, (c.node F).rf) =
          some (L1, { f1 with wal := w }) := by
        rw [hf]
        exact Option.bind_eq_some_iff.mpr ⟨args, hargs, Option.bind_eq_some_iff.mpr ⟨_, hw,
          Option.bind_eq_some_iff.mpr ⟨_, hsend, rfl⟩⟩⟩
      obtain ⟨c1, hrun1, hL1, hF1, hothers1⟩ := roundTrip_within hQ h hn hF hne hL hround
      obtain ⟨k1, j1, com1, e1⟩ := hcred
      have hL1' : (c1.node n).rf = L1 := by
        rw [hL1, e1]
        dsimp only
        rw [hsim.wal n]
      have hF1' : (c1.node F).rf = { f1 with wal := [] } := hF1
      rw [← hL1'] at hrest
      obtain ⟨c', hrun', hL', hcred', hothers'⟩ := ih (h.trans (hrun1.run hQ)) hF1'
        (by rw [hL1', e1]; exact hL) (by rw [hL1', e1, hf1, hterm]) hrest
      refine ⟨c', hrun1.trans hrun', hL', ?_, fun m hm hmF => ?_⟩
      · rw [hL1'] at hcred'
        exact .trans ⟨k1, j1, com1, e1⟩ hcred'
      · rw [hothers' m hm hmF, hothers1 m hm hmF]

end Rounds

/-! ## 3. The leader's log on every server -/

section Spread

variable {cfg : Config NodeID} {Q : Finset NodeID} {c c' : Cluster NodeID Cmd} {n F : NodeID}

/-- What the log of a server is to that of a leader of its term or a later one. -/
theorem Sim.follows {a : Record NodeID Cmd} (h : Sim cfg c a)
    (hL : (c.node n).rf.customerId = .leader) (ht : (c.node F).rf.term ≤ (c.node n).rf.term) :
    Follows (a.log n) (c.node n).rf.snapshotIndex (c.node n).rf.term (a.log F) (c.node F).rf := by
  refine ⟨h.views F, ht, ?_, ?_⟩
  · intro i _ _ hi hi' hterm j hj _ _
    have htake := (h.inv.goodLog n).matching (h.inv.goodLog F) hi hi' hterm
    have hget : ∀ l : List (LogEntry Cmd), l[j - 1]? = (l.take i)[j - 1]? := fun l => by
      rw [List.getElem?_take_of_lt (by omega)]
    rw [hget, htake, ← hget]
  · rcases Nat.lt_or_ge (c.node F).rf.snapshotIndex (c.node n).rf.snapshotIndex with hlt | hge
    · exact .inl hlt
    · have hlead := (h.proc n).mem.leader hL
      have hpre : (a.log F).take (c.node F).rf.snapshotIndex <+: a.log n := by
        rw [h.inv.leaderLog hlead rfl]
        refine (h.proc F).disk.committed.llog h.inv ?_ (by rw [hlead]; exact Option.some_ne_none n)
        rw [← (h.enter F).term, ← (h.enter n).term]
        exact ht
      have hlen : ((a.log F).take (c.node F).rf.snapshotIndex).length =
          (c.node F).rf.snapshotIndex := List.length_take_of_le (h.views F).le
      refine .inr ⟨hge, ?_, ?_⟩
      · rw [← hlen]
        exact hpre.length_le
      · rw [← termAt_isPrefix hpre (Nat.le_of_eq hlen.symm),
          termAt_isPrefix (List.take_prefix _ _) (Nat.le_of_eq hlen.symm)]

/-- **A new leader brings one server up to its log.** -/
theorem exists_caught (hQ : Q ⊆ cfg.nodeIDs.toFinset) (h : Reachable cfg c) (hn : n ∈ Q)
    (hF : F ∈ Q) (hne : F ≠ n) (hL : (c.node n).rf.customerId = .leader)
    (ht : (c.node F).rf.term ≤ (c.node n).rf.term) (h0 : (c.node n).rf.matchIndex F = 0) :
    ∃ c', Within cfg Q c c' ∧ Credits F (c.node n).rf (c'.node n).rf ∧
      (c'.node n).rf.matchIndex F = (c.node n).rf.lastLogIndex ∧
      ∀ m, m ≠ n → m ≠ F → c'.node m = c.node m := by
  obtain ⟨a, hsim⟩ := reachable_sim h
  have hnext := nextOk_reachable h n hL F (List.mem_toFinset.mp (hQ hF))
  obtain ⟨k, _, L', f', _, hrun, _, hmatch, _⟩ :=
    done_from n F cfg.nodeIDs _ (hsim.leads hL) (hsim.follows hL ht) rfl hnext h0
  obtain ⟨c', hwithin, hL', hcred, hothers⟩ := roundTrips_within hQ hn hF hne k h
    (hsim.rf_wal F).symm hL ht hrun
  subst hL'
  refine ⟨c', hwithin, hcred, ?_, hothers⟩
  rw [hmatch, (hsim.views n).lastLogIndex]

/-- Server `n` leads with an entry of its own term at its last index, which everyone in `Q` has
    confirmed but the servers of `l`. -/
structure Spreading (cfg : Config NodeID) (Q : Finset NodeID) (n : NodeID) (rf : Raft NodeID Cmd)
    (l : List NodeID) (c : Cluster NodeID Cmd) : Prop where
  reach : Reachable cfg c
  nodup : l.Nodup
  /-- Nothing but the bookkeeping has changed since the entry was appended. -/
  same : ∃ matchIndex nextIndex commitIndex, (c.node n).rf = { rf with
    matchIndex := matchIndex, nextIndex := nextIndex, commitIndex := commitIndex }
  done : ∀ m ∈ Q, m ≠ n → m ∉ l → rf.lastLogIndex ≤ (c.node n).rf.matchIndex m
  left : ∀ m ∈ l, m ∈ Q ∧ m ≠ n ∧ (c.node m).rf.term ≤ rf.term ∧ (c.node n).rf.matchIndex m = 0

/-- One more server confirms. -/
theorem Spreading.next (hQ : Q ⊆ cfg.nodeIDs.toFinset) (hn : n ∈ Q) {rf : Raft NodeID Cmd}
    (hL : rf.customerId = .leader) {l : List NodeID} (h : Spreading cfg Q n rf (F :: l) c) :
    ∃ c', Within cfg Q c c' ∧ Spreading cfg Q n rf l c' := by
  obtain ⟨hF, hne, ht, h0⟩ := h.left F List.mem_cons_self
  obtain ⟨hFl, hnodup⟩ := List.nodup_cons.mp h.nodup
  obtain ⟨ma, ne, com, hrf⟩ := h.same
  have hlast : (c.node n).rf.lastLogIndex = rf.lastLogIndex := by
    rw [hrf]
    rfl
  have hterm : (c.node n).rf.term = rf.term := by rw [hrf]
  obtain ⟨c', hrun, ⟨k, j, com', hcred⟩, hmatch, hothers⟩ := exists_caught hQ h.reach hn hF hne
    (by rw [hrf]; exact hL) (by rw [hterm]; exact ht) h0
  have h' := h.reach.trans (hrun.run hQ)
  have hother : ∀ m, m ≠ F → (c'.node n).rf.matchIndex m = (c.node n).rf.matchIndex m := by
    intro m hm
    rw [hcred]
    exact Function.update_of_ne hm _ _
  refine ⟨c', hrun, h', hnodup, ?_, ?_, ?_⟩
  · rw [hcred, hrf]
    exact ⟨_, _, _, rfl⟩
  · intro m hm hmn hml
    by_cases e : m = F
    · rw [e, hmatch, hlast]
    · rw [hother m e]
      exact h.done m hm hmn fun hmem => (List.mem_cons.mp hmem).elim e hml
  · intro m hml
    obtain ⟨hm, hmn, hmt, hm0⟩ := h.left m (List.mem_cons_of_mem _ hml)
    have hmF : m ≠ F := by
      rintro rfl
      exact hFl hml
    rw [hother m hmF, hothers m hmn hmF]
    exact ⟨hm, hmn, hmt, hm0⟩

/-- **A command of a new leader can be committed.** -/
theorem exists_committed (hQ : cfg.quorums.isQuorum Q) (hsize : 2 ≤ cfg.nodeIDs.length)
    (h : Reachable cfg c) (hn : n ∈ Q) (hnew : NewLeader cfg.nodeIDs (c.node n).rf)
    (hterms : ∀ m ∈ Q, (c.node m).rf.term ≤ (c.node n).rf.term) {command : Cmd}
    (hentry : (c.node n).rf.logAt (c.node n).rf.lastLogIndex =
      some ⟨command, (c.node n).rf.term⟩) :
    ∃ c', Within cfg Q c c' ∧ (c.node n).rf.lastLogIndex ≤ (c'.node n).rf.commitIndex ∧
      ∃ matchIndex nextIndex commitIndex, (c'.node n).rf = { (c.node n).rf with
        matchIndex := matchIndex, nextIndex := nextIndex, commitIndex := commitIndex } := by
  have hsub := hQ.1
  have hstart : Spreading cfg Q n (c.node n).rf (Q.erase n).toList c := by
    refine ⟨h, Finset.nodup_toList _, ⟨_, _, _, rfl⟩, ?_, ?_⟩
    · intro m hm hmn hml
      exact absurd (Finset.mem_toList.mpr (Finset.mem_erase.mpr ⟨hmn, hm⟩)) hml
    · intro m hml
      obtain ⟨hmn, hm⟩ := Finset.mem_erase.mp (Finset.mem_toList.mp hml)
      exact ⟨hm, hmn, hterms m hm, hnew.2 m (List.mem_toFinset.mp (hsub hm))⟩
  obtain ⟨c', hrun, hdone⟩ := run_each (fun m l c h => h.next hsub hn hnew.1) _ hstart
  refine ⟨c', hrun, ?_, hdone.same⟩
  have hcount := (replicaCount_majority (List.mem_toFinset.mp (hsub hn)) (c'.node n).rf _).mpr
    ⟨Q, hQ, fun m hm hmn => hdone.done m hm hmn List.not_mem_nil⟩
  obtain ⟨ma, ne, com, hrf⟩ := hdone.same
  refine caughtUp_reachable hdone.reach hsize n ?_ _ ⟨command, (c.node n).rf.term⟩ ?_ ?_ hcount
  · rw [hrf]
    exact hnew.1
  · rw [hrf]
    exact hentry
  · rw [hrf]

end Spread

/-! ## 4. The command reaches the service -/

section Apply

variable {cfg : Config NodeID} {Q : Finset NodeID} {c c' : Cluster NodeID Cmd} {n : NodeID}

/-- The rest of a batch can be sent. -/
theorem exists_drained (hQ : Q ⊆ cfg.nodeIDs.toFinset) (hn : n ∈ Q) (msgs : List (ApplyMsg Cmd)) :
    ∀ {c : Cluster NodeID Cmd}, Reachable cfg c → (c.node n).applying = msgs →
      ∃ c', Within cfg Q c c' ∧ (c'.node n).rf = (c.node n).rf ∧ (c'.node n).applying = [] ∧
        c'.sent = c.sent ++ msgs.map fun msg => (n, msg) := by
  induction msgs with
  | nil => exact fun _ hnil => ⟨_, .refl, rfl, hnil, (List.append_nil _).symm⟩
  | cons msg rest ih =>
      intro c h happ
      obtain ⟨a, hsim⟩ := reachable_sim h
      have hev : c.Enabled n .apply := by
        show (c.node n).applying ≠ []
        rw [happ]
        exact List.cons_ne_nil _ _
      obtain ⟨o, c1, hex, hstep, htook⟩ := exists_stepOf hQ h hn _ hev trivial
      cases hex with
      | apply happ' =>
          cases happ.symm.trans happ'
          have hrf : (c1.node n).rf = (c.node n).rf := by
            rw [htook.self]
            exact hsim.rf_wal n
          obtain ⟨c', hrun, hrf', hnil, hsent⟩ := ih (h.tail (hstep.step hQ)) (by rw [htook.self])
          refine ⟨c', .head hstep hrun, hrf'.trans hrf, hnil, ?_⟩
          rw [hsent, htook.sent, List.append_assoc]
          rfl

omit [DecidableEq NodeID] in
/-- What is committed and not yet applied is in the batch. -/
theorem sendApplyMsg_mem {rf rf' : Raft NodeID Cmd} {msgs : List (ApplyMsg Cmd)} {i : ℕ}
    {e : LogEntry Cmd} (h : rf.sendApplyMsg = some (rf', msgs)) (hs : rf.snapshotIndex < i)
    (ha : rf.appliedIndex < i) (hc : i ≤ rf.commitIndex) (he : rf.logAt i = some e) :
    commandMsg i e ∈ msgs := by
  unfold Raft.sendApplyMsg at h
  obtain ⟨first, _, h⟩ := Option.bind_eq_some_iff.mp h
  obtain ⟨entries, hent, h⟩ := Option.bind_eq_some_iff.mp h
  cases h
  obtain ⟨hlen, hget⟩ := Slice.getElem?_of_between? hent
  generalize hst : (if rf.appliedIndex + 1 ≤ rf.snapshotIndex then rf.snapshotIndex + 1
    else rf.appliedIndex + 1) = startIdx at hlen hget ⊢
  have hle : startIdx ≤ i := by
    rw [← hst]
    split <;> omega
  have hlt : i - startIdx < entries.length := by
    unfold Raft.relIdx at hlen
    omega
  have hat : entries[i - startIdx]? = some e := by
    rw [hget _ hlt, ← he]
    unfold Raft.logAt Raft.relIdx
    congr 1
    omega
  refine List.mem_append_right _ (List.mem_mapIdx.mpr ⟨i - startIdx, hlt, ?_⟩)
  rw [(List.getElem?_eq_some_iff.mp hat).2, Nat.add_sub_cancel' hle]
  rfl

/-- **A committed entry can be handed to the service.** -/
theorem exists_applied (hQ : Q ⊆ cfg.nodeIDs.toFinset) (h : Reachable cfg c) (hn : n ∈ Q) {i : ℕ}
    {e : LogEntry Cmd} (hs : (c.node n).rf.snapshotIndex < i)
    (ha : (c.node n).rf.appliedIndex < i) (hc : i ≤ (c.node n).rf.commitIndex)
    (he : (c.node n).rf.logAt i = some e) :
    ∃ c' new, Within cfg Q c c' ∧ c'.sent = c.sent ++ new ∧ (n, commandMsg i e) ∈ new ∧
      (c'.node n).rf = { (c.node n).rf with appliedIndex := (c.node n).rf.commitIndex } := by
  obtain ⟨c1, hrun1, hrf1, hidle, hsent1⟩ := exists_drained hQ hn _ h rfl
  have h1 := h.trans (hrun1.run hQ)
  obtain ⟨a, hsim⟩ := reachable_sim h1
  have hev : c1.Enabled n .applyBatch := by
    refine ⟨hidle, ?_⟩
    rw [hrf1]
    omega
  obtain ⟨o, c2, hex, hstep, htook⟩ := exists_stepOf hQ h1 hn _ hev trivial
  cases hex with
  | @applyBatch rf' msgs hr =>
      have hmem : commandMsg i e ∈ msgs := by
        rw [hrf1] at hr
        exact sendApplyMsg_mem hr hs ha hc he
      have hrf2 : (c2.node n).rf =
          { (c.node n).rf with appliedIndex := (c.node n).rf.commitIndex } := by
        rw [htook.self, sendApplyMsg_eq hr, hrf1, ← hsim.wal n, hrf1]
      obtain ⟨c', hrun', hrf', _, hsent'⟩ := exists_drained hQ hn msgs
        (h1.tail (hstep.step hQ)) (by rw [htook.self])
      have hsent2 : c2.sent = c1.sent := htook.sent.trans (List.append_nil _)
      refine ⟨c', ((c.node n).applying.map fun msg => (n, msg)) ++ msgs.map fun msg => (n, msg),
        (hrun1.tail hstep).trans hrun', ?_, ?_, hrf'.trans hrf2⟩
      · rw [hsent', hsent2, hsent1, List.append_assoc]
      · exact List.mem_append_right _ (List.mem_map_of_mem hmem)

end Apply

/-! ## 5. Availability -/

section Available

variable {cfg : Config NodeID} {Q : Finset NodeID} {c : Cluster NodeID Cmd} {n : NodeID}

/-- A leader takes a command. -/
theorem exists_started (hQ : Q ⊆ cfg.nodeIDs.toFinset) (h : Reachable cfg c) (hn : n ∈ Q)
    (hL : (c.node n).rf.customerId = .leader) (command : Cmd) :
    ∃ c', StepOf cfg Q c c' ∧ (c'.node n).rf = { (c.node n).rf with
        logs := (c.node n).rf.logs ++ [⟨command, (c.node n).rf.term⟩] } ∧
      (c'.node n).rf.lastLogIndex = (c.node n).rf.lastLogIndex + 1 ∧
      (c'.node n).rf.logAt ((c.node n).rf.lastLogIndex + 1) =
        some ⟨command, (c.node n).rf.term⟩ ∧
      ∀ m, m ≠ n → c'.node m = c.node m := by
  obtain ⟨a, hsim⟩ := reachable_sim h
  obtain ⟨o, c', hex, hstep, htook⟩ :=
    exists_stepOf hQ h hn (.start command) trivial trivial
  cases hex
  have hrf : (c'.node n).rf = { (c.node n).rf with
      logs := (c.node n).rf.logs ++ [⟨command, (c.node n).rf.term⟩] } := by
    rw [htook.self, Raft.start, if_neg (not_not.mpr hL), ← hsim.wal n]
  refine ⟨c', hstep, hrf, ?_, ?_, htook.others⟩
  · have hlen := (indexesOk_reachable h n).logs
    rw [hrf]
    simp only [Raft.lastLogIndex, List.length_append, List.length_singleton]
    omega
  · have hat := start_logAt hL (hsim.logs_ne n) command
    rw [Raft.start, if_neg (not_not.mpr hL)] at hat
    rw [hrf]
    exact hat

/-- **A majority is available.** From every reachable state of a cluster of two servers or more,
    the servers of any majority can go on, alone and without a crash, so that one of them is
    elected, accepts the command at a new index of its log, commits it, and hands it to its
    service. -/
theorem majority_available (h : Reachable cfg c) (hsize : 2 ≤ cfg.nodeIDs.length)
    (hQ : cfg.quorums.isQuorum Q) (command : Cmd) :
    ∃ n ∈ Q, ∃ (c₁ c' : Cluster NodeID Cmd) (index term : ℕ), Within cfg Q c c₁ ∧
      ((c₁.node n).rf.start command).2 = ((index : Int), term, true) ∧ Within cfg Q c₁ c' ∧
      (c'.node n).rf.customerId = .leader ∧ (c'.node n).rf.term = term ∧
      index ≤ (c'.node n).rf.commitIndex ∧ (c'.node n).rf.logAt index = some ⟨command, term⟩ ∧
      ∃ new, c'.sent = c₁.sent ++ new ∧ (n, commandMsg index ⟨command, term⟩) ∈ new := by
  obtain ⟨c₁, n, hrun1, hn, hlead, hterms⟩ := exists_elected hQ hsize h
  have h1 := h.trans (hrun1.run hQ.1)
  have hindexes := indexesOk_reachable h1 n
  obtain ⟨c2, hstep2, hrf2, hlast2, hentry2, hothers2⟩ :=
    exists_started hQ.1 h1 hn hlead.1 command
  have h2 := h1.tail (hstep2.step hQ.1)
  have hterm2 : (c2.node n).rf.term = (c₁.node n).rf.term := by rw [hrf2]
  -- the majority confirms it
  have hterms2 : ∀ m ∈ Q, (c2.node m).rf.term ≤ (c2.node n).rf.term := by
    intro m hm
    by_cases e : m = n
    · rw [e]
    · rw [hothers2 m e, hterm2]
      exact hterms m hm
  rw [← hlast2, ← hterm2] at hentry2
  obtain ⟨c3, hrun3, hcommit, ma, ne, com, hrf3⟩ := exists_committed hQ hsize h2 hn
    (by rw [hrf2]; exact hlead) hterms2 hentry2
  have h3 := h2.trans (hrun3.run hQ.1)
  -- and the leader applies it
  have hnew : (c₁.node n).rf.commitIndex < (c2.node n).rf.lastLogIndex := by
    rw [hlast2]
    exact Nat.lt_succ_of_le hindexes.commitIndex
  have hentry3 : (c3.node n).rf.logAt (c2.node n).rf.lastLogIndex =
      some ⟨command, (c2.node n).rf.term⟩ := by
    rw [hrf3]
    exact hentry2
  have hsnap3 : (c3.node n).rf.snapshotIndex = (c₁.node n).rf.snapshotIndex := by rw [hrf3, hrf2]
  have happ3 : (c3.node n).rf.appliedIndex = (c₁.node n).rf.appliedIndex := by rw [hrf3, hrf2]
  obtain ⟨c', new, hrun', hsent', hmem, hrf'⟩ := exists_applied hQ.1 h3 hn
    (by rw [hsnap3]; exact Nat.lt_of_le_of_lt hindexes.snapshotIndex hnew)
    (by rw [happ3]; exact Nat.lt_of_le_of_lt hindexes.appliedIndex hnew) hcommit hentry3
  obtain ⟨mid, hmid⟩ := Within.sent (.head hstep2 hrun3)
  refine ⟨n, hn, c₁, c', _, _, hrun1, ?_, .head hstep2 (hrun3.trans hrun'), ?_, ?_, ?_, ?_,
    mid ++ new, ?_, List.mem_append_right _ hmem⟩
  · rw [Raft.start, if_neg (not_not.mpr hlead.1), hlast2, hterm2]
  · rw [hrf', hrf3, hrf2]
    exact hlead.1
  · rw [hrf', hrf3]
  · rw [hrf']
    exact hcommit
  · rw [hrf']
    exact hentry3
  · rw [hsent', hmid, List.append_assoc]

end Available

/-- Servers 1 and 2 are those of `late_rejection`: as leader and follower they do not get on any
    more, and yet they can commit without server 0. -/
theorem majority_available_stuck : ∃ c : Cluster ℕ ℕ, Reachable three c ∧
    (c.node 1).rf.customerId = .leader ∧
    (c.node 1).rf.nextIndex 2 ≤ (c.node 1).rf.matchIndex 2 ∧
    ∃ n ∈ ({1, 2} : Finset ℕ), ∃ (c' : Cluster ℕ ℕ) (index : ℕ), Within three {1, 2} c c' ∧
      (c'.node n).rf.customerId = .leader ∧ index ≤ (c'.node n).rf.commitIndex ∧
      ∃ term, (n, commandMsg index ⟨9, term⟩) ∈ c'.sent := by
  obtain ⟨c, hr, hread⟩ := exists_played init
    (sections (commitSeven ++ twoProbes ++ acceptedProbe ++ [(1, replyNth 2 4)]))
    (fun c => decide ((c.node 1).rf.customerId = .leader ∧
      (c.node 1).rf.nextIndex 2 ≤ (c.node 1).rf.matchIndex 2)) (v := true) (by decide +kernel)
  obtain ⟨hL, hstuck⟩ := of_decide_eq_true hread
  have hQ : three.quorums.isQuorum {1, 2} := ⟨by decide, by decide⟩
  obtain ⟨n, hn, c₁, c', index, term, hrun, _, hrun', hlead, _, hcommit, _, new, hsent, hmem⟩ :=
    majority_available hr (by decide) hQ 9
  refine ⟨c, hr, hL, hstuck, n, hn, c', index, hrun.trans hrun', hlead, hcommit, term, ?_⟩
  rw [hsent]
  exact List.mem_append_right _ hmem

/-! ## 6. One server alone -/

section Lone

variable {cfg : Config NodeID} {c c' : Cluster NodeID Cmd} {me : NodeID} {p : Proc NodeID Cmd}
  {o : Outcome NodeID Cmd}

/-- A server that waits for nothing and does not lead. -/
def Idle (p : Proc NodeID Cmd) : Prop := p.calls = [] ∧ p.rf.customerId ≠ .leader

/-- With no one else to ask, a server goes on like this. -/
theorem exec_idle (hlone : ∀ id ∈ cfg.nodeIDs, id = me) (h : Idle p)
    {ev : Event NodeID Cmd} (ho : exec cfg me p ev = some o) : Idle o.proc := by
  obtain ⟨hcalls, hrole⟩ := h
  have hvotes : ∀ round, (voteCalls cfg me round : List (NodeID × Call NodeID Cmd)) = [] := by
    rintro (_ | round)
    · rfl
    · simpa [voteCalls, Raft.sendRequestVotes] using hlone
  have hsteady : ∀ {rf' : Raft NodeID Cmd}, Steady p.rf rf' → rf'.customerId ≠ .leader :=
    fun hs hl => hrole (hs hl).1
  cases exec_cases ho with
  | tickerArm | tickerReset | noTransfer => exact ⟨hcalls, hrole⟩
  | callFailed =>
      refine ⟨?_, hrole⟩
      rw [hcalls]
      rfl
  | apply => exact ⟨hcalls, hrole⟩
  | tickerFire _ hr =>
      refine ⟨?_, hsteady (plain_tickerFire _ hr).steady⟩
      rw [Outcome.sending, hvotes, hcalls]
      rfl
  | requestVote _ hr => exact ⟨hcalls, hsteady (plain_requestVote _ hr).steady⟩
  | appendEntries _ hr =>
      refine ⟨hcalls, hsteady ?_⟩
      rcases appendEntriesHandler_plain (fun _ => True) (fun _ _ => trivial) hr with
        hc | ⟨data, rf1, term, suffix, c, _, hc, _, _, rfl⟩
      · exact hc.steady
      · exact hc.steady
  | timeoutNow _ hr =>
      refine ⟨?_, hsteady (plain_timeoutNow _ hr).steady⟩
      rw [Outcome.sending, hvotes, hcalls]
      rfl
  | votes hk | matched hk | transferred hk =>
      rw [hcalls] at hk
      cases hk
  | start => exact ⟨hcalls, hsteady (plain_start (fun _ => True) p.rf trivial).steady⟩
  | heartbeat hr =>
      rw [Raft.startHeartbeat, if_pos hrole] at hr
      cases hr
      refine ⟨?_, hrole⟩
      rw [Outcome.sending, hcalls]
      rfl
  | applyBatch hr =>
      rw [sendApplyMsg_eq hr]
      exact ⟨hcalls, hrole⟩
  | snapshot hr =>
      rcases snapshotUpTo_changes hr with rfl | ⟨_, term, suffix, _, rfl⟩
      · exact ⟨hcalls, hrole⟩
      · exact ⟨hcalls, hrole⟩
  | transfer hr =>
      rw [Raft.transferLeadership, if_pos hrole] at hr
      cases hr

theorem idle_reachable (h : Reachable cfg c) (hsize : cfg.nodeIDs.length ≤ 1) (n : NodeID) :
    Idle (c.node n) := by
  induction h with
  | refl => exact ⟨rfl, fun hl => Role.noConfusion hl⟩
  | tail _ hs ih =>
      rcases hs.alive_or_boot n with halive | ⟨st, e⟩
      · rcases halive.node with e | ⟨ev, o, hn, _, ho, e⟩
        · rw [e]
          exact ih
        · have hlone : ∀ id ∈ cfg.nodeIDs, id = n := by
            intro id hid
            obtain ⟨x, hx⟩ := List.length_eq_one_iff.mp
              (Nat.le_antisymm hsize (List.length_pos_of_mem hn))
            rw [hx, List.mem_singleton] at hid hn
            rw [hid, hn]
          rw [e]
          exact exec_idle hlone ih ho
      · rw [e]
        exact ⟨rfl, fun hl => Role.noConfusion hl⟩

/-- **A single server never leads.** Its vote for itself is a majority, but the votes are counted
    only when a peer answers: it refuses every command, for ever. -/
theorem lone_server_refuses (h : Reachable cfg c) (hsize : cfg.nodeIDs.length ≤ 1) (n : NodeID)
    (command : Cmd) :
    (c.node n).rf.customerId ≠ .leader ∧ ((c.node n).rf.getState n).2 = false ∧
      (c.node n).rf.start command = ((c.node n).rf, -1, (c.node n).rf.term, false) := by
  obtain ⟨_, hrole⟩ := idle_reachable h hsize n
  obtain ⟨a, hsim⟩ := reachable_sim h
  refine ⟨hrole, decide_eq_false fun hl => hrole ((hsim.proc n).mem.leads.mp hl), ?_⟩
  rw [Raft.start, if_pos hrole]

end Lone

def one : Config ℕ := ⟨[0], List.nodup_singleton 0⟩

/-- A single server has timed out twice, and its own vote would do. -/
theorem lone_server_refuses_sample : ∃ c : Cluster ℕ ℕ, Reachable one c ∧
    (c.node 0).rf.customerId = .candidate ∧
    one.nodeIDs.length / 2 < (c.node 0).rf.voteCount ∧
    ((c.node 0).rf.start 7).2 = (-1, 2, false) := by
  have hplay : (Cluster.play one init [(0, fun _ => .run .tickerArm), (0, fun _ => .run .tickerFire),
      (0, fun _ => .run .tickerArm), (0, fun _ => .run .tickerFire)]).map
      (fun c : Cluster ℕ ℕ => ((c.node 0).rf.customerId, (c.node 0).rf.voteCount,
        (c.node 0).rf.term)) = some (.candidate, 1, 2) := by
    decide +kernel
  obtain ⟨c, hc, hread⟩ := Option.map_eq_some_iff.mp hplay
  obtain ⟨hrole, hcount, hterm⟩ : _ ∧ _ ∧ _ := by simpa using hread
  have hr : Reachable one c := Cluster.play_run hc
  obtain ⟨_, _, hstart⟩ := lone_server_refuses hr (by decide) 0 7
  refine ⟨c, hr, hrole, by rw [hcount]; decide, ?_⟩
  rw [hstart, hterm]

end RaftLab.Raft1

/-
  File:      RaftLab/Raft1/Reconcile.lean
  Subject:   A new leader and a follower find the last index their logs share.

  `roundTrip` is one message of `startHeartbeat`, handled by the follower and answered. The probe
  moves down after a rejection, to the follower's last index or below the term in conflict; it moves
  up only twice: after the snapshot was accepted, to the leader's snapshot, and to the follower's
  snapshot if that is higher. From there the next probe is accepted.

  * `LogOk` -- what both servers are assumed to be, as all servers of a run are (`reachable_logOk`);
  * `Follows` -- what the follower's log is to the leader's, in terms of full logs (View.lean);
  * `reconciliation_terminates` -- **within `lastLogIndex + 3` round trips the follower has the
    leader's log** and the leader knows it.
-/
import RaftLab.Raft1.Changes
import RaftLab.Raft1.Safety

namespace RaftLab.Raft1

open RaftLab.Lib

variable {NodeID Cmd : Type} [Inhabited Cmd]

/-! ## 1. Round trips -/

section Rounds

variable [DecidableEq NodeID] (me F : NodeID) (nodeIDs : List NodeID)

/-- A message of the leader to the follower and the reply, without loss. -/
def roundTrip (x : Raft NodeID Cmd × Raft NodeID Cmd) :
    Option (Raft NodeID Cmd × Raft NodeID Cmd) := do
  let args ← x.1.heartbeatArgs me F
  let (f, reply) ← x.2.appendEntriesHandler args
  let L ← x.1.sendAppendEntries me nodeIDs F args reply
  some (L, f)

def roundTrips : ℕ → Raft NodeID Cmd × Raft NodeID Cmd → Option (Raft NodeID Cmd × Raft NodeID Cmd)
  | 0, x => some x
  | k + 1, x => (roundTrip me F nodeIDs x).bind (roundTrips k)

end Rounds

/-- A server as it is in every run: its log begins with a sentinel, of term 0 if nothing is
    compacted, and it has compacted nothing that is not committed. -/
structure LogOk (rf : Raft NodeID Cmd) : Prop where
  logs : ∃ t suffix, rf.logs = .sentinel t :: suffix ∧ (rf.snapshotIndex = 0 → t = 0)
  commitIndex : rf.snapshotIndex ≤ rf.commitIndex

theorem reachable_logOk [DecidableEq NodeID] {cfg : Config NodeID} {c : Cluster NodeID Cmd}
    (h : Cluster.Reachable cfg c) (n : NodeID) : LogOk (c.node n).rf := by
  obtain ⟨a, hsim⟩ := reachable_sim h
  refine ⟨⟨_, _, (hsim.views n).logs, fun h0 => ?_⟩, (hsim.proc n).mem.snapLe⟩
  rw [h0]
  rfl

theorem LogOk.views {rf : Raft NodeID Cmd} (h : LogOk rf) : ∃ l, Views l rf := by
  obtain ⟨⟨t, suffix, hlogs, h0⟩, _⟩ := h
  -- any entries of the sentinel's term will do for what is compacted
  refine ⟨List.replicate rf.snapshotIndex ⟨default, t⟩ ++ suffix, ?_, by simp⟩
  have ht : termAt tm (List.replicate rf.snapshotIndex ⟨default, t⟩ ++ suffix) rf.snapshotIndex =
      t := by
    cases hs : rf.snapshotIndex with
    | zero => exact (h0 hs).symm
    | succ s => simp [termAt_succ, List.getElem?_append]
  rw [hlogs, compact, ht]
  simp

/-! ## 2. The leader's side -/

/-- The leader: its log is `l`, and it has a snapshot to send for what it has compacted. -/
structure Leads (l : List (LogEntry Cmd)) (S T : ℕ) (L : Raft NodeID Cmd) : Prop where
  views : Views l L
  snapshotIndex : L.snapshotIndex = S
  term : L.term = T
  role : L.customerId = .leader
  snapshot : 0 < S → L.snapshot ≠ none
  commitIndex : S ≤ L.commitIndex

/-- A probe at `prev` into the log. -/
def probeArgs (me : NodeID) (l : List (LogEntry Cmd)) (S T prev c : ℕ) : AppendEntries NodeID Cmd :=
  ⟨T, me, prev, termAt tm l prev, l.drop prev, c, none, S, termAt tm l S⟩

/-- The snapshot, with no probe. -/
def shipArgs (me : NodeID) (l : List (LogEntry Cmd)) (S T c : ℕ) (data : Bytes) :
    AppendEntries NodeID Cmd :=
  ⟨T, me, 0, 0, [], c, some data, S, termAt tm l S⟩

section Leader

variable {l : List (LogEntry Cmd)} {S T : ℕ} {L : Raft NodeID Cmd} {F : NodeID}

theorem Leads.withNext (h : Leads l S T L) (next : NodeID → ℕ) :
    Leads l S T { L with nextIndex := next } :=
  ⟨h.views.congr rfl rfl, h.snapshotIndex, h.term, h.role, h.snapshot, h.commitIndex⟩

theorem Leads.le_length (h : Leads l S T L) : S ≤ l.length := by
  rw [← h.snapshotIndex]
  exact h.views.le

theorem Leads.probe (h : Leads l S T L) (me : NodeID) {prev : ℕ}
    (hprev : prev = min (L.nextIndex F - 1) l.length) (h1 : 1 ≤ L.nextIndex F) (hS : S ≤ prev) :
    L.heartbeatArgs me F = some (probeArgs me l S T prev L.commitIndex) := by
  have hlen := h.views.lastLogIndex
  have hsnap := h.snapshotIndex
  have hp : (if (L.nextIndex F : Int) - 1 > (l.length : Int) then (l.length : Int)
      else (L.nextIndex F : Int) - 1) = (prev : Int) := by
    split <;> omega
  obtain ⟨e, he, hterm, _⟩ := h.views.logAt (i := prev) (by omega) (by omega)
  have hsuf := h.views.suffix (i := prev) (by omega) (by omega)
  have hlow : ¬ (prev : Int) < L.snapshotIndex := by omega
  unfold Raft.heartbeatArgs probeArgs
  simp only [h.views.first, hlen, hp, if_neg hlow, Int.toNat_natCast, he]
  by_cases hl : prev < l.length
  · simp [hl, hsuf, hterm, h.term, hsnap, LogEntry.sentinel]
  · have hdrop : l.drop prev = [] := List.drop_of_length_le (by omega)
    simp [hl, hterm, hdrop, h.term, hsnap, LogEntry.sentinel]

/-- The snapshot goes out if the probe would be below it. -/
theorem Leads.ship (h : Leads l S T L) (me : NodeID) (h1 : 1 ≤ L.nextIndex F)
    (hS : L.nextIndex F - 1 < S) :
    ∃ data, L.heartbeatArgs me F = some (shipArgs me l S T L.commitIndex data) := by
  have hlen := h.views.lastLogIndex
  have hsnap := h.snapshotIndex
  have hle := h.views.le
  obtain ⟨data, hdata⟩ := Option.ne_none_iff_exists'.mp (h.snapshot (by omega))
  have hp : (if (L.nextIndex F : Int) - 1 > (l.length : Int) then (l.length : Int)
      else (L.nextIndex F : Int) - 1) < (L.snapshotIndex : Int) := by
    split <;> omega
  refine ⟨data, ?_⟩
  unfold Raft.heartbeatArgs shipArgs
  simp only [h.views.first, hlen, if_pos hp, hdata]
  simp [h.term, hsnap, LogEntry.sentinel]

variable [DecidableEq NodeID] (me : NodeID) (nodeIDs : List NodeID)

omit [DecidableEq NodeID] in
/-- A reply of the term is neither newer than the leader nor stale. -/
theorem Leads.current (h : Leads l S T L) {args : AppendEntries NodeID Cmd} (hterm : args.term = T) :
    ¬ T > L.term ∧ ¬ (L.term ≠ args.term ∨ L.customerId ≠ .leader) := by
  rw [h.term, hterm, h.role]
  simp

/-- A rejection moves the probe behind the index the follower has answered. -/
theorem Leads.rejected (h : Leads l S T L) (args : AppendEntries NodeID Cmd) (m : ℕ)
    (hterm : args.term = T) (hprev : L.matchIndex F ≤ args.prevLogIndex) :
    L.sendAppendEntries me nodeIDs F args ⟨T, false, m⟩ =
      some { L with nextIndex := Function.update L.nextIndex F (m + 1) } := by
  unfold Raft.sendAppendEntries
  obtain ⟨h1, h2⟩ := h.current hterm
  have h3 : ¬ args.prevLogIndex < L.matchIndex F := Nat.not_lt.mpr hprev
  simp [h1, h2, h3]

/-- A success moves it behind what is confirmed now. -/
theorem Leads.accepted (h : Leads l S T L) (args : AppendEntries NodeID Cmd) (m : ℕ)
    (hterm : args.term = T) (hmatch : L.matchIndex F ≤ Raft.newMatch args) :
    ∃ L', L.sendAppendEntries me nodeIDs F args ⟨T, true, m⟩ = some L' ∧ Leads l S T L' ∧
      L'.matchIndex F = Raft.newMatch args ∧ L'.nextIndex F = Raft.newMatch args + 1 := by
  obtain ⟨h1, h2⟩ := h.current hterm
  obtain ⟨ma, hma, hF⟩ : ∃ ma, (if Raft.newMatch args > L.matchIndex F then
      { L with matchIndex := Function.update L.matchIndex F (Raft.newMatch args) } else L) =
      { L with matchIndex := ma } ∧ ma F = Raft.newMatch args := by
    split
    · exact ⟨_, rfl, Function.update_self _ _ _⟩
    · exact ⟨L.matchIndex, rfl, by omega⟩
  obtain ⟨L1, e1⟩ : ∃ L1 : Raft NodeID Cmd, { L with
      matchIndex := ma
      nextIndex := Function.update L.nextIndex F (ma F + 1) } = L1 := ⟨_, rfl⟩
  have h1' : Leads l S T L1 ∧ L1.matchIndex F = Raft.newMatch args ∧
      L1.nextIndex F = Raft.newMatch args + 1 := by
    rw [← e1]
    refine ⟨⟨h.views.congr rfl rfl, h.snapshotIndex, h.term, h.role, h.snapshot, h.commitIndex⟩,
      hF, ?_⟩
    simp [hF]
  obtain ⟨hlead, hm, hn⟩ := h1'
  obtain ⟨c, hc, hor⟩ := hlead.views.advanceCommit_spec me nodeIDs (by
    rw [hlead.snapshotIndex]
    exact hlead.commitIndex)
  refine ⟨{ L1 with commitIndex := c }, ?_, ⟨hlead.views.congr rfl rfl, hlead.snapshotIndex,
    hlead.term, hlead.role, hlead.snapshot, ?_⟩, hm, hn⟩
  · unfold Raft.sendAppendEntries
    rw [if_neg h1, if_neg h2, if_pos rfl, hma]
    dsimp only
    rw [e1]
    exact hc
  · rcases hor with e | ⟨hlt, _⟩
    · rw [e]
      exact hlead.commitIndex
    · exact Nat.le_trans hlead.commitIndex (Nat.le_of_lt hlt)

end Leader

/-! ## 3. The follower's side -/

/-- What the log `lf` of the follower is to the leader's: where both have an entry of the same term,
    they agree up to there; and the follower's snapshot is below the leader's, or an index of its
    log. -/
structure Follows (l : List (LogEntry Cmd)) (S T : ℕ) (lf : List (LogEntry Cmd))
    (f : Raft NodeID Cmd) : Prop where
  views : Views lf f
  term : f.term ≤ T
  matching : ∀ i, S < i → f.snapshotIndex < i → i ≤ l.length → i ≤ lf.length →
    termAt tm l i = termAt tm lf i → ∀ j, j ≤ i → S < j → f.snapshotIndex < j →
      l[j - 1]? = lf[j - 1]?
  boundary : f.snapshotIndex < S ∨ S ≤ f.snapshotIndex ∧ f.snapshotIndex ≤ l.length ∧
    termAt tm l f.snapshotIndex = termAt tm lf f.snapshotIndex

/-- The follower has the leader's log, as far as neither is compacted. -/
structure Caught (l : List (LogEntry Cmd)) (S : ℕ) (lf : List (LogEntry Cmd))
    (f : Raft NodeID Cmd) : Prop where
  views : Views lf f
  agree : ∀ j, j ≤ l.length → S < j → f.snapshotIndex < j → l[j - 1]? = lf[j - 1]?

section Follower

variable {l lf : List (LogEntry Cmd)} {S T : ℕ} {f : Raft NodeID Cmd} {me : NodeID}

/-- What the hypotheses on the two servers say about their full logs. -/
theorem Follows.of_logs {L : Raft NodeID Cmd} (hl : Views l L) (hlf : Views lf f)
    (hterm : f.term ≤ L.term)
    (hmatch : ∀ i e e', L.snapshotIndex < i → f.snapshotIndex < i → L.logAt i = some e →
      f.logAt i = some e' → e.term = e'.term → ∀ j, j ≤ i → L.snapshotIndex < j →
        f.snapshotIndex < j → f.logAt j = L.logAt j)
    (hbound : f.snapshotIndex < L.snapshotIndex ∨ ∃ e e', L.logAt f.snapshotIndex = some e ∧
      f.logAt f.snapshotIndex = some e' ∧ e.term = e'.term) :
    Follows l L.snapshotIndex L.term lf f := by
  refine ⟨hlf, hterm, ?_, ?_⟩
  · intro i h1 h2 h3 h4 h5 j h6 h7 h8
    obtain ⟨e, he, hte, _⟩ := hl.logAt (i := i) (by omega) h3
    obtain ⟨e', he', hte', _⟩ := hlf.logAt (i := i) (by omega) h4
    have hj := hmatch i e e' h1 h2 he he' (by rw [hte, hte', h5]) j h6 h7 h8
    obtain ⟨x, hx, _, hget⟩ := hl.logAt (i := j) (by omega) (by omega)
    obtain ⟨y, hy, _, hget'⟩ := hlf.logAt (i := j) (by omega) (by omega)
    rw [hget h7, hget' h8, ← hx, ← hy]
    exact hj.symm
  · refine hbound.imp_right fun ⟨e, e', he, he', hee⟩ => ?_
    obtain ⟨h1, h2, hte, _⟩ := hl.of_logAt he
    obtain ⟨_, _, hte', _⟩ := hlf.of_logAt he'
    exact ⟨h1, h2, by rw [← hte, ← hte', hee]⟩

theorem Follows.congr {f' : Raft NodeID Cmd} (h : Follows l S T lf f) (h1 : f'.logs = f.logs)
    (h2 : f'.snapshotIndex = f.snapshotIndex) (h3 : f'.term ≤ T) : Follows l S T lf f' := by
  refine ⟨h.views.congr h1 h2, h3, ?_, ?_⟩
  · rw [h2]
    exact h.matching
  · rw [h2]
    exact h.boundary

/-- The follower once it has accepted the leader. -/
theorem Follows.acceptLeader (h : Follows l S T lf f) (me : NodeID) :
    Follows l S T lf (f.acceptLeader T me) ∧ (f.acceptLeader T me).term = T ∧
      (f.acceptLeader T me).snapshotIndex = f.snapshotIndex := by
  have hle := h.term
  unfold Raft.acceptLeader
  by_cases ht : T > f.term
  · simp only [if_pos ht]
    exact ⟨h.congr rfl rfl (Nat.le_refl T), rfl, rfl⟩
  · simp only [if_neg ht]
    exact ⟨h.congr rfl rfl hle, Nat.le_antisymm hle (Nat.le_of_not_lt ht), rfl⟩

theorem handler_eq (h : Follows l S T lf f) {args : AppendEntries NodeID Cmd}
    (hterm : args.term = T) (hid : args.leaderId = me) :
    f.appendEntriesHandler args = match args.snapshot with
      | some snapshot => (f.acceptLeader T me).installSnapshot args snapshot
      | none => (f.acceptLeader T me).appendOrReject args := by
  subst hterm hid
  exact if_neg (Nat.not_lt.mpr h.term)

/-- What is left of the log after the snapshot is in. -/
theorem Follows.installed (h : Follows l S T lf f) (hS : f.snapshotIndex < S) (hl : S ≤ l.length)
    (args : AppendEntries NodeID Cmd) (hsi : args.snapshotIndex = S)
    (hst : args.snapshotTerm = termAt tm l S) (data : Bytes) :
    ∃ lf', f.installSnapshot args data =
        some (f.saved S (termAt tm l S) data (lf'.drop S) (max f.commitIndex S),
          ⟨f.term, true, S⟩) ∧
      S ≤ lf'.length ∧ termAt tm lf' S = termAt tm l S ∧
      ∀ i, S < i → i ≤ lf'.length → lf' = lf := by
  have hlen : f.logs.length = lf.length - f.snapshotIndex + 1 := by
    rw [h.views.logs, length_compact]
  have hle := h.views.le
  have hnew : ¬ S ≤ f.snapshotIndex := Nat.not_le.mpr hS
  -- the log is cut off, or it is kept behind the entry of the snapshot
  have hcut : f.holdsSnapshotEntry args = some false → ∃ lf', f.installSnapshot args data =
        some (f.saved S (termAt tm l S) data (lf'.drop S) (max f.commitIndex S),
          ⟨f.term, true, S⟩) ∧
      S ≤ lf'.length ∧ termAt tm lf' S = termAt tm l S ∧
      ∀ i, S < i → i ≤ lf'.length → lf' = lf := by
    intro hkeep
    refine ⟨l.take S, ?_, by simp [hl], ?_, ?_⟩
    · simp [Raft.installSnapshot, hsi, hst, hnew, hkeep, Raft.saved]
    · exact termAt_isPrefix (List.take_prefix _ _) (by simp [hl])
    · intro i h1 h2
      simp at h2
      omega
  by_cases hin : S ≤ lf.length
  · have hrel : f.relIdx S < f.logs.length := by
      unfold Raft.relIdx
      omega
    obtain ⟨e, he, hte, _⟩ := h.views.logAt (i := S) (by omega) hin
    by_cases hsame : e.term = termAt tm l S
    · have hkeep : f.holdsSnapshotEntry args = some true := by
        simp [Raft.holdsSnapshotEntry, hsi, hst, hrel, he, hsame]
      have hsuf := h.views.suffix (i := S) (by omega) hin
      refine ⟨lf, ?_, hin, hte.symm.trans hsame, fun _ _ _ => rfl⟩
      simp [Raft.installSnapshot, hsi, hst, hnew, hkeep, hsuf, Raft.saved]
    · refine hcut ?_
      simp [Raft.holdsSnapshotEntry, hsi, hst, hrel, he, hsame]
  · have hrel : ¬ f.relIdx S < f.logs.length := by
      unfold Raft.relIdx
      omega
    refine hcut ?_
    simp [Raft.holdsSnapshotEntry, hsi, hrel]

/-- **The snapshot**: afterwards the follower's is not below the leader's. -/
theorem Follows.installs (h : Follows l S T lf f) (hl : S ≤ l.length) (me : NodeID) (c : ℕ)
    (data : Bytes) :
    ∃ f' lf' m, f.appendEntriesHandler (shipArgs me l S T c data) = some (f', ⟨T, true, m⟩) ∧
      Follows l S T lf' f' ∧ S ≤ f'.snapshotIndex := by
  obtain ⟨h1, ht, hs⟩ := h.acceptLeader me
  rw [handler_eq h rfl rfl]
  dsimp only [shipArgs]
  generalize f.acceptLeader T me = f1 at h1 ht hs ⊢
  by_cases hstale : S ≤ f1.snapshotIndex
  · refine ⟨f1, lf, f1.snapshotIndex, ?_, h1, hstale⟩
    rw [Raft.installSnapshot, if_pos hstale, ht]
  · obtain ⟨lf', hrun, hlen, hterm, hsame⟩ := h1.installed (Nat.lt_of_not_le hstale) hl
      (shipArgs me l S T c data) rfl rfl data
    rw [ht] at hrun
    refine ⟨_, lf', S, hrun, ⟨⟨?_, hlen⟩, Nat.le_of_eq ht, ?_, ?_⟩, Nat.le_refl S⟩
    · show LogEntry.sentinel (termAt tm l S) :: lf'.drop S = compact lf' S
      rw [compact, hterm]
    · intro i h2 _ h4 h5 h6 j h7 h8 _
      have e := hsame i h2 h5
      rw [e] at h5 h6 ⊢
      exact h1.matching i h2 (by omega) h4 h5 h6 j h7 h8 (by omega)
    · exact .inr ⟨Nat.le_refl S, hl, hterm.symm⟩

/-- The probe is accepted: the entries are matched and the rest is appended. -/
theorem Follows.appends (h : Follows l S T lf f) (prev : ℕ) (args : AppendEntries NodeID Cmd)
    (hprev : args.prevLogIndex = prev) (hes : args.entries = l.drop prev) (hl : prev ≤ l.length)
    (h1 : f.snapshotIndex ≤ prev) (h2 : prev ≤ lf.length)
    (hterm : termAt tm l prev = termAt tm lf prev) :
    ∃ f' lf', f.appendNew args = some f' ∧ f'.term = f.term ∧ Caught l S lf' f' := by
  obtain ⟨j, hj, hjl, hjb, hjm, _⟩ := h.views.matchingEntries_spec h1 args.entries 0 (by omega)
  simp only [Nat.zero_add, Nat.add_zero] at hj hjb hjm
  have hlen : args.entries.length = l.length - prev := by
    rw [hes, List.length_drop]
  -- the terms are equal at the last matching index, so the logs agree up to it
  have hlast : termAt tm l (prev + j) = termAt tm lf (prev + j) := by
    cases j with
    | zero => exact hterm
    | succ j =>
        obtain ⟨e, he, hte⟩ := hjm j (Nat.lt_succ_self j)
        rw [hes, List.getElem?_drop] at he
        rw [← Nat.add_assoc, hte, termAt_succ, he]
        rfl
  have hagree : ∀ k, k ≤ prev + j → S < k → f.snapshotIndex < k → l[k - 1]? = lf[k - 1]? := by
    intro k h3 h4 h5
    exact h.matching (prev + j) (by omega) (by omega) (by omega) hjb hlast k h3 h4 h5
  have hkept : prev + j = l.length → Caught l S lf f := by
    intro e
    exact ⟨h.views, fun k h3 h4 h5 => hagree k (by omega) h4 h5⟩
  unfold Raft.appendNew
  by_cases hpos : args.entries.length > 0
  · rw [if_pos hpos, hprev, hj]
    simp only [Option.bind_eq_bind, Option.bind_some]
    by_cases hlt : j < args.entries.length
    · have hup := h.views.upto (k := prev + j) (by omega) hjb
      rw [show prev + 1 + j = prev + j + 1 by omega] at *
      rw [if_pos hlt, hup]
      refine ⟨_, lf.take (prev + j) ++ l.drop (prev + j), rfl, rfl, ⟨?_, ?_⟩, ?_⟩
      · show compact (lf.take (prev + j)) f.snapshotIndex ++ args.entries.drop j = _
        rw [compact_append (by simp; omega), hes, List.drop_drop]
      · simp
        omega
      · intro k h3 h4 h5
        by_cases hk : k ≤ prev + j
        · rw [hagree k hk h4 h5, List.getElem?_append_left (by simp; omega),
            List.getElem?_take_of_lt (by omega)]
        · rw [List.getElem?_append_right (by simp; omega), List.getElem?_drop]
          congr 1
          simp
          omega
    · rw [if_neg hlt]
      exact ⟨f, lf, rfl, rfl, hkept (by omega)⟩
  · rw [if_neg hpos]
    exact ⟨f, lf, rfl, rfl, hkept (by omega)⟩

/-- **A probe** is rejected with an index that is lower, or the follower's snapshot if that is
    higher; or the follower has the leader's log. -/
theorem Follows.probed (h : Follows l S T lf f) {prev : ℕ} (hl : prev ≤ l.length)
    (hS : S ≤ prev) (me : NodeID) (c : ℕ) :
    (∃ f' m, f.appendEntriesHandler (probeArgs me l S T prev c) = some (f', ⟨T, false, m⟩) ∧
      Follows l S T lf f' ∧ f'.snapshotIndex = f.snapshotIndex ∧
      (prev < f.snapshotIndex ∧ m = f.snapshotIndex ∨ f.snapshotIndex < prev ∧ m < prev)) ∨
    ∃ f' lf', f.appendEntriesHandler (probeArgs me l S T prev c) = some (f', ⟨T, true, 0⟩) ∧
      Caught l S lf' f' := by
  obtain ⟨h1, ht, hs⟩ := h.acceptLeader me
  rw [handler_eq h rfl rfl, ← hs]
  dsimp only [probeArgs]
  generalize f.acceptLeader T me = f1 at h1 ht ⊢
  have hlast := h1.views.lastLogIndex
  unfold Raft.appendOrReject
  dsimp only
  by_cases hlow : prev < f1.snapshotIndex
  · rw [if_pos hlow, ht]
    exact .inl ⟨f1, f1.snapshotIndex, rfl, h1, rfl, .inl ⟨hlow, rfl⟩⟩
  rw [if_neg hlow]
  have hle := h1.views.le
  by_cases hshort : prev > f1.lastLogIndex
  · rw [if_pos hshort, ht]
    exact .inl ⟨f1, f1.lastLogIndex, rfl, h1, rfl, .inr ⟨by omega, hshort⟩⟩
  rw [if_neg hshort]
  obtain ⟨e, he, hte, _⟩ := h1.views.logAt (i := prev) (by omega) (by omega)
  rw [he]
  simp only [Option.bind_eq_bind, Option.bind_some]
  by_cases hconf : e.term ≠ termAt tm l prev
  · -- the snapshots agree where they meet, so the conflict is above the follower's
    have habove : f1.snapshotIndex < prev := by
      refine Nat.lt_of_le_of_ne (Nat.le_of_not_lt hlow) fun e' => hconf ?_
      rcases h1.boundary with hb | ⟨_, _, hb⟩
      · omega
      · rw [hte, ← e']
        exact hb.symm
    obtain ⟨i, rfl⟩ : ∃ i, prev = i + 1 := ⟨prev - 1, by omega⟩
    obtain ⟨m, hm, hmi⟩ := h1.views.skipConflictTerm_some e.term i (by omega)
    have hskip : f1.skipConflictTerm e.term (i + 1) = some m := by
      rw [Raft.skipConflictTerm, if_pos habove, he]
      simp [hm]
    rw [if_pos hconf, hskip, ht]
    exact .inl ⟨f1, m, rfl, h1, rfl, .inr ⟨habove, by omega⟩⟩
  · obtain ⟨f2, lf', happ, hterm, hv⟩ := h1.appends prev (probeArgs me l S T prev c) rfl rfl hl
      (by omega) (by omega) ((not_not.mp hconf).symm.trans hte)
    rw [probeArgs] at happ
    rw [if_neg hconf, happ, ← ht, ← hterm]
    simp only [Option.bind_some]
    split
    · exact .inr ⟨_, lf', rfl, hv.views.congr rfl rfl, hv.agree⟩
    · exact .inr ⟨f2, lf', rfl, hv⟩

end Follower

/-! ## 4. The rounds together -/

section Rounds

variable [DecidableEq NodeID] (me F : NodeID) (nodeIDs : List NodeID)
variable {l lf : List (LogEntry Cmd)} {S T : ℕ} {L f : Raft NodeID Cmd}

/-- After at most `n` rounds the follower has the log and the leader knows it. -/
def DoneIn (l : List (LogEntry Cmd)) (S T n : ℕ)
    (x : Raft NodeID Cmd × Raft NodeID Cmd) : Prop :=
  ∃ k, k ≤ n ∧ ∃ L' f' lf', roundTrips me F nodeIDs k x = some (L', f') ∧ Leads l S T L' ∧
    L'.matchIndex F = l.length ∧ Caught l S lf' f'

variable {me F nodeIDs} in
theorem DoneIn.round {x y : Raft NodeID Cmd × Raft NodeID Cmd} {n : ℕ}
    (h : DoneIn me F nodeIDs l S T n y) (hr : roundTrip me F nodeIDs x = some y) :
    DoneIn me F nodeIDs l S T (n + 1) x := by
  obtain ⟨k, hk, L', f', lf', hrun, hrest⟩ := h
  refine ⟨k + 1, Nat.succ_le_succ hk, L', f', lf', ?_, hrest⟩
  rw [roundTrips, hr]
  exact hrun

variable {me F nodeIDs} in
theorem DoneIn.mono {x : Raft NodeID Cmd × Raft NodeID Cmd} {n m : ℕ}
    (h : DoneIn me F nodeIDs l S T n x) (hm : n ≤ m) : DoneIn me F nodeIDs l S T m x := by
  obtain ⟨k, hk, hrest⟩ := h
  exact ⟨k, Nat.le_trans hk hm, hrest⟩

/-- **A round with a probe**: it was the last one, or the probe has moved. -/
theorem probe_round (hL : Leads l S T L) (hf : Follows l S T lf f) {prev : ℕ}
    (hprev : prev = min (L.nextIndex F - 1) l.length) (h1 : 1 ≤ L.nextIndex F) (hS : S ≤ prev)
    (hm : L.matchIndex F ≤ prev) :
    DoneIn me F nodeIDs l S T 1 (L, f) ∨
    ∃ f' m, roundTrip me F nodeIDs (L, f) =
        some ({ L with nextIndex := Function.update L.nextIndex F (m + 1) }, f') ∧
      Follows l S T lf f' ∧ f'.snapshotIndex = f.snapshotIndex ∧
      (prev < f.snapshotIndex ∧ m = f.snapshotIndex ∨ f.snapshotIndex < prev ∧ m < prev) := by
  have hargs := hL.probe me hprev h1 hS
  have hlen : prev ≤ l.length := by omega
  rcases hf.probed hlen hS me L.commitIndex with
    ⟨f', m, hrun, hf', hsnap, hor⟩ | ⟨f', lf', hrun, hcaught⟩
  · refine .inr ⟨f', m, ?_, hf', hsnap, hor⟩
    have hsend := hL.rejected me nodeIDs (probeArgs me l S T prev L.commitIndex) m rfl hm
    simp [roundTrip, hargs, hrun, hsend]
  · have hnew : Raft.newMatch (probeArgs me l S T prev L.commitIndex) = l.length := by
      simp [Raft.newMatch, probeArgs]
      omega
    have hup : L.matchIndex F ≤ Raft.newMatch (probeArgs me l S T prev L.commitIndex) := by
      omega
    obtain ⟨L', hsend, hL', hmatch, _⟩ := hL.accepted me nodeIDs _ 0 rfl hup
    refine .inl ⟨1, Nat.le_refl 1, L', f', lf', ?_, hL', hmatch.trans hnew, hcaught⟩
    simp [roundTrips, roundTrip, hargs, hrun, hsend]

/-- **A round with the snapshot.** -/
theorem ship_round (hL : Leads l S T L) (hf : Follows l S T lf f) (h1 : 1 ≤ L.nextIndex F)
    (hS : L.nextIndex F - 1 < S) (hm : L.matchIndex F ≤ S) :
    ∃ L' f' lf', roundTrip me F nodeIDs (L, f) = some (L', f') ∧ Leads l S T L' ∧
      L'.matchIndex F = S ∧ L'.nextIndex F = S + 1 ∧ Follows l S T lf' f' ∧
      S ≤ f'.snapshotIndex := by
  obtain ⟨data, hargs⟩ := hL.ship me h1 hS
  obtain ⟨f', lf', m, hrun, hf', hsnap⟩ := hf.installs hL.le_length me L.commitIndex data
  have hup : L.matchIndex F ≤ Raft.newMatch (shipArgs me l S T L.commitIndex data) := hm
  obtain ⟨L', hsend, hL', hmatch, hnext⟩ := hL.accepted me nodeIDs _ m rfl hup
  refine ⟨L', f', lf', ?_, hL', hmatch, hnext, hf', hsnap⟩
  simp [roundTrip, hargs, hrun, hsend]

/-- The probe at the follower's snapshot is accepted. -/
theorem done_at_snapshot (hL : Leads l S T L) (hf : Follows l S T lf f)
    (hn : L.nextIndex F = f.snapshotIndex + 1) (hS : S ≤ f.snapshotIndex)
    (hm : L.matchIndex F ≤ f.snapshotIndex) : DoneIn me F nodeIDs l S T 1 (L, f) := by
  have hlen : f.snapshotIndex ≤ l.length := by
    rcases hf.boundary with hb | ⟨_, hb, _⟩
    · omega
    · exact hb
  have hprev : f.snapshotIndex = min (L.nextIndex F - 1) l.length := by
    omega
  rcases probe_round me F nodeIDs hL hf hprev (by omega) hS hm with
    hdone | ⟨_, _, _, _, _, hlow | hlow⟩
  · exact hdone
  · omega
  · omega

/-- After the snapshot it takes two rounds: the follower may have compacted more. -/
theorem done_after_ship (hL : Leads l S T L) (hf : Follows l S T lf f)
    (hn : L.nextIndex F = S + 1) (hm : L.matchIndex F = S) (hS : S ≤ f.snapshotIndex) :
    DoneIn me F nodeIDs l S T 2 (L, f) := by
  have hle := hL.le_length
  have hprev : S = min (L.nextIndex F - 1) l.length := by
    omega
  rcases probe_round me F nodeIDs hL hf hprev (by omega) (Nat.le_refl S) (Nat.le_of_eq hm) with
    hdone | ⟨f', m, hr, hf', hsnap, hor⟩
  · exact hdone.mono (by omega)
  · obtain ⟨_, rfl⟩ | ⟨hlow, _⟩ := hor
    · refine DoneIn.round (done_at_snapshot me F nodeIDs (hL.withNext _) hf' ?_ ?_ ?_) hr
      · rw [hsnap]
        exact Function.update_self _ _ _
      · omega
      · rw [hsnap]
        exact hm.trans_le hS
    · omega

/-- **The search**, by induction on `nextIndex`: a rejection lowers it, or is one of the last. -/
theorem done_from : ∀ x {L f : Raft NodeID Cmd}, Leads l S T L → Follows l S T lf f →
    L.nextIndex F = x → 1 ≤ x → L.matchIndex F = 0 → DoneIn me F nodeIDs l S T (x + 2) (L, f) := by
  intro x
  induction x using Nat.strongRecOn with
  | ind x ih =>
      intro L f hL hf hx h1 hm
      by_cases hship : x - 1 < S
      · obtain ⟨L', f', lf', hr, hL', hm', hn', hf', hsnap⟩ := ship_round me F nodeIDs hL hf
          (by omega) (by omega) (by omega)
        exact ((done_after_ship me F nodeIDs hL' hf' hn' hm' hsnap).round hr).mono (by omega)
      · have hle := hL.le_length
        obtain ⟨prev, hprev⟩ : ∃ prev, prev = min (L.nextIndex F - 1) l.length := ⟨_, rfl⟩
        rcases probe_round me F nodeIDs hL hf hprev (by omega) (by omega) (by omega) with
          hdone | ⟨f', m, hr, hf', hsnap, ⟨hlow, rfl⟩ | ⟨_, hlow⟩⟩
        · exact hdone.mono (by omega)
        · -- the follower has compacted beyond the probe
          refine (DoneIn.round (done_at_snapshot me F nodeIDs (hL.withNext _) hf' ?_ ?_ ?_)
            hr).mono ?_
          · rw [hsnap]
            exact Function.update_self _ _ _
          · omega
          · show L.matchIndex F ≤ f'.snapshotIndex
            omega
          · omega
        · have hrest := ih (m + 1) (by omega) (hL.withNext (Function.update L.nextIndex F (m + 1)))
            hf' (Function.update_self _ _ _) (by omega) hm
          exact (hrest.round hr).mono (by omega)

/-- **Log reconciliation terminates**: a leader just elected, with any follower whose log matches
    its own, is done after at most `lastLogIndex + 3` round trips. -/
theorem reconciliation_terminates (hL : LogOk L) (hf : LogOk f) (hrole : L.customerId = .leader)
    (hm : L.matchIndex F = 0) (hn : L.nextIndex F = L.lastLogIndex + 1)
    (hsnap : 0 < L.snapshotIndex → ∃ data, L.snapshot = some data ∧ data ≠ [])
    (hterm : f.term ≤ L.term)
    (hmatch : ∀ i e e', L.snapshotIndex < i → f.snapshotIndex < i → L.logAt i = some e →
      f.logAt i = some e' → e.term = e'.term → ∀ j, j ≤ i → L.snapshotIndex < j →
        f.snapshotIndex < j → f.logAt j = L.logAt j)
    (hbound : f.snapshotIndex < L.snapshotIndex ∨ ∃ e e', L.logAt f.snapshotIndex = some e ∧
      f.logAt f.snapshotIndex = some e' ∧ e.term = e'.term) :
    ∃ k, k ≤ L.lastLogIndex + 3 ∧ ∃ L' f', roundTrips me F nodeIDs k (L, f) = some (L', f') ∧
      L'.logs = L.logs ∧ L'.snapshotIndex = L.snapshotIndex ∧
      L'.matchIndex F = L.lastLogIndex ∧
      ∀ j, j ≤ L.lastLogIndex → L.snapshotIndex < j → f'.snapshotIndex < j →
        ∃ e, L.logAt j = some e ∧ f'.logAt j = some e := by
  obtain ⟨l, hl⟩ := hL.views
  obtain ⟨lf, hlf⟩ := hf.views
  have hlead : Leads l L.snapshotIndex L.term L := by
    refine ⟨hl, rfl, rfl, hrole, fun hpos => ?_, hL.commitIndex⟩
    obtain ⟨data, hdata, _⟩ := hsnap hpos
    simp [hdata]
  obtain ⟨k, hk, L', f', lf', hrun, hL', hm', hcaught⟩ := done_from me F nodeIDs _ hlead
    (.of_logs hl hlf hterm hmatch hbound) hn (by omega) hm
  refine ⟨k, hk, L', f', hrun, ?_, hL'.snapshotIndex, ?_, ?_⟩
  · rw [hL'.views.logs, hl.logs, hL'.snapshotIndex]
  · rw [hm', hl.lastLogIndex]
  · intro j h1 h2 h3
    rw [hl.lastLogIndex] at h1
    obtain ⟨x, hx, _, hget⟩ := hl.logAt (i := j) (by omega) h1
    have hlt : j - 1 < lf'.length := by
      have hsome := (hcaught.agree j h1 h2 h3).symm.trans (hget h2)
      exact (List.getElem?_eq_some_iff.mp hsome).1
    obtain ⟨y, hy, _, hget'⟩ := hcaught.views.logAt (i := j) (by omega) (by omega)
    have hxy := hcaught.agree j h1 h2 h3
    rw [hget h2, hget' h3] at hxy
    rw [← Option.some.inj hxy] at hy
    exact ⟨x, hx, hy⟩

end Rounds

/-- A leader of term 3 that has compacted index 1. -/
def newLeader : Raft ℕ ℕ :=
  { Raft.makeWithWAL ⟨3, some 0, [.sentinel 1, ⟨7, 1⟩, ⟨8, 3⟩], 1, some [0]⟩ with
    customerId := .leader
    leaderId := some 0
    nextIndex := fun _ => 4 }

/-- A follower with two entries of term 2 that no other server has. -/
def oldFollower : Raft ℕ ℕ :=
  Raft.makeWithWAL ⟨2, none, [.sentinel 0, ⟨6, 1⟩, ⟨7, 1⟩, ⟨9, 2⟩, ⟨9, 2⟩], 0, none⟩

theorem reconciliation_of_three : ∃ k, k ≤ 6 ∧ ∃ L' f',
    roundTrips 0 1 [0, 1, 2] k (newLeader, oldFollower) = some (L', f') ∧ L'.matchIndex 1 = 3 ∧
      (f'.snapshotIndex < 3 → f'.logAt 3 = some ⟨8, 3⟩) := by
  have hmatch : ∀ i e e', 1 < i → 0 < i → newLeader.logAt i = some e →
      oldFollower.logAt i = some e' → e.term = e'.term → ∀ j, j ≤ i → 1 < j → 0 < j →
        oldFollower.logAt j = newLeader.logAt j := by
    intro i e e' h1 _ he he' hee j h3 h4 _
    match i, h1 with
    | 2, _ =>
        obtain rfl : j = 2 := by omega
        rfl
    | 3, _ =>
        cases he
        cases he'
        cases hee
    | i + 4, _ =>
        have hnone : newLeader.logAt (i + 4) = none := by
          simp [Raft.logAt, Raft.relIdx, newLeader, Raft.makeWithWAL, Slice.index]
          omega
        rw [hnone] at he
        cases he
  obtain ⟨k, hk, L', f', hrun, _, _, hm, hlog⟩ := reconciliation_terminates 0 1 [0, 1, 2]
    (L := newLeader) (f := oldFollower) ⟨⟨1, _, rfl, by decide⟩, by decide⟩
    ⟨⟨0, _, rfl, fun _ => rfl⟩, by decide⟩ rfl rfl rfl (fun _ => ⟨[0], rfl, by decide⟩)
    (by decide) hmatch (.inl (by decide))
  refine ⟨k, hk, L', f', hrun, hm, fun h => ?_⟩
  obtain ⟨e, he, he'⟩ := hlog 3 (by decide) (by decide) h
  cases he
  exact he'

end RaftLab.Raft1

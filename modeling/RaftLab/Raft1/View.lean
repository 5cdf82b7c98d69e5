/-
  File:      RaftLab/Raft1/View.lean
  Subject:   How a compacted log reads as a full one, and what every critical section computes in
             those terms.

  A server keeps `compact l s`: a sentinel that carries the term at `s`, then the entries of the
  full log `l` above `s`. `Views l rf` says that `rf` keeps `l` so. Under it no index or slice
  expression of the source is out of range, and each function has one lemma that says its result
  through `l` and absolute indexes:

  * `Views.logAt`, `Views.lastLogIndex`, `Views.lastLogTerm`, `Views.suffix`, `Views.upto` -- the
    log index helpers and the three slice shapes;
  * `matchingEntries_spec`, `skipConflictTerm_some` -- the two loops of `AppendEntriesHandler`;
  * `advanceCommit_spec` -- the commit loop;
  * `heartbeatArgs_spec`, `sendApplyMsg_spec` -- what is shipped and what is applied.
-/
import RaftLab.Raft1.Cluster
import RaftLab.Lib.TermLogSafety

namespace RaftLab.Raft1

open RaftLab.Lib

variable {NodeID Cmd : Type} [Inhabited Cmd]

/-- The term of an entry, as the term log reads it. -/
abbrev tm : LogEntry Cmd → ℕ := LogEntry.term

/-- The log a server keeps of `l` once everything up to `s` is in its snapshot. -/
def compact (l : List (LogEntry Cmd)) (s : ℕ) : List (LogEntry Cmd) :=
  .sentinel (termAt tm l s) :: l.drop s

@[simp] theorem length_compact (l : List (LogEntry Cmd)) (s : ℕ) :
    (compact l s).length = l.length - s + 1 := by simp [compact]

/-- The compacted log of an extension. -/
theorem compact_append {l : List (LogEntry Cmd)} {s : ℕ} (hs : s ≤ l.length)
    (es : List (LogEntry Cmd)) : compact l s ++ es = compact (l ++ es) s := by
  have ht : termAt tm l s = termAt tm (l ++ es) s := termAt_isPrefix (List.prefix_append _ _) hs
  simp [compact, ht, List.drop_append_of_le_length hs]

/-- The compacted log of a shorter log. -/
theorem take_compact {l : List (LogEntry Cmd)} {s k : ℕ} (hsk : s ≤ k) (hk : k ≤ l.length) :
    (compact l s).take (k + 1 - s) = compact (l.take k) s := by
  have ht : termAt tm (l.take k) s = termAt tm l s :=
    termAt_isPrefix (List.take_prefix _ _) (by simp; omega)
  have e : k + 1 - s = (k - s) + 1 := by omega
  rw [e]
  simp [compact, ht, List.drop_take]

/-- The server once `beginElectionLocked` has made it a candidate. -/
def Raft.campaign (me : NodeID) (rf : Raft NodeID Cmd) : Raft NodeID Cmd :=
  let rf : Raft NodeID Cmd := { rf with
    term := rf.term + 1
    customerId := .candidate
    leaderId := none
    voteFor := some me
    voteCount := 1
    wal := rf.wal ++ [.saveMeta (rf.term + 1) (some me)] }
  rf.resetElectionTimerLocked

/-- Server `rf` keeps the full log `l`. -/
structure Views (l : List (LogEntry Cmd)) (rf : Raft NodeID Cmd) : Prop where
  logs : rf.logs = compact l rf.snapshotIndex
  le : rf.snapshotIndex ≤ l.length

namespace Views

variable {l : List (LogEntry Cmd)} {rf : Raft NodeID Cmd}

/-! ## 1. Index helpers and slices -/

theorem lastLogIndex (h : Views l rf) : rf.lastLogIndex = l.length := by
  have := h.le
  simp [Raft.lastLogIndex, h.logs]
  omega

theorem lastLogTerm (h : Views l rf) : rf.lastLogTerm = some (lastTerm tm l) := by
  have hle := h.le
  have hlen : ((rf.logs.length : Int) - 1) = ((l.length - rf.snapshotIndex : ℕ) : Int) := by
    rw [h.logs, length_compact]
    omega
  unfold Raft.lastLogTerm
  rw [hlen, Slice.index_natCast, h.logs]
  rcases Nat.eq_or_lt_of_le hle with e | hlt
  · simp [compact, e, lastTerm, LogEntry.sentinel]
  · obtain ⟨d, hd⟩ : ∃ d, l.length = rf.snapshotIndex + d + 1 :=
      ⟨l.length - rf.snapshotIndex - 1, by omega⟩
    have e1 : l.length - rf.snapshotIndex = d + 1 := by omega
    have hlt' : rf.snapshotIndex + d < l.length := by omega
    have e2 : lastTerm tm l = tm l[rf.snapshotIndex + d] := by
      unfold lastTerm
      rw [hd, termAt_succ, List.getElem?_eq_getElem hlt']
      rfl
    rw [e1, e2]
    simp [compact, List.getElem?_eq_getElem hlt']

/-- An index the log represents: the entry there, the sentinel at the snapshot. -/
theorem logAt (h : Views l rf) {i : ℕ} (h1 : rf.snapshotIndex ≤ i) (h2 : i ≤ l.length) :
    ∃ e, rf.logAt i = some e ∧ e.term = termAt tm l i ∧
      (rf.snapshotIndex < i → l[i - 1]? = some e) := by
  have hrel : rf.relIdx i = ((i - rf.snapshotIndex : ℕ) : Int) := by
    unfold Raft.relIdx
    omega
  unfold Raft.logAt
  rw [hrel, Slice.index_natCast, h.logs]
  rcases Nat.eq_or_lt_of_le h1 with e | hlt
  · refine ⟨.sentinel (termAt tm l rf.snapshotIndex), by simp [compact, e], by rw [e]; rfl, ?_⟩
    intro h3
    omega
  · obtain ⟨d, hd⟩ : ∃ d, i = rf.snapshotIndex + d + 1 := ⟨i - rf.snapshotIndex - 1, by omega⟩
    subst hd
    have hlt' : rf.snapshotIndex + d < l.length := by omega
    have e1 : rf.snapshotIndex + d + 1 - rf.snapshotIndex = d + 1 := by omega
    refine ⟨l[rf.snapshotIndex + d], ?_, ?_, fun _ => ?_⟩
    · simp [compact, e1, List.getElem?_eq_getElem hlt']
    · simp [termAt_succ, List.getElem?_eq_getElem hlt']
    · simp [List.getElem?_eq_getElem hlt']

/-- Two servers hold the same entry where their logs agree and neither has compacted. -/
theorem agree {l' : List (LogEntry Cmd)} {rf' : Raft NodeID Cmd} (h : Views l rf)
    (h' : Views l' rf') {i : ℕ} (h1 : rf.snapshotIndex < i) (h2 : rf'.snapshotIndex < i)
    (hi : i ≤ l.length) (hp : l.take i <+: l') :
    ∃ e, rf.logAt i = some e ∧ rf'.logAt i = some e := by
  have hlen : (l.take i).length = i := List.length_take_of_le hi
  have hi' : i ≤ l'.length := hlen ▸ hp.length_le
  obtain ⟨x, hx, _, hget⟩ := h.logAt h1.le hi
  obtain ⟨y, hy, _, hget'⟩ := h'.logAt h2.le hi'
  have hxy : l[i - 1]? = l'[i - 1]? := by
    have hlt : i - 1 < i := by omega
    obtain ⟨r, hr⟩ := hp
    rw [← hr, List.getElem?_append_left (by omega), List.getElem?_take_of_lt hlt]
  rw [hget h1, hget' h2] at hxy
  rw [← Option.some.inj hxy] at hy
  exact ⟨x, hx, hy⟩

/-- An index with an entry is one the log represents. -/
theorem of_logAt (h : Views l rf) {i : ℕ} {e : LogEntry Cmd} (he : rf.logAt i = some e) :
    rf.snapshotIndex ≤ i ∧ i ≤ l.length ∧ e.term = termAt tm l i ∧
      (rf.snapshotIndex < i → l[i - 1]? = some e) := by
  have hlow : rf.snapshotIndex ≤ i := by
    refine Classical.byContradiction fun hlt => ?_
    have hneg : rf.relIdx i < 0 := by
      unfold Raft.relIdx
      omega
    unfold Raft.logAt Slice.index at he
    rw [if_neg (by omega)] at he
    cases he
  have hhigh : i ≤ l.length := by
    refine Classical.byContradiction fun hgt => ?_
    have hrel : rf.relIdx i = ((i - rf.snapshotIndex : ℕ) : Int) := by
      unfold Raft.relIdx
      omega
    unfold Raft.logAt at he
    rw [hrel, Slice.index_natCast, h.logs, List.getElem?_eq_none] at he
    · cases he
    · have hle := h.le
      rw [length_compact]
      omega
  obtain ⟨e', he', hte, hget⟩ := h.logAt hlow hhigh
  obtain rfl : e' = e := Option.some.inj (he'.symm.trans he)
  exact ⟨hlow, hhigh, hte, hget⟩

/-- `rf.logs[rf.relIdx(i)+1:]` -/
theorem suffix (h : Views l rf) {i : ℕ} (h1 : rf.snapshotIndex ≤ i) (h2 : i ≤ l.length) :
    Slice.from? rf.logs (rf.relIdx i + 1) = some (l.drop i) := by
  have hrel : rf.relIdx i + 1 = ((i - rf.snapshotIndex + 1 : ℕ) : Int) := by
    unfold Raft.relIdx
    omega
  rw [hrel, Slice.from?_natCast (by rw [h.logs, length_compact]; omega), h.logs]
  simp only [compact, List.drop_succ_cons, List.drop_drop]
  congr 2
  omega

/-- `rf.logs[:rf.relIdx(k+1)]` -/
theorem upto (h : Views l rf) {k : ℕ} (h1 : rf.snapshotIndex ≤ k) (h2 : k ≤ l.length) :
    Slice.upto? rf.logs (rf.relIdx (k + 1)) = some (compact (l.take k) rf.snapshotIndex) := by
  have hrel : rf.relIdx (k + 1) = ((k + 1 - rf.snapshotIndex : ℕ) : Int) := by
    unfold Raft.relIdx
    omega
  rw [hrel, Slice.upto?_natCast (by rw [h.logs, length_compact]; omega), h.logs,
    take_compact h1 h2]

theorem first (h : Views l rf) :
    Slice.index rf.logs 0 = some (.sentinel (termAt tm l rf.snapshotIndex)) := by
  simp [Slice.index, h.logs, compact]

/-- The view reads the log and its base only. -/
theorem congr (h : Views l rf) {rf' : Raft NodeID Cmd} (h1 : rf'.logs = rf.logs)
    (h2 : rf'.snapshotIndex = rf.snapshotIndex) : Views l rf' :=
  ⟨by rw [h1, h2]; exact h.logs, by rw [h2]; exact h.le⟩

theorem beginElectionLocked (h : Views l rf) (me : NodeID) :
    rf.beginElectionLocked me =
      some (rf.campaign me, ⟨rf.term + 1, rf.lastLogIndex, lastTerm tm l⟩) := by
  have hlast : (rf.campaign me).lastLogTerm = some (lastTerm tm l) := h.lastLogTerm
  show (rf.campaign me).lastLogTerm.bind _ = _
  rw [hlast]
  rfl

/-! ## 2. The loops of `AppendEntriesHandler` -/

/-- **The skip loop stays in range** and answers an index at or below its start. -/
theorem skipConflictTerm_some (h : Views l rf) (conflictTerm : ℕ) (i : ℕ) (hi : i ≤ l.length) :
    ∃ m, rf.skipConflictTerm conflictTerm i = some m ∧ m ≤ i := by
  induction i with
  | zero => exact ⟨0, rfl, le_refl _⟩
  | succ i ih =>
      unfold Raft.skipConflictTerm
      by_cases hs : i + 1 > rf.snapshotIndex
      · obtain ⟨e, he, _, _⟩ := h.logAt (by omega) hi
        obtain ⟨m, hm, hmi⟩ := ih (by omega)
        rw [if_pos hs, he]
        by_cases ht : e.term ≠ conflictTerm
        · exact ⟨i + 1, by simp [ht], le_refl _⟩
        · exact ⟨m, by simp [ht, hm], by omega⟩
      · exact ⟨0, by simp [hs], by omega⟩

/-- **The matching loop**: it counts the entries the log holds by term, and stops at the end of
    the log, at the end of the entries, or at the first term that differs. -/
theorem matchingEntries_spec (h : Views l rf) {prev : ℕ} (h1 : rf.snapshotIndex ≤ prev)
    (es : List (LogEntry Cmd)) (i : ℕ) (hi : prev + i ≤ l.length) :
    ∃ j, rf.matchingEntries prev es i = some (i + j) ∧ j ≤ es.length ∧
      prev + i + j ≤ l.length ∧
      (∀ m, m < j → ∃ e, es[m]? = some e ∧ termAt tm l (prev + i + m + 1) = e.term) ∧
      (∀ e, es[j]? = some e →
        prev + i + j = l.length ∨ termAt tm l (prev + i + j + 1) ≠ e.term) := by
  induction es generalizing i with
  | nil =>
      exact ⟨0, rfl, by simp, hi, fun m hm => absurd hm (by omega), fun e he => by simp at he⟩
  | cons entry rest ih =>
      unfold Raft.matchingEntries
      by_cases hend : prev + 1 + i > rf.lastLogIndex
      · have hlen := h.lastLogIndex
        refine ⟨0, by simp [hend], by simp, hi, fun m hm => absurd hm (by omega), fun e _ => ?_⟩
        left
        omega
      · have hlen := h.lastLogIndex
        have hin : prev + 1 + i ≤ l.length := by omega
        obtain ⟨x, hx, hterm, _⟩ := h.logAt (by omega) hin
        have hidx : prev + 1 + i = prev + i + 1 := by omega
        simp only [if_neg hend, hx]
        by_cases ht : x.term ≠ entry.term
        · refine ⟨0, by simp [ht], by simp, hi, fun m hm => absurd hm (by omega), fun e he => ?_⟩
          right
          have e1 : e = entry := by simpa using he.symm
          rw [e1, Nat.add_zero, ← hidx, ← hterm]
          exact ht
        · obtain ⟨j, hj, hjl, hjb, hjm, hjs⟩ := ih (i + 1) (by omega)
          refine ⟨j + 1, ?_, by simp; omega, by omega, fun m hm => ?_, fun e he => ?_⟩
          · simp only [Option.bind_eq_bind, Option.bind_some, if_neg ht, hj]
            congr 1
            omega
          · cases m with
            | zero =>
                refine ⟨entry, rfl, ?_⟩
                rw [Nat.add_zero, ← hidx, ← hterm]
                exact not_not.mp ht
            | succ m =>
                obtain ⟨e, he, hte⟩ := hjm m (by omega)
                refine ⟨e, by simpa using he, ?_⟩
                rw [← hte]
                congr 1
                omega
          · have he' : rest[j]? = some e := by simpa using he
            rcases hjs e he' with h2 | h2
            · left
              omega
            · right
              have e2 : prev + i + (j + 1) + 1 = prev + (i + 1) + j + 1 := by omega
              rw [e2]
              exact h2

/-! ## 3. The commit loop -/

section Commit

variable [DecidableEq NodeID] (me : NodeID) (nodeIDs : List NodeID)

/-- Index `N` may be committed by the leader: an entry of its term, on more than half. -/
def Committable (l : List (LogEntry Cmd)) (rf : Raft NodeID Cmd) (N : ℕ) : Prop :=
  N ≤ l.length ∧ termAt tm l N = rf.term ∧ nodeIDs.length / 2 < rf.replicaCount me nodeIDs N

/-- One turn of the loop moves `commitIndex` to `N` or leaves it. -/
theorem tryCommit_spec (h : Views l rf) {N : ℕ} (h1 : rf.snapshotIndex ≤ N) (h2 : N ≤ l.length) :
    rf.tryCommit me nodeIDs N = some rf ∨
      (Committable me nodeIDs l rf N ∧
        rf.tryCommit me nodeIDs N = some { rf with commitIndex := N }) := by
  obtain ⟨e, he, hterm, _⟩ := h.logAt h1 h2
  unfold Raft.tryCommit
  rw [he]
  by_cases ht : e.term ≠ rf.term
  · left
    simp [ht]
  · by_cases hc : rf.replicaCount me nodeIDs N > nodeIDs.length / 2
    · right
      exact ⟨⟨h2, hterm ▸ not_not.mp ht, hc⟩, by simp [ht, hc]⟩
    · left
      simp [hc]

/-- The loop over any list of indexes the log represents. -/
theorem commitLoop_spec (h : Views l rf) (Ns : List ℕ) (c : ℕ)
    (hN : ∀ N ∈ Ns, rf.snapshotIndex ≤ N ∧ N ≤ l.length) :
    ∃ c', Ns.foldlM (Raft.tryCommit me nodeIDs) { rf with commitIndex := c } =
        some { rf with commitIndex := c' } ∧
      (c' = c ∨ (c' ∈ Ns ∧ Committable me nodeIDs l rf c')) := by
  induction Ns generalizing c with
  | nil => exact ⟨c, rfl, Or.inl rfl⟩
  | cons N Ns ih =>
      have hN' : ∀ M ∈ Ns, rf.snapshotIndex ≤ M ∧ M ≤ l.length := fun M hM =>
        hN M (List.mem_cons_of_mem _ hM)
      obtain ⟨h1, h2⟩ := hN N List.mem_cons_self
      have hv : Views l ({ rf with commitIndex := c } : Raft NodeID Cmd) := h.congr rfl rfl
      rw [List.foldlM_cons]
      rcases tryCommit_spec me nodeIDs hv h1 h2 with hs | ⟨hc, hs⟩
      · obtain ⟨c', hrun, hor⟩ := ih c hN'
        refine ⟨c', by rw [hs]; exact hrun, hor.imp id fun ⟨hm, hcm⟩ => ?_⟩
        exact ⟨List.mem_cons_of_mem _ hm, hcm⟩
      · obtain ⟨c', hrun, hor⟩ := ih N hN'
        refine ⟨c', by rw [hs]; exact hrun, Or.inr ?_⟩
        rcases hor with rfl | ⟨hm, hcm⟩
        · exact ⟨List.mem_cons_self, hc⟩
        · exact ⟨List.mem_cons_of_mem _ hm, hcm⟩

/-- **The commit loop**: `commitIndex` stays, or moves up to a committable index. -/
theorem advanceCommit_spec (h : Views l rf) (hs : rf.snapshotIndex ≤ rf.commitIndex) :
    ∃ c, rf.advanceCommit me nodeIDs = some { rf with commitIndex := c } ∧
      (c = rf.commitIndex ∨ (rf.commitIndex < c ∧ Committable me nodeIDs l rf c)) := by
  have hlen := h.lastLogIndex
  have hrange : ∀ N ∈ List.range' (rf.commitIndex + 1) (rf.lastLogIndex - rf.commitIndex),
      rf.commitIndex < N ∧ N ≤ l.length := by
    intro N hN
    rw [List.mem_range'_1] at hN
    omega
  obtain ⟨c, hrun, hor⟩ := commitLoop_spec me nodeIDs h _ rf.commitIndex fun N hN =>
    ⟨by have := hrange N hN; omega, (hrange N hN).2⟩
  exact ⟨c, hrun, hor.imp id fun ⟨hm, hc⟩ => ⟨(hrange c hm).1, hc⟩⟩

end Commit

/-! ## 4. What is shipped and what is applied -/

/-- **The message to a peer**: the snapshot, or the whole tail behind a probe in the log. -/
theorem heartbeatArgs_spec (h : Views l rf) (hsnap : rf.snapshot = none → rf.snapshotIndex = 0)
    (me id : NodeID) :
    ∃ args, rf.heartbeatArgs me id = some args ∧ args.term = rf.term ∧ args.leaderId = me ∧
      args.leaderCommit = rf.commitIndex ∧ args.snapshotIndex = rf.snapshotIndex ∧
      args.snapshotTerm = termAt tm l rf.snapshotIndex ∧
      ((args.snapshot ≠ none ∧ args.snapshot = rf.snapshot) ∨
        (args.snapshot = none ∧ args.prevLogIndex ≤ l.length ∧
          args.prevLogTerm = termAt tm l args.prevLogIndex ∧
          args.entries = l.drop args.prevLogIndex)) := by
  have hlen := h.lastLogIndex
  have hle := h.le
  unfold Raft.heartbeatArgs
  simp only [h.first, hlen]
  generalize hp : (if (rf.nextIndex id : Int) - 1 > (l.length : Int) then (l.length : Int)
    else (rf.nextIndex id : Int) - 1) = prev
  have hpl : prev ≤ l.length := by
    rw [← hp]
    split <;> omega
  by_cases hlow : prev < rf.snapshotIndex
  · cases hd : rf.snapshot with
    | some data => simp [hlow, LogEntry.sentinel]
    | none =>
        -- no snapshot: the probe is the sentinel at index 0
        have h0 := hsnap hd
        have hsuf := h.suffix (i := 0) (by omega) (by omega)
        by_cases hl : 0 < l.length
        · simp [hlow, hl, hsuf, LogEntry.sentinel]
        · have hnil : l = [] := List.eq_nil_of_length_eq_zero (by omega)
          simp [hlow, hnil, LogEntry.sentinel]
  · obtain ⟨e, he, hterm, _⟩ := h.logAt (i := prev.toNat) (by omega) (by omega)
    have hsuf := h.suffix (i := prev.toNat) (by omega) (by omega)
    have hple : prev.toNat ≤ l.length := by omega
    by_cases hl : prev.toNat < l.length
    · simp [hlow, he, hl, hsuf, hterm, hple, LogEntry.sentinel]
    · have hdrop : l.drop prev.toNat = [] := List.drop_of_length_le (by omega)
      simp [hlow, he, hl, hterm, hple, hdrop, LogEntry.sentinel]

/-- A message that hands over the snapshot the server keeps. -/
def IsSnapshotMsg (rf : Raft NodeID Cmd) (msg : ApplyMsg Cmd) : Prop :=
  msg.commandValid = false ∧ msg.snapshotValid = true ∧ msg.snapshot = rf.snapshot ∧
    rf.snapshot ≠ none ∧ msg.snapshotIndex = rf.snapshotIndex

/-- A message that hands over the entry at an index of `l`. -/
def IsEntryMsg (l : List (LogEntry Cmd)) (hi : ℕ) (msg : ApplyMsg Cmd) : Prop :=
  msg.commandValid = true ∧ msg.snapshotValid = false ∧
    ∃ j e, msg.commandIndex = j + 1 ∧ j < hi ∧ l[j]? = some e ∧ e.command = msg.command

/-- **The batch of `sendApplyMsg`**: the snapshot if the service is behind it, then entries up to
    `commitIndex`. -/
theorem sendApplyMsg_spec (h : Views l rf) (h1 : rf.snapshotIndex ≤ rf.commitIndex)
    (h2 : rf.commitIndex ≤ l.length) (h3 : rf.appliedIndex ≤ rf.commitIndex) :
    ∃ msgs, rf.sendApplyMsg = some ({ rf with appliedIndex := rf.commitIndex }, msgs) ∧
      ∀ msg ∈ msgs, IsSnapshotMsg rf msg ∨ IsEntryMsg l rf.commitIndex msg := by
  generalize hst : (if rf.appliedIndex + 1 ≤ rf.snapshotIndex then rf.snapshotIndex + 1
    else rf.appliedIndex + 1) = startIdx
  have hlo : rf.snapshotIndex < startIdx := by
    rw [← hst]
    split <;> omega
  have hhi : startIdx ≤ rf.commitIndex + 1 := by
    rw [← hst]
    split <;> omega
  have e1 : rf.relIdx startIdx = ((startIdx - rf.snapshotIndex : ℕ) : Int) := by
    unfold Raft.relIdx
    omega
  have e2 : rf.relIdx rf.commitIndex + 1 = ((rf.commitIndex - rf.snapshotIndex + 1 : ℕ) : Int) := by
    unfold Raft.relIdx
    omega
  have hslice : Slice.between? rf.logs (rf.relIdx startIdx) (rf.relIdx rf.commitIndex + 1) =
      some ((rf.logs.take (rf.commitIndex - rf.snapshotIndex + 1)).drop
        (startIdx - rf.snapshotIndex)) := by
    rw [e1, e2]
    refine Slice.between?_natCast (by omega) ?_
    rw [h.logs, length_compact]
    omega
  unfold Raft.sendApplyMsg
  simp only [h.first, hst, hslice, Option.bind_eq_bind, Option.bind_some]
  refine ⟨_, rfl, fun msg hmsg => ?_⟩
  rcases List.mem_append.mp hmsg with hm | hm
  · left
    split at hm
    · rename_i data hdata
      rw [List.mem_singleton] at hm
      subst hm
      by_cases hb : rf.appliedIndex + 1 ≤ rf.snapshotIndex
      · rw [if_pos hb] at hdata
        exact ⟨rfl, rfl, hdata.symm, by rw [hdata]; simp, rfl⟩
      · rw [if_neg hb] at hdata
        cases hdata
    · exact absurd hm List.not_mem_nil
  · right
    rw [List.mem_mapIdx] at hm
    obtain ⟨i, hi, hmsg'⟩ := hm
    subst hmsg'
    simp only [List.length_drop, List.length_take, h.logs, length_compact] at hi
    refine ⟨rfl, rfl, startIdx + i - 1, _, by simp; omega, by omega, ?_, rfl⟩
    have hidx : startIdx - rf.snapshotIndex + i = (startIdx + i - 1 - rf.snapshotIndex) + 1 := by
      omega
    have hidx' : rf.snapshotIndex + (startIdx + i - 1 - rf.snapshotIndex) = startIdx + i - 1 := by
      omega
    rw [List.getElem_drop, List.getElem_take]
    simp only [h.logs, hidx, compact, List.getElem_cons_succ, List.getElem_drop, hidx']
    exact List.getElem?_eq_getElem _

end Views

end RaftLab.Raft1

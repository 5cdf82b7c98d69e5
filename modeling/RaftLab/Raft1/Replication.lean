/-
  File:      RaftLab/Raft1/Replication.lean
  Subject:   The critical sections that change logs, followed on the record.

  * `Track.acceptLeader` -- what every accepted `AppendEntries` does first;
  * `Track.truncate`, `Track.extend`, `Track.appendNew` -- conflict-point truncation and append:
    both halves, and every cut of the second, are prefixes of the leader's log that keep what
    the two logs share;
  * `Track.installSnapshot` -- both arms of the snapshot branch;
  * `Track.appendEntriesHandler` -- the whole handler; a success reply confirms `newMatch`;
  * `Track.sendAppendEntries` -- a confirmed index counts, and a majority of them commits;
  * `Track.start`, `Track.snapshotUpTo`, `Track.applyBatch` -- the service side.
-/
import RaftLab.Raft1.Election

namespace RaftLab.Raft1

open RaftLab.Lib RaftLab.Lib.TermLog Relation

variable {NodeID Cmd : Type} [DecidableEq NodeID] [Inhabited Cmd]

section

variable {cfg : Config NodeID} {made : List (NodeID × ℕ × Bytes)} {n : NodeID}
  {a₀ a a' : Record NodeID Cmd} {st₀ : PersistState NodeID Cmd} {rf rf' : Raft NodeID Cmd}
  {l : List (LogEntry Cmd)}

/-! ## 1. Replacing a follower's log -/

theorem take_of_isPrefix {α : Type} {l l' : List α} {k j : ℕ} (h : l.take k <+: l')
    (hk : k ≤ l.length) (hj : j ≤ k) : l'.take j = l.take j := by
  have e := List.prefix_iff_eq_take.mp h
  rw [List.length_take, Nat.min_eq_left hk] at e
  have e' := congrArg (List.take j) e
  rw [List.take_take, List.take_take, Nat.min_eq_left hj] at e'
  exact e'.symm

omit [Inhabited Cmd] in
/-- What is committed at the node survives the replacement of its log. -/
theorem take_of_keep (hI : Inv cfg.quorums tm a) (hl : a.leader (a.term n) ≠ none)
    (hkeep : ∀ p, p <+: a.log n → p <+: a.llog (a.term n) → p <+: l) {k : ℕ}
    (hk : k ≤ (a.log n).length) (hc : Committed cfg a (a.term n) ((a.log n).take k)) :
    k ≤ l.length ∧ l.take k = (a.log n).take k := by
  have hp : (a.log n).take k <+: l :=
    hkeep _ (List.take_prefix _ _) (hc.llog hI (le_refl _) hl)
  have hlen : ((a.log n).take k).length = k := by simp [hk]
  exact ⟨hlen ▸ hp.length_le, take_of_isPrefix hp hk (le_refl _)⟩

theorem DiskOk.adopt {st : PersistState NodeID Cmd} (h : DiskOk cfg made a n st)
    (hI : Inv cfg.quorums tm a) (hl : a.leader (a.term n) ≠ none)
    (hpre : l <+: a.llog (a.term n))
    (hkeep : ∀ p, p <+: a.log n → p <+: a.llog (a.term n) → p <+: l) :
    DiskOk cfg made (a.adopt n l) n { st with logs := compact l st.snapshotIndex } := by
  have hs : Move cfg n a (a.adopt n l) := .adopt l hl hpre hkeep
  have hlog : (a.adopt n l).log n = l := Function.update_self _ _ _
  obtain ⟨hle, htake⟩ := take_of_keep hI hl hkeep h.le h.committed
  refine ⟨h.term, h.vote, by rw [hlog], by rw [hlog]; exact hle, ?_, h.snap⟩
  rw [hlog, htake]
  exact h.committed.mono hs.ext

omit [Inhabited Cmd] in
theorem MemOk.adopt (h : MemOk cfg a n rf) (hI : Inv cfg.quorums tm a)
    (hl : a.leader (a.term n) ≠ none) (hpre : l <+: a.llog (a.term n))
    (hkeep : ∀ p, p <+: a.log n → p <+: a.llog (a.term n) → p <+: l)
    (hr : rf.customerId = .follower) : MemOk cfg (a.adopt n l) n rf := by
  have hs : Move cfg n a (a.adopt n l) := .adopt l hl hpre hkeep
  have hlog : (a.adopt n l).log n = l := Function.update_self _ _ _
  obtain ⟨hle, htake⟩ := take_of_keep hI hl hkeep h.commitLe h.committed
  refine ⟨h.snapLe, by rw [hlog]; exact hle, h.appliedLe, ?_, h.leads, ?_, ?_, ?_⟩
  · rw [hlog, htake]
    exact h.committed.mono hs.ext
  · intro e
    rw [hr] at e
    cases e
  · intro e
    rw [hr] at e
    cases e
  · intro e
    rw [hr] at e
    cases e

namespace Track

theorem acceptLeader (h : Track cfg made n a₀ st₀ a rf) {t : ℕ} (ht : rf.term ≤ t)
    {leaderId : NodeID} (hid : leaderId ≠ n) :
    ∃ a', Track cfg made n a₀ st₀ a' (rf.acceptLeader t leaderId) ∧ a'.term n = t ∧
      KeepsPoll rf (rf.acceptLeader t leaderId) := by
  obtain ⟨a1, h1, hterm, hk⟩ := h.catchUp ht
  unfold Raft.acceptLeader
  generalize (if t > rf.term then rf.stepDown t else rf) = rf1 at h1 hk ⊢
  refine ⟨a1, h1.quiet rfl rfl .refl h1.disk ?_, hterm, ⟨fun e => (by cases e), hk.commit⟩⟩
  refine h1.mem.follower (Ext.refl a1) rfl rfl rfl rfl rfl ?_
  intro e
  exact hid (Option.some.inj e)

/-- `rf.logs[:rf.relIdx(k+1)]`, written as `TruncateSuffix(k+1)`. -/
theorem truncate (h : Track cfg made n a₀ st₀ a rf) (hr : rf.customerId = .follower)
    (hl : a.leader (a.term n) ≠ none) {k : ℕ} (h1 : rf.snapshotIndex ≤ k)
    (h2 : k ≤ (a.log n).length) (hpre : (a.log n).take k <+: a.llog (a.term n))
    (hkeep : ∀ p, p <+: a.log n → p <+: a.llog (a.term n) → p <+: (a.log n).take k) :
    Track cfg made n a₀ st₀ (a.adopt n ((a.log n).take k))
      { rf with
        logs := compact ((a.log n).take k) rf.snapshotIndex
        wal := rf.wal ++ [.truncateSuffix (k + 1)] } := by
  have hs : Move cfg n a (a.adopt n ((a.log n).take k)) := .adopt _ hl hpre hkeep
  refine h.write (.truncateSuffix (k + 1)) rfl ?_ (.single hs) ?_ ?_ fun es e => by cases e
  · have hup := h.views.upto h1 h2
    show (Slice.upto? rf.logs (rf.relIdx (k + 1))).bind _ = _
    rw [hup]
    rfl
  · exact h.disk.adopt h.inv hl hpre hkeep
  · exact { h.mem.adopt h.inv hl hpre hkeep hr with }

/-- `append(rf.logs, es...)`, written as `AppendLog(es)`. -/
theorem extend (h : Track cfg made n a₀ st₀ a rf) (hr : rf.customerId = .follower)
    (hl : a.leader (a.term n) ≠ none) {es : List (LogEntry Cmd)}
    (hpre : a.log n ++ es <+: a.llog (a.term n)) :
    Track cfg made n a₀ st₀ (a.adopt n (a.log n ++ es))
      { rf with logs := rf.logs ++ es, wal := rf.wal ++ [.appendLog es] } := by
  -- any first part of the entries extends the log towards the leader's
  have hstep : ∀ j, Move cfg n a (a.adopt n (a.log n ++ es.take j)) ∧
      DiskOk cfg made (a.adopt n (a.log n ++ es.take j)) n
        { rf.persist with logs := rf.logs ++ es.take j } := by
    intro j
    have hpre' : a.log n ++ es.take j <+: a.llog (a.term n) :=
      (List.prefix_append_right_inj _ |>.mpr (List.take_prefix _ _)).trans hpre
    have hkeep : ∀ p, p <+: a.log n → p <+: a.llog (a.term n) → p <+: a.log n ++ es.take j :=
      fun p hp _ => hp.trans (List.prefix_append _ _)
    refine ⟨.adopt _ hl hpre' hkeep, ?_⟩
    have hd := h.disk.adopt h.inv hl hpre' hkeep
    rw [← compact_append h.disk.le, ← h.disk.logs] at hd
    exact hd
  have hall : es.take es.length = es := List.take_length
  obtain ⟨hs, hd⟩ := hstep es.length
  rw [hall] at hs hd
  refine h.write (.appendLog es) rfl rfl (.single hs) hd ?_ fun es' e j st hst => ?_
  · have hkeep : ∀ p, p <+: a.log n → p <+: a.llog (a.term n) → p <+: a.log n ++ es :=
      fun p hp _ => hp.trans (List.prefix_append _ _)
    exact { h.mem.adopt h.inv hl hpre hkeep hr with }
  · cases e
    obtain ⟨hsj, hdj⟩ := hstep j
    cases hst
    exact ⟨_, .single hsj, hdj⟩

/-- A node that holds a prefix of the leader's log says so. -/
theorem confirm (h : Track cfg made n a₀ st₀ a rf) (hl : a.leader (a.term n) ≠ none) {k : ℕ}
    (hk : k ≤ (a.llog (a.term n)).length) (hpre : (a.llog (a.term n)).take k <+: a.log n) :
    Track cfg made n a₀ st₀ (a.confirm n (a.term n) k) rf := by
  have hs : Move cfg n a (a.confirm n (a.term n) k) := .confirm k hl hk hpre
  exact h.quiet rfl rfl (.single hs) (h.disk.later hs.ext rfl rfl rfl)
    (h.mem.later hs.ext rfl rfl rfl)

/-! ## 2. An ordinary message -/

/-- Logs with the same term at an index are the same up to it. -/
theorem agree (h : Track cfg made n a₀ st₀ a rf) (hl : a.leader (a.term n) ≠ none) {i : ℕ}
    (h1 : i ≤ (a.log n).length) (h2 : i ≤ (a.llog (a.term n)).length)
    (ht : termAt tm (a.log n) i = termAt tm (a.llog (a.term n)) i) :
    (a.log n).take i = (a.llog (a.term n)).take i :=
  (h.inv.goodLog n).matching (h.inv.goodLlog hl) h1 h2 ht

omit [Inhabited Cmd] in
/-- No common prefix reaches an index where the terms differ. -/
theorem prefix_le_of_termAt_ne {l l' p : List (LogEntry Cmd)} {i : ℕ} (h1 : p <+: l)
    (h2 : p <+: l') (hne : termAt tm l i ≠ termAt tm l' i) : p.length < i := by
  refine Classical.byContradiction fun hge => hne ?_
  rw [← termAt_isPrefix h1 (by omega), ← termAt_isPrefix h2 (by omega)]

/-- **Truncation and append**: afterwards the log holds the leader's through the last entry of
    the message. -/
theorem appendNew (h : Track cfg made n a₀ st₀ a rf) (hr : rf.customerId = .follower)
    (hl : a.leader (a.term n) ≠ none) {args : AppendEntries NodeID Cmd} {L : List (LogEntry Cmd)}
    (hL : a.llog (a.term n) = L) (hlen : args.prevLogIndex + args.entries.length ≤ L.length)
    (hes : args.entries = (L.drop args.prevLogIndex).take args.entries.length)
    (h1 : rf.snapshotIndex ≤ args.prevLogIndex) (h2 : args.prevLogIndex ≤ (a.log n).length)
    (hprev : (a.log n).take args.prevLogIndex = L.take args.prevLogIndex) :
    ∃ rf' l, rf.appendNew args = some rf' ∧ Track cfg made n a₀ st₀ (a.adopt n l) rf' ∧
      L.take (args.prevLogIndex + args.entries.length) <+: l ∧
      rf'.customerId = .follower ∧ rf'.commitIndex = rf.commitIndex := by
  have hsame : a.adopt n (a.log n) = a := by simp [TermLog.adopt]
  have hterm : ∀ m e, args.entries[m]? = some e →
      termAt tm L (args.prevLogIndex + m + 1) = e.term := by
    intro m e he
    have hm : m < args.entries.length := (List.getElem?_eq_some_iff.mp he).1
    rw [hes, List.getElem?_take_of_lt hm, List.getElem?_drop] at he
    rw [termAt_succ, he]
    rfl
  unfold Raft.appendNew
  by_cases hpos : args.entries.length > 0
  swap
  · refine ⟨rf, a.log n, by rw [if_neg hpos], by rw [hsame]; exact h, ?_, hr, rfl⟩
    have e0 : args.prevLogIndex + args.entries.length = args.prevLogIndex := by omega
    rw [e0, ← hprev]
    exact List.take_prefix _ _
  obtain ⟨j, hj, hjl, hjb, hjm, hjs⟩ := h.views.matchingEntries_spec h1 args.entries 0 (by omega)
  simp only [Nat.zero_add, Nat.add_zero] at hj hjb hjm hjs
  have hagree : (a.log n).take (args.prevLogIndex + j) = L.take (args.prevLogIndex + j) := by
    rcases Nat.eq_zero_or_pos j with rfl | hj0
    · exact hprev
    · obtain ⟨e, he, hte⟩ := hjm (j - 1) (by omega)
      have e1 : args.prevLogIndex + (j - 1) + 1 = args.prevLogIndex + j := by omega
      have e2 := hterm _ _ he
      rw [e1] at hte e2
      rw [← hL] at e2 hlen ⊢
      exact h.agree hl hjb (by omega) (hte.trans e2.symm)
  rw [if_pos hpos, hj]
  simp only [Option.bind_eq_bind, Option.bind_some]
  by_cases hlt : j < args.entries.length
  swap
  · refine ⟨rf, a.log n, by rw [if_neg hlt], by rw [hsame]; exact h, ?_, hr, rfl⟩
    have e1 : args.prevLogIndex + args.entries.length = args.prevLogIndex + j := by omega
    rw [e1, ← hagree]
    exact List.take_prefix _ _
  have hkeep : ∀ p, p <+: a.log n → p <+: a.llog (a.term n) →
      p <+: (a.log n).take (args.prevLogIndex + j) := by
    intro p hp hpL
    rw [hL] at hpL
    have hple : p.length ≤ args.prevLogIndex + j := by
      rcases hjs _ (List.getElem?_eq_getElem hlt) with hend | hne
      · rw [hend]
        exact hp.length_le
      · rw [← hterm j _ (List.getElem?_eq_getElem hlt)] at hne
        exact Nat.lt_succ_iff.mp (prefix_le_of_termAt_ne hp hpL hne)
    exact List.prefix_of_prefix_length_le hp (List.take_prefix _ _) (by simp; omega)
  have ht := h.truncate hr hl (k := args.prevLogIndex + j) (by omega) hjb
    (by rw [hagree, hL]; exact List.take_prefix _ _) hkeep
  -- the truncated log and the rest of the entries make up the leader's
  have hlog : (a.adopt n ((a.log n).take (args.prevLogIndex + j))).log n =
      (a.log n).take (args.prevLogIndex + j) := Function.update_self _ _ _
  have hglue : (a.log n).take (args.prevLogIndex + j) ++ args.entries.drop j =
      L.take (args.prevLogIndex + args.entries.length) := by
    have e1 : args.entries.drop j =
        (L.drop (args.prevLogIndex + j)).take (args.entries.length - j) := by
      conv_lhs => rw [hes, List.drop_take, List.drop_drop]
    have e2 : args.prevLogIndex + args.entries.length =
        (args.prevLogIndex + j) + (args.entries.length - j) := by omega
    rw [hagree, e1, e2]
    exact List.take_add.symm
  have hfin := ht.extend hr hl (by
    rw [hlog, hglue]
    show _ <+: a.llog (a.term n)
    rw [hL]
    exact List.take_prefix _ _)
  have htwice : (a.adopt n ((a.log n).take (args.prevLogIndex + j))).adopt n
      (L.take (args.prevLogIndex + args.entries.length)) =
      a.adopt n (L.take (args.prevLogIndex + args.entries.length)) := by simp [TermLog.adopt]
  rw [hlog, hglue, htwice] at hfin
  have e3 : args.prevLogIndex + 1 + j = args.prevLogIndex + j + 1 := by omega
  refine ⟨_, _, ?_, hfin, List.prefix_refl _, hr, rfl⟩
  rw [if_pos hlt, e3, h.views.upto (by omega) hjb]
  simp

/-- **The branches for a message without a snapshot.** -/
theorem appendOrReject (h : Track cfg made n a₀ st₀ a rf) (hr : rf.customerId = .follower)
    {args : AppendEntries NodeID Cmd} (ht : a.term n = args.term)
    (hE : EntriesOk cfg made a args) (hs : args.snapshot = none) :
    ∃ rf' reply a', rf.appendOrReject args = some (rf', reply) ∧
      Track cfg made n a₀ st₀ a' rf' ∧ rf'.customerId = .follower ∧
      rf.commitIndex ≤ rf'.commitIndex ∧
      (reply.success = true → a'.ack args.term n (Raft.newMatch args)) := by
  have hl : a.leader (a.term n) ≠ none := by
    rw [ht]
    exact hE.led
  obtain ⟨hlen, hpt, hes, hlc, hcom⟩ := hE.entries hs
  rw [← ht] at hlen hpt hes hcom
  have hlast := h.views.lastLogIndex
  unfold Raft.appendOrReject
  by_cases hlow : args.prevLogIndex < rf.snapshotIndex
  · rw [if_pos hlow]
    exact ⟨rf, _, a, rfl, h, hr, le_refl _, fun e => by cases e⟩
  rw [if_neg hlow]
  by_cases hhigh : args.prevLogIndex > rf.lastLogIndex
  · rw [if_pos hhigh]
    exact ⟨rf, _, a, rfl, h, hr, le_refl _, fun e => by cases e⟩
  rw [if_neg hhigh]
  have hprev : args.prevLogIndex ≤ (a.log n).length := by omega
  obtain ⟨e, he, hte, _⟩ := h.views.logAt (i := args.prevLogIndex) (by omega) hprev
  rw [he]
  simp only [Option.bind_eq_bind, Option.bind_some]
  by_cases hconf : e.term ≠ args.prevLogTerm
  · rw [if_pos hconf]
    obtain ⟨m, hm, _⟩ := h.views.skipConflictTerm_some e.term args.prevLogIndex hprev
    rw [hm]
    exact ⟨rf, _, a, rfl, h, hr, le_refl _, fun e => by cases e⟩
  rw [if_neg hconf]
  have hag : (a.log n).take args.prevLogIndex = (a.llog (a.term n)).take args.prevLogIndex := by
    refine h.agree hl hprev (by omega) ?_
    rw [← hte, ← hpt]
    exact not_not.mp hconf
  obtain ⟨rf1, l, hrun, h1, hpre, hr1, hc1⟩ :=
    h.appendNew hr hl rfl hlen hes (by omega) hprev hag
  have hlog : (a.adopt n l).log n = l := Function.update_self _ _ _
  have h2 : Track cfg made n a₀ st₀ ((a.adopt n l).confirm n (a.term n)
      (args.prevLogIndex + args.entries.length)) rf1 :=
    h1.confirm hl hlen (by rw [hlog]; exact hpre)
  have hack : ((a.adopt n l).confirm n (a.term n)
      (args.prevLogIndex + args.entries.length)).ack args.term n (Raft.newMatch args) := by
    left
    exact ⟨ht.symm, rfl, by simp [Raft.newMatch, hs]⟩
  have hlast1 : rf1.lastLogIndex = l.length := by
    rw [h1.views.lastLogIndex, hlog]
  have hbound : args.prevLogIndex + args.entries.length ≤ l.length := by
    have := hpre.length_le
    rw [List.length_take] at this
    omega
  rw [hrun]
  simp only [Option.bind_some]
  by_cases hadv : args.leaderCommit > rf1.commitIndex
  · have hmin : min args.leaderCommit rf1.lastLogIndex = args.leaderCommit := by omega
    have htake : l.take args.leaderCommit = (a.llog (a.term n)).take args.leaderCommit :=
      take_of_isPrefix hpre hlen hlc
    have hx : Ext a ((a.adopt n l).confirm n (a.term n)
        (args.prevLogIndex + args.entries.length)) := { Ext.refl a with ack := Or.inr }
    rw [if_pos hadv, hmin]
    refine ⟨_, _, _, rfl, h2.quiet rfl rfl .refl h2.disk ?_, hr1, ?_, fun _ => hack⟩
    · have hm := h2.mem
      refine { hm with snapLe := ?_, commitLe := ?_, appliedLe := ?_, committed := ?_ }
      · exact hm.snapLe.trans hadv.le
      · show args.leaderCommit ≤ ((a.adopt n l).log n).length
        rw [hlog]
        omega
      · exact hm.appliedLe.trans hadv.le
      · show Committed cfg _ (a.term n) (((a.adopt n l).log n).take args.leaderCommit)
        rw [hlog, htake]
        exact hcom.mono hx
    · show rf.commitIndex ≤ args.leaderCommit
      omega
  · rw [if_neg hadv]
    exact ⟨rf1, _, _, rfl, h2, hr1, hc1.ge, fun _ => hack⟩

/-! ## 3. A message with a snapshot -/

/-- The log is now compacted up to `N`, and its tail written with the snapshot. -/
theorem compacted (h : Track cfg made n a₀ st₀ a rf) {N c : ℕ} {data : Bytes} {m : NodeID}
    (hrun : ReflTransGen (Move cfg n) a a') (hterm : a'.term = a.term) (hvote : a'.vote = a.vote)
    (hN : N ≤ (a'.log n).length) (hcom : Committed cfg a' (a.term n) ((a'.log n).take N))
    (hmade : (m, N, data) ∈ made)
    (hm : MemOk cfg a' n { rf with snapshotIndex := N, commitIndex := c }) :
    Track cfg made n a₀ st₀ a'
      { rf with
        logs := .sentinel (termAt tm (a'.log n) N) :: (a'.log n).drop N
        snapshotIndex := N
        snapshot := some data
        commitIndex := c
        wal := rf.wal ++
          [.saveSnapshot N (termAt tm (a'.log n) N) (some data) ((a'.log n).drop N)] } := by
  refine h.write (.saveSnapshot N (termAt tm (a'.log n) N) (some data) ((a'.log n).drop N)) rfl
    rfl hrun ?_ { hm with } fun es e => by cases e
  refine ⟨?_, ?_, rfl, hN, ?_, fun e => (by cases e), fun d hd => ?_⟩
  · rw [hterm]
    exact h.disk.term
  · rw [hterm, hvote]
    exact h.disk.vote
  · rw [hterm]
    exact hcom
  · cases hd
    exact ⟨m, hmade⟩

/-- The test that keeps the suffix, through the full log. -/
theorem holdsSnapshotEntry (h : Track cfg made n a₀ st₀ a rf) {args : AppendEntries NodeID Cmd}
    (hlt : rf.snapshotIndex < args.snapshotIndex) :
    rf.holdsSnapshotEntry args = some (decide (args.snapshotIndex ≤ (a.log n).length ∧
      termAt tm (a.log n) args.snapshotIndex = args.snapshotTerm)) := by
  have hlen : (rf.logs.length : Int) = (a.log n).length - rf.snapshotIndex + 1 := by
    have := h.views.le
    rw [h.views.logs, length_compact]
    omega
  unfold Raft.holdsSnapshotEntry Raft.relIdx
  by_cases hin : args.snapshotIndex ≤ (a.log n).length
  · obtain ⟨e, he, hte, _⟩ := h.views.logAt hlt.le hin
    rw [if_pos (by omega), he]
    simp [hin, hte]
  · rw [if_neg (by omega)]
    simp [hin]

/-- **Both arms of the snapshot branch.** -/
theorem installSnapshot (h : Track cfg made n a₀ st₀ a rf) (hr : rf.customerId = .follower)
    {args : AppendEntries NodeID Cmd} (ht : a.term n = args.term)
    (hE : EntriesOk cfg made a args) {data : Bytes} (hs : args.snapshot = some data) :
    ∃ rf' reply a', rf.installSnapshot args data = some (rf', reply) ∧
      Track cfg made n a₀ st₀ a' rf' ∧ rf'.customerId = .follower ∧
      rf.commitIndex ≤ rf'.commitIndex ∧
      (reply.success = true → a'.ack args.term n (Raft.newMatch args)) := by
  have hl : a.leader (a.term n) ≠ none := by
    rw [ht]
    exact hE.led
  obtain ⟨hlen, hst, hcom, m, hmade⟩ := hE.snapshot data hs
  rw [← ht] at hlen hst hcom
  have hmatch : Raft.newMatch args = args.snapshotIndex := by simp [Raft.newMatch, hs]
  unfold Raft.installSnapshot
  by_cases hle : args.snapshotIndex ≤ rf.snapshotIndex
  · -- an old snapshot: what it covers is committed here, so the leader holds it too
    rw [if_pos hle]
    have hpre := h.disk.committed.llog h.inv (le_refl _) hl
    have hhold : (a.llog (a.term n)).take args.snapshotIndex <+: a.log n := by
      rw [take_of_isPrefix hpre h.disk.le hle]
      exact List.take_prefix _ _
    refine ⟨rf, _, _, rfl, h.confirm hl hlen hhold, hr, le_refl _, fun _ => Or.inl ?_⟩
    exact ⟨ht.symm, rfl, hmatch.le⟩
  rw [if_neg hle, h.holdsSnapshotEntry (by omega)]
  simp only [Option.bind_eq_bind, Option.bind_some]
  by_cases hkeep : args.snapshotIndex ≤ (a.log n).length ∧
      termAt tm (a.log n) args.snapshotIndex = args.snapshotTerm
  · -- the log holds the snapshot's last entry: the suffix stays
    obtain ⟨hin, hte⟩ := hkeep
    have hag := h.agree hl hin hlen (hte.trans hst)
    have h1 : Track cfg made n a₀ st₀ a _ :=
      h.compacted (N := args.snapshotIndex) (c := max rf.commitIndex args.snapshotIndex) .refl rfl
        rfl hin (by rw [hag]; exact hcom) hmade
        { h.mem with
          snapLe := le_max_right _ _
          commitLe := max_le h.mem.commitLe hin
          appliedLe := h.mem.appliedLe.trans (le_max_left _ _)
          committed := by
            rcases Nat.le_total rf.commitIndex args.snapshotIndex with hc | hc
            · simp only [Nat.max_eq_right hc]
              rw [hag]
              exact hcom
            · simp only [Nat.max_eq_left hc]
              exact h.mem.committed }
    rw [hte] at h1
    have h2 := h1.confirm hl hlen (by rw [← hag]; exact List.take_prefix _ _)
    refine ⟨_, ⟨rf.term, true, args.snapshotIndex⟩, _, ?_, h2, hr, le_max_left _ _,
      fun _ => Or.inl ⟨ht.symm, rfl, hmatch.le⟩⟩
    rw [h.views.suffix (by omega) hin]
    simp [hin, hte]
  · -- it does not: the log is replaced by what the snapshot covers
    have hkeep' : ∀ p, p <+: a.log n → p <+: a.llog (a.term n) →
        p <+: (a.llog (a.term n)).take args.snapshotIndex := by
      intro p hp hpL
      have hple : p.length ≤ args.snapshotIndex := by
        by_cases hin : args.snapshotIndex ≤ (a.log n).length
        · have hne : termAt tm (a.log n) args.snapshotIndex ≠
              termAt tm (a.llog (a.term n)) args.snapshotIndex := by
            rw [← hst]
            exact fun e => hkeep ⟨hin, e⟩
          exact (prefix_le_of_termAt_ne hp hpL hne).le
        · have := hp.length_le
          omega
      exact List.prefix_of_prefix_length_le hpL (List.take_prefix _ _) (by simp; omega)
    set L := (a.llog (a.term n)).take args.snapshotIndex with hLdef
    have hLlen : L.length = args.snapshotIndex := by simp [hLdef, hlen]
    have hpre : L <+: a.llog (a.term n) := List.take_prefix _ _
    have hs : Move cfg n a (a.adopt n L) := .adopt L hl hpre hkeep'
    have hlog : (a.adopt n L).log n = L := Function.update_self _ _ _
    have hmem := h.mem.adopt h.inv hl hpre hkeep' hr
    have hcL : rf.commitIndex ≤ args.snapshotIndex := by
      have := hmem.commitLe
      rw [hlog, hLlen] at this
      exact this
    have hfull : ((a.adopt n L).log n).take args.snapshotIndex = L := by
      rw [hlog, List.take_of_length_le hLlen.le]
    have hcom' : Committed cfg (a.adopt n L) (a.term n)
        (((a.adopt n L).log n).take args.snapshotIndex) := by
      rw [hfull]
      exact hcom.mono hs.ext
    have h1 : Track cfg made n a₀ st₀ (a.adopt n L) _ :=
      h.compacted (N := args.snapshotIndex) (c := max rf.commitIndex args.snapshotIndex)
        (.single hs) rfl rfl (by rw [hlog, hLlen]) hcom' hmade
        { hmem with
          snapLe := le_max_right _ _
          commitLe := by
            rw [hlog, hLlen]
            exact max_le hcL (le_refl _)
          appliedLe := hmem.appliedLe.trans (le_max_left _ _)
          committed := by
            simp only [Nat.max_eq_right hcL]
            exact hcom' }
    have hdrop : ((a.adopt n L).log n).drop args.snapshotIndex = [] := by
      rw [hlog]
      exact List.drop_of_length_le hLlen.le
    have htL : termAt tm ((a.adopt n L).log n) args.snapshotIndex = args.snapshotTerm := by
      rw [hlog, hst]
      exact termAt_isPrefix hpre hLlen.ge
    rw [hdrop, htL] at h1
    have h2 := h1.confirm hl hlen (by rw [hlog]; exact List.prefix_refl _)
    refine ⟨_, ⟨rf.term, true, args.snapshotIndex⟩, _, ?_, h2, hr, le_max_left _ _,
      fun _ => Or.inl ⟨ht.symm, rfl, hmatch.le⟩⟩
    simp [hkeep]

/-- **The handler**: a success reply confirms the leader's log up to `newMatch`. -/
theorem appendEntriesHandler (h : Track cfg made n a₀ st₀ a rf) (hI : Inv cfg.quorums tm a₀)
    {args : AppendEntries NodeID Cmd} (hE : EntriesOk cfg made a₀ args)
    (hid : args.leaderId ≠ n) :
    ∃ rf' reply a', rf.appendEntriesHandler args = some (rf', reply) ∧
      Track cfg made n a₀ st₀ a' rf' ∧ KeepsPoll rf rf' ∧
      (reply.success = true → a'.ack args.term n (Raft.newMatch args)) := by
  unfold Raft.appendEntriesHandler
  by_cases hlt : args.term < rf.term
  · rw [if_pos hlt]
    exact ⟨rf, _, a, rfl, h, KeepsPoll.refl rf, fun e => by cases e⟩
  rw [if_neg hlt]
  obtain ⟨a1, h1, hterm, hk⟩ := h.acceptLeader (t := args.term) (by omega) hid
  have hr1 : (rf.acceptLeader args.term args.leaderId).customerId = .follower := rfl
  have hE1 := hE.mono (h1.ext hI) (List.Subset.refl made)
  cases hs : args.snapshot with
  | some data =>
      obtain ⟨rf', reply, a', he, h2, hr2, hc, hack⟩ := h1.installSnapshot hr1 hterm hE1 hs
      refine ⟨rf', reply, a', he, h2, ⟨fun e => ?_, hk.commit.trans hc⟩, hack⟩
      rw [hr2] at e
      cases e
  | none =>
      obtain ⟨rf', reply, a', he, h2, hr2, hc, hack⟩ := h1.appendOrReject hr1 hterm hE1 hs
      refine ⟨rf', reply, a', he, h2, ⟨fun e => ?_, hk.commit.trans hc⟩, hack⟩
      rw [hr2] at e
      cases e

/-! ## 4. Replies and commitment -/

omit [Inhabited Cmd] in
/-- `replicaCount` counts the leader and the members that match. -/
theorem replicaCount_eq (me : NodeID) (nodeIDs : List NodeID) (rf : Raft NodeID Cmd) (N : ℕ) :
    rf.replicaCount me nodeIDs N =
      1 + (nodeIDs.filter fun id => decide (id ≠ me ∧ rf.matchIndex id ≥ N)).length := by
  have hgen : ∀ (ids : List NodeID) (c : ℕ),
      ids.foldl (fun cnt id => if id ≠ me ∧ rf.matchIndex id ≥ N then cnt + 1 else cnt) c =
        c + (ids.filter fun id => decide (id ≠ me ∧ rf.matchIndex id ≥ N)).length := by
    intro ids
    induction ids with
    | nil => intro c; rfl
    | cons id ids ih =>
        intro c
        rw [List.foldl_cons, ih]
        by_cases hc : id ≠ me ∧ rf.matchIndex id ≥ N
        · rw [if_pos hc, List.filter_cons_of_pos (by simpa using hc), List.length_cons]
          omega
        · rw [if_neg hc, List.filter_cons_of_neg (by simpa using hc)]
  exact hgen nodeIDs 1

/-- A committable index is one a majority of members has confirmed, the leader for itself. -/
theorem commits (h : Track cfg made n a₀ st₀ a rf) (hn : n ∈ cfg.nodeIDs)
    (hr : rf.customerId = .leader) {c : ℕ} (hpos : rf.commitIndex < c)
    (hc : Views.Committable n cfg.nodeIDs (a.log n) rf c) :
    Track cfg made n a₀ st₀ (a.confirm n (a.term n) c) { rf with commitIndex := c } := by
  obtain ⟨hle, hown, hcount⟩ := hc
  have hlead := h.mem.leader hr
  have hne : a.leader (a.term n) ≠ none := by
    rw [hlead]
    simp
  have hlog : a.log n = a.llog (a.term n) := h.inv.leaderLog hlead rfl
  have h1 : Track cfg made n a₀ st₀ (a.confirm n (a.term n) c) rf := by
    refine h.confirm hne (by rw [← hlog]; exact hle) ?_
    rw [← hlog]
    exact List.take_prefix _ _
  -- the confirming members
  set V : Finset NodeID := insert n
    (cfg.nodeIDs.filter fun id => decide (id ≠ n ∧ rf.matchIndex id ≥ c)).toFinset with hV
  have hcard : V.card = rf.replicaCount n cfg.nodeIDs c := by
    rw [replicaCount_eq, hV, Finset.card_insert_of_notMem (by simp),
      List.toFinset_card_of_nodup (cfg.nodup.filter _)]
    omega
  have hsub : V ⊆ cfg.nodeIDs.toFinset := by
    refine Finset.insert_subset (by simpa using hn) fun m hm => ?_
    simp only [List.mem_toFinset, List.mem_filter] at hm ⊢
    exact hm.1
  have hacks : ∀ m ∈ V, (a.confirm n (a.term n) c).ack (a.term n) m c := by
    intro m hm
    rcases Finset.mem_insert.mp hm with rfl | hm'
    · exact Or.inl ⟨rfl, rfl, le_refl _⟩
    · simp only [List.mem_toFinset, List.mem_filter, decide_eq_true_eq] at hm'
      obtain ⟨hmem, _, hge⟩ := hm'
      exact Or.inr (h.inv.ackDown (h.mem.matched hr m hmem (by omega)) hge)
  have hchosen : Chosen cfg.quorums tm (a.confirm n (a.term n) c) (a.term n) c := by
    refine ⟨hne, by omega, ?_, ?_, V, ⟨hsub, by rw [hcard]; exact hcount⟩, hacks⟩
    · show c ≤ (a.llog (a.term n)).length
      rw [← hlog]
      exact hle
    · show termAt tm (a.llog (a.term n)) c = a.term n
      rw [← hlog, hown]
      exact h.term
  have hm := h1.mem
  refine h1.quiet rfl rfl .refl h1.disk ?_
  refine { hm with snapLe := ?_, commitLe := hle, appliedLe := ?_, committed := ?_ }
  · exact hm.snapLe.trans hpos.le
  · exact hm.appliedLe.trans hpos.le
  · show Committed cfg _ (a.term n) ((a.log n).take c)
    rw [hlog]
    exact hchosen.committed

theorem advanceCommit (h : Track cfg made n a₀ st₀ a rf) (hn : n ∈ cfg.nodeIDs)
    (hr : rf.customerId = .leader) :
    ∃ rf' a', rf.advanceCommit n cfg.nodeIDs = some rf' ∧ Track cfg made n a₀ st₀ a' rf' ∧
      KeepsPoll rf rf' := by
  obtain ⟨c, hadv, hor⟩ := h.views.advanceCommit_spec n cfg.nodeIDs h.mem.snapLe
  rcases hor with hc | ⟨hlt, hcom⟩
  · rw [hc] at hadv
    exact ⟨_, a, hadv, h, KeepsPoll.refl rf⟩
  · exact ⟨_, _, hadv, h.commits hn hr hlt hcom, fun e => ⟨e, rfl, rfl⟩, hlt.le⟩

/-- The commit loop after `matchIndex` has taken in confirmed indexes. -/
theorem credited (h : Track cfg made n a₀ st₀ a rf) (hn : n ∈ cfg.nodeIDs)
    (hr : rf.customerId = .leader) (matchIndex nextIndex : NodeID → ℕ)
    (hm : ∀ m, matchIndex m = rf.matchIndex m ∨ a.ack (a.term n) m (matchIndex m)) :
    ∃ rf' a', ({ rf with matchIndex := matchIndex, nextIndex := nextIndex } :
        Raft NodeID Cmd).advanceCommit n cfg.nodeIDs = some rf' ∧
      Track cfg made n a₀ st₀ a' rf' ∧ KeepsPoll rf rf' := by
  have h1 : Track cfg made n a₀ st₀ a
      { rf with matchIndex := matchIndex, nextIndex := nextIndex } := by
    refine h.quiet rfl rfl .refl h.disk { h.mem with matched := fun hr m hmem hpos => ?_ }
    rcases hm m with e | hack
    · simp only [e] at hpos ⊢
      exact h.mem.matched hr m hmem hpos
    · exact hack
  obtain ⟨rf', a', he, ht, hk⟩ := h1.advanceCommit hn hr
  exact ⟨rf', a', he, ht, hk.round, hk.commit⟩

/-- **An `AppendEntries` reply.** -/
theorem sendAppendEntries (h : Track cfg made n a₀ st₀ a rf) (hn : n ∈ cfg.nodeIDs)
    {server : NodeID} {args : AppendEntries NodeID Cmd} {reply : AppendEntriesReply}
    (hack : reply.success = true → a.ack args.term server (Raft.newMatch args)) :
    ∃ rf' a', rf.sendAppendEntries n cfg.nodeIDs server args reply = some rf' ∧
      Track cfg made n a₀ st₀ a' rf' ∧ KeepsPoll rf rf' := by
  unfold Raft.sendAppendEntries
  by_cases hgt : reply.term > rf.term
  · rw [if_pos hgt]
    exact ⟨_, _, rfl, h.stepDown hgt, ⟨fun e => (by cases e), le_refl _⟩⟩
  rw [if_neg hgt]
  by_cases hskip : rf.term ≠ args.term ∨ rf.customerId ≠ .leader
  · rw [if_pos hskip]
    exact ⟨rf, a, rfl, h, KeepsPoll.refl rf⟩
  rw [if_neg hskip]
  simp only [not_or, not_not] at hskip
  obtain ⟨hterm, hr⟩ := hskip
  by_cases hok : reply.success = true
  · rw [if_pos hok]
    have hack' : a.ack (a.term n) server (Raft.newMatch args) := by
      rw [← h.term, hterm]
      exact hack hok
    by_cases hnew : Raft.newMatch args > rf.matchIndex server
    · simp only [if_pos hnew]
      refine h.credited hn hr _ _ fun m => ?_
      by_cases hms : m = server
      · subst hms
        right
        rw [Function.update_self]
        exact hack'
      · left
        exact Function.update_of_ne hms _ _
    · simp only [if_neg hnew]
      exact h.credited hn hr _ _ fun m => Or.inl rfl
  rw [if_neg hok]
  by_cases hlow : args.prevLogIndex < rf.matchIndex server
  · rw [if_pos hlow]
    exact ⟨rf, a, rfl, h, KeepsPoll.refl rf⟩
  · rw [if_neg hlow]
    exact ⟨_, a, rfl, h.quiet rfl rfl .refl h.disk { h.mem with }, fun e => ⟨e, rfl, rfl⟩,
      le_refl _⟩

end Track

end

end RaftLab.Raft1

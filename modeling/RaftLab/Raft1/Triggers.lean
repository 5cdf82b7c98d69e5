/-
  File:      RaftLab/Raft1/Triggers.lean
  Subject:   What starts an election: the election timer and `TimeoutNow`.

  One server is looked at by itself. Its goroutines run their critical sections in any order, the
  requests and replies that come in are arbitrary, and it may crash in any section and start again
  from its disk (`Server.Step`). The history is the list of sections with the process before and
  the outcome after each (`Moment`). Both branches of the `select` in `ticker` are open whenever
  they are ready, so the timer may fire although `resetCh` is full.

  * `exec_clocked` -- `electionGeneration` counts exactly the accepted leader messages, the granted
    votes and the elections begun, and only the ticker touches its timer;
  * `exec_raises` -- the term a section leaves in memory is the one it leaves on disk, and a crash
    inside it leaves one between;
  * **`elections_triggered`**: every election the ticker or `TimeoutNow` starts has a trigger that
    is still valid;
  * `reachable_trace` -- a node of a cluster is such a server.
-/
import RaftLab.Raft1.Changes
import RaftLab.Lib.Runs

namespace RaftLab.Raft1

open RaftLab.Lib Relation

variable {NodeID Cmd : Type}

/-! ## 1. The term on disk -/

/-- The term on a disk at `term` after a WAL call. -/
def WalOp.savedTerm (term : ℕ) : WalOp NodeID Cmd → ℕ
  | .saveMeta term' _ => term'
  | _ => term

def savedTerm (term : ℕ) (ops : List (WalOp NodeID Cmd)) : ℕ := ops.foldl WalOp.savedTerm term

theorem savedTerm_append (term : ℕ) (ops ops' : List (WalOp NodeID Cmd)) :
    savedTerm term (ops ++ ops') = savedTerm (savedTerm term ops) ops' := List.foldl_append

/-- It is the term of before or one that was saved. -/
theorem savedTerm_cases (term : ℕ) (ops : List (WalOp NodeID Cmd)) :
    savedTerm term ops = term ∨ ∃ vote, .saveMeta (savedTerm term ops) vote ∈ ops := by
  induction ops generalizing term with
  | nil => exact Or.inl rfl
  | cons op ops ih =>
      rcases ih (op.savedTerm term) with h | ⟨vote, h⟩
      · have hsame : savedTerm term (op :: ops) = op.savedTerm term := h
        cases op with
        | saveMeta term' vote =>
            refine Or.inr ⟨vote, ?_⟩
            rw [hsame]
            exact List.mem_cons_self
        | appendLog | truncateSuffix | saveSnapshot => exact Or.inl hsame
      · exact Or.inr ⟨vote, List.mem_cons_of_mem op h⟩

theorem apply_term [Inhabited Cmd] {st st' : PersistState NodeID Cmd} {op : WalOp NodeID Cmd}
    (h : st.apply op = some st') : st'.term = op.savedTerm st.term := by
  cases op with
  | saveMeta | appendLog | saveSnapshot =>
      cases h
      rfl
  | truncateSuffix fromIndex =>
      obtain ⟨logs, _, e⟩ := Option.bind_eq_some_iff.mp h
      cases e
      rfl

theorem applyAll_term [Inhabited Cmd] {ops : List (WalOp NodeID Cmd)}
    {st st' : PersistState NodeID Cmd} (h : st.applyAll ops = some st') :
    st'.term = savedTerm st.term ops := by
  induction ops generalizing st with
  | nil =>
      cases h
      rfl
  | cons op ops ih =>
      obtain ⟨st1, h1, h2⟩ := Option.bind_eq_some_iff.mp h
      rw [ih h2, apply_term h1]
      rfl

/-- What a crash leaves of calls saves no term they do not save. -/
theorem mem_of_mem_torn {ops : List (WalOp NodeID Cmd)} {k j term : ℕ} {vote : Option NodeID}
    (h : .saveMeta term vote ∈ torn WalOp.cut ops k j) : .saveMeta term vote ∈ ops := by
  have hall : ∀ x ∈ torn WalOp.cut ops k j, x = .saveMeta term vote → x ∈ ops := by
    refine forall_torn (P := fun x => x = .saveMeta term vote → x ∈ ops) (fun x hx _ => hx) ?_ k
    intro op _ x hx e
    subst e
    cases op with
    | appendLog entries => cases List.mem_singleton.mp hx
    | saveMeta | truncateSuffix | saveSnapshot => exact absurd hx List.not_mem_nil
  exact hall _ h rfl

/-- A section never lowers the term, and saves the terms it passes through. -/
structure Raises (rf rf' : Raft NodeID Cmd) : Prop where
  le : rf.term ≤ rf'.term
  wal : ∃ ops, rf'.wal = rf.wal ++ ops ∧ savedTerm rf.term ops = rf'.term ∧
    ∀ term vote, .saveMeta term vote ∈ ops → rf.term ≤ term ∧ term ≤ rf'.term

section Raises

variable {rf rf' rf'' : Raft NodeID Cmd}

theorem Raises.of_eq (h1 : rf'.term = rf.term) (h2 : rf'.wal = rf.wal) : Raises rf rf' where
  le := Nat.le_of_eq h1.symm
  wal := ⟨[], by rw [h2, List.append_nil], h1.symm, fun _ _ h => absurd h List.not_mem_nil⟩

theorem Raises.trans (h : Raises rf rf') (h' : Raises rf' rf'') : Raises rf rf'' where
  le := Nat.le_trans h.le h'.le
  wal := by
    obtain ⟨ops, e, hs, hops⟩ := h.wal
    obtain ⟨ops', e', hs', hops'⟩ := h'.wal
    refine ⟨ops ++ ops', by rw [e', e, List.append_assoc], by rw [savedTerm_append, hs, hs'], ?_⟩
    intro term vote hmem
    rcases List.mem_append.mp hmem with hmem | hmem
    · obtain ⟨h1, h2⟩ := hops term vote hmem
      exact ⟨h1, Nat.le_trans h2 h'.le⟩
    · obtain ⟨h1, h2⟩ := hops' term vote hmem
      exact ⟨Nat.le_trans h.le h1, h2⟩

/-- One WAL call that is no `SaveMeta`, or saves the term the section has reached. -/
theorem Raises.of_one {op : WalOp NodeID Cmd} (h1 : rf.term ≤ rf'.term)
    (h2 : rf'.wal = rf.wal ++ [op]) (h3 : op.savedTerm rf.term = rf'.term) : Raises rf rf' where
  le := h1
  wal := by
    refine ⟨[op], h2, h3, fun term vote hmem => ?_⟩
    rw [← List.mem_singleton.mp hmem] at h3
    have e : term = rf'.term := h3
    rw [e]
    exact ⟨h1, Nat.le_refl _⟩

theorem Change.raises (h : Change rf rf') : Raises rf rf' := by
  cases h with
  | memory | follow | credit => exact .of_eq rfl rfl
  | stepDown newTerm h => exact .of_one (Nat.le_of_lt h) rfl rfl
  | campaign me => exact .of_one (Nat.le_succ _) rfl rfl
  | vote | append => exact .of_one (Nat.le_refl _) rfl rfl
  | splice k logs entries =>
      refine ⟨Nat.le_refl _, _, rfl, rfl, fun term vote hmem => ?_⟩
      simp at hmem

theorem Changes.raises (h : Changes rf rf') : Raises rf rf' := by
  induction h with
  | refl => exact .of_eq rfl rfl
  | tail _ hc ih => exact ih.trans hc.raises

section Exec

variable [DecidableEq NodeID] [Inhabited Cmd] {cfg : Config NodeID} {me : NodeID}
  {p : Proc NodeID Cmd} {o : Outcome NodeID Cmd} {ev : Event NodeID Cmd}

theorem Writes.raises (h : Writes cfg me ev rf rf') : Raises rf rf' := by
  cases h with
  | plain hc => exact hc.raises
  | won count hc => exact .of_eq rfl rfl
  | saved N term data suffix c hb hc hN =>
      exact hc.raises.trans (.of_one (Nat.le_refl _) rfl rfl)

/-- **Every critical section.** -/
theorem exec_raises (h : exec cfg me p ev = some o) : Raises p.rf o.proc.rf := by
  have hc := exec_course h
  cases ev with
  | applyBatch =>
      obtain ⟨rf, msgs, hs, e⟩ := hc
      rw [e, sendApplyMsg_eq hs]
      exact .of_eq rfl rfl
  | apply =>
      obtain ⟨msg, rest, _, e⟩ := hc
      rw [e]
      exact .of_eq rfl rfl
  | _ => exact hc.2.2.raises

/-- The disk after a section. -/
theorem disk_term (h : exec cfg me p ev = some o) (hw : p.rf.wal = [])
    {st st' : PersistState NodeID Cmd} (hst : st.term = p.rf.term)
    (ha : st.applyAll o.proc.rf.wal = some st') : st'.term = o.proc.rf.term := by
  obtain ⟨ops, hops, hs, _⟩ := (exec_raises h).wal
  rw [hw, List.nil_append] at hops
  rw [applyAll_term ha, hst, hops, hs]

/-- The disk a crash in a section leaves. -/
theorem disk_term_torn (h : exec cfg me p ev = some o) (hw : p.rf.wal = [])
    {st st' : PersistState NodeID Cmd} (hst : st.term = p.rf.term) {k j : ℕ}
    (ha : st.applyAll (torn WalOp.cut o.proc.rf.wal k j) = some st') :
    p.rf.term ≤ st'.term ∧ st'.term ≤ o.proc.rf.term := by
  have hraise := exec_raises h
  obtain ⟨ops, hops, _, hbetween⟩ := hraise.wal
  rw [hw, List.nil_append] at hops
  rw [applyAll_term ha, hst, hops]
  rcases savedTerm_cases p.rf.term (torn WalOp.cut ops k j) with e | ⟨vote, hmem⟩
  · rw [e]
    exact ⟨Nat.le_refl _, hraise.le⟩
  · exact hbetween _ vote (mem_of_mem_torn hmem)

end Exec

end Raises

/-! ## 2. The generation -/

/-- Section `ev` of process `p` has reset the election timer: it accepted a leader's message,
    granted a vote or began an election. -/
def Resets (p : Proc NodeID Cmd) (o : Outcome NodeID Cmd) : Event NodeID Cmd → Prop
  | .tickerFire => o.proc.rf.term ≠ p.rf.term
  | .deliver pkt =>
      match pkt.call, o.answer with
      | .appendEntries args, _ => p.rf.term ≤ args.term
      | .requestVote _, some (_, .requestVote reply) => reply.voteGranted = true
      | .timeoutNow _, some (_, .timeoutNow reply) => reply.accepted = true
      | _, _ => False
  | _ => False

/-- No election begins from `rf` to `rf'`. -/
def Uncontested (rf rf' : Raft NodeID Cmd) : Prop :=
  rf'.customerId = .candidate → rf.customerId = .candidate ∧ rf'.term = rf.term

/-- The section leaves the election timer alone. -/
structure Unreset (rf rf' : Raft NodeID Cmd) : Prop where
  generation : rf'.electionGeneration = rf.electionGeneration
  uncontested : Uncontested rf rf'

section Generation

variable {rf rf' : Raft NodeID Cmd}

theorem Uncontested.of_eq (h1 : rf'.customerId = rf.customerId) (h2 : rf'.term = rf.term) :
    Uncontested rf rf' := fun h => ⟨h1 ▸ h, h2⟩

theorem Uncontested.of_ne (h : rf'.customerId ≠ .candidate) : Uncontested rf rf' :=
  fun hc => absurd hc h

theorem Unreset.of_eq (h1 : rf'.electionGeneration = rf.electionGeneration)
    (h2 : rf'.customerId = rf.customerId) (h3 : rf'.term = rf.term) : Unreset rf rf' :=
  ⟨h1, .of_eq h2 h3⟩

theorem stepDownIf_unreset (rf : Raft NodeID Cmd) (newTerm : ℕ) :
    Unreset rf (if newTerm > rf.term then rf.stepDown newTerm else rf) := by
  split
  · exact ⟨rfl, .of_ne nofun⟩
  · exact .of_eq rfl rfl rfl

theorem beginElectionLocked_generation {me : NodeID} {round : ElectionRound}
    (h : rf.beginElectionLocked me = some (rf', round)) :
    rf'.term = rf.term + 1 ∧ rf'.electionGeneration = rf.electionGeneration + 1 := by
  obtain ⟨_, _, e⟩ := Option.bind_eq_some_iff.mp h
  cases e
  exact ⟨rfl, rfl⟩

/-- The timer branch: nothing happens, or the server is not the leader, the generation is that of
    the timer, and an election begins. -/
theorem tickerFire_cases {me : NodeID} {generation : ℕ} {round : Option ElectionRound}
    (h : rf.tickerFire me generation = some (rf', round)) :
    rf' = rf ∨ rf.customerId ≠ .leader ∧ rf.electionGeneration = generation ∧
      rf'.term = rf.term + 1 ∧ rf'.electionGeneration = rf.electionGeneration + 1 := by
  unfold Raft.tickerFire at h
  split at h
  · cases h
    exact Or.inl rfl
  next hcheck =>
    obtain ⟨⟨rf1, r⟩, hb, e⟩ := Option.bind_eq_some_iff.mp h
    cases e
    refine Or.inr ⟨fun hl => hcheck (Or.inl hl), ?_, beginElectionLocked_generation hb⟩
    exact Classical.byContradiction fun hne => hcheck (Or.inr hne)

theorem requestVote_generation [DecidableEq NodeID] {args : RequestVoteArgs NodeID}
    {reply : RequestVoteReply} (h : rf.requestVote args = some (rf', reply)) :
    rf'.electionGeneration = rf.electionGeneration + (if reply.voteGranted then 1 else 0) ∧
      Uncontested rf rf' := by
  unfold Raft.requestVote at h
  split at h
  · cases h
    exact ⟨rfl, .of_eq rfl rfl⟩
  · have hstep := stepDownIf_unreset rf args.term
    generalize (if args.term > rf.term then rf.stepDown args.term else rf) = rf1 at h hstep
    obtain ⟨lastTerm, _, h⟩ := Option.bind_eq_some_iff.mp h
    dsimp only at h
    split at h
    · cases h
      exact ⟨congrArg (· + 1) hstep.generation, hstep.uncontested⟩
    · cases h
      exact ⟨hstep.generation, hstep.uncontested⟩

theorem appendEntriesHandler_generation [Inhabited Cmd] {args : AppendEntries NodeID Cmd}
    {reply : AppendEntriesReply} (h : rf.appendEntriesHandler args = some (rf', reply)) :
    rf'.electionGeneration = rf.electionGeneration + (if rf.term ≤ args.term then 1 else 0) ∧
      Uncontested rf rf' := by
  unfold Raft.appendEntriesHandler at h
  split at h
  next hlt =>
    cases h
    rw [if_neg (Nat.not_le.mpr hlt)]
    exact ⟨rfl, .of_eq rfl rfl⟩
  next hle =>
    -- what follows the acceptance touches neither the generation nor the role
    have hacc : (rf.acceptLeader args.term args.leaderId).electionGeneration =
          rf.electionGeneration + 1 ∧
        (rf.acceptLeader args.term args.leaderId).customerId = .follower :=
      ⟨congrArg (· + 1) (stepDownIf_unreset rf args.term).generation, rfl⟩
    rw [if_pos (Nat.le_of_not_lt hle)]
    suffices hrest : rf'.electionGeneration = rf.electionGeneration + 1 ∧
        rf'.customerId = .follower from ⟨hrest.1, .of_ne (by simp [hrest.2])⟩
    simp only at h
    split at h
    · rcases installSnapshot_changes h with rfl | ⟨_, term, suffix, c, _, rfl⟩
      · exact hacc
      · exact hacc
    · rcases appendOrReject_cases h with rfl | ⟨_, _, rf1, h1, rfl⟩
      · exact hacc
      · have hnew : rf1.electionGeneration = rf.electionGeneration + 1 ∧
            rf1.customerId = .follower := by
          rcases appendNew_cases h1 with rfl | ⟨i, logs, rfl⟩
          · exact hacc
          · exact hacc
        split
        · exact hnew
        · exact hnew

/-- The last entry, by its index. -/
theorem lastLogTerm_of_logAt {e : LogEntry Cmd} (h : rf.logAt rf.lastLogIndex = some e) :
    rf.lastLogTerm = some e.term := by
  unfold Raft.logAt Raft.relIdx Raft.lastLogIndex at h
  unfold Raft.lastLogTerm
  cases hlogs : rf.logs with
  | nil =>
      rw [hlogs] at h
      simp [Slice.index] at h
  | cons x xs =>
      rw [hlogs] at h
      have e1 : (((x :: xs).length - 1 + rf.snapshotIndex : ℕ) : Int) - rf.snapshotIndex =
          ((x :: xs).length : Int) - 1 := by
        rw [List.length_cons]
        omega
      rw [e1] at h
      rw [h]
      rfl

/-- The server is in the request's term, follows the leader that sent it and has its last entry. -/
structure Eligible (rf : Raft NodeID Cmd) (args : TimeoutNowArgs NodeID) : Prop where
  term : rf.term = args.term
  leader : rf.leaderId = some args.leaderId
  lastLogIndex : rf.lastLogIndex = args.lastLogIndex
  lastLogTerm : rf.lastLogTerm = some args.lastLogTerm

/-- **`TimeoutNow`** is refused, or accepted from the leader whose log the server has. -/
theorem timeoutNow_cases [DecidableEq NodeID] {me : NodeID} {args : TimeoutNowArgs NodeID}
    {reply : TimeoutNowReply} {round : Option ElectionRound}
    (h : rf.timeoutNow me args = some (rf', reply, round)) :
    reply.accepted = false ∧ Unreset rf rf' ∨
      reply.accepted = true ∧ Eligible rf args ∧
        rf'.term = rf.term + 1 ∧ rf'.electionGeneration = rf.electionGeneration + 1 := by
  unfold Raft.timeoutNow at h
  split at h
  · cases h
    exact Or.inl ⟨rfl, .of_eq rfl rfl rfl⟩
  next hlt =>
    have hstep := stepDownIf_unreset rf args.term
    -- a server that had to step down knows no leader
    have hsame : (if args.term > rf.term then rf.stepDown args.term else rf) = rf ∧
          rf.term = args.term ∨
        (if args.term > rf.term then rf.stepDown args.term else rf).leaderId = none := by
      by_cases hgt : args.term > rf.term
      · rw [if_pos hgt]
        exact Or.inr rfl
      · rw [if_neg hgt]
        exact Or.inl ⟨rfl, by omega⟩
    generalize (if args.term > rf.term then rf.stepDown args.term else rf) = rf1 at h hstep hsame
    dsimp only at h
    split at h
    · cases h
      exact Or.inl ⟨rfl, hstep⟩
    next hleader =>
      have hleader' : rf1.leaderId = some args.leaderId :=
        (Classical.byContradiction hleader : some args.leaderId = rf1.leaderId).symm
      obtain ⟨rfl, hterm⟩ : rf1 = rf ∧ rf.term = args.term := by
        rcases hsame with hsame | hnone
        · exact hsame
        · rw [hnone] at hleader'
          cases hleader'
      split at h
      · cases h
        exact Or.inl ⟨rfl, hstep⟩
      next hindex =>
        have hindex' : args.lastLogIndex = rf1.lastLogIndex :=
          Classical.byContradiction fun hne => hindex (Or.inr hne)
        obtain ⟨e, he, h⟩ := Option.bind_eq_some_iff.mp h
        rw [hindex'] at he
        split at h
        · cases h
          exact Or.inl ⟨rfl, hstep⟩
        next hentry =>
          obtain ⟨⟨rf2, r⟩, hb, e'⟩ := Option.bind_eq_some_iff.mp h
          cases e'
          have hentry' : e.term = args.lastLogTerm := Classical.byContradiction hentry
          have hlast := lastLogTerm_of_logAt he
          rw [hentry'] at hlast
          exact Or.inr ⟨rfl, ⟨hterm, hleader', hindex'.symm, hlast⟩,
            beginElectionLocked_generation hb⟩

theorem sendAppendEntries_unreset [DecidableEq NodeID] {me : NodeID} {nodeIDs : List NodeID}
    {server : NodeID} {args : AppendEntries NodeID Cmd} {reply : AppendEntriesReply}
    (h : rf.sendAppendEntries me nodeIDs server args reply = some rf') : Unreset rf rf' := by
  unfold Raft.sendAppendEntries at h
  split at h
  · cases h
    exact ⟨rfl, .of_ne nofun⟩
  · split at h
    · cases h
      exact .of_eq rfl rfl rfl
    · split at h
      · obtain ⟨c, rfl⟩ := commitLoop_eq me nodeIDs _ h
        dsimp only
        split
        · exact .of_eq rfl rfl rfl
        · exact .of_eq rfl rfl rfl
      · split at h
        · cases h
          exact .of_eq rfl rfl rfl
        · cases h
          exact .of_eq rfl rfl rfl

theorem sendRequestVote_unreset [DecidableEq NodeID] (me : NodeID) (nodeIDs : List NodeID)
    (rf : Raft NodeID Cmd) (args : RequestVoteArgs NodeID) (reply : RequestVoteReply) :
    Unreset rf (rf.sendRequestVote me nodeIDs args reply) := by
  unfold Raft.sendRequestVote
  split
  · exact ⟨rfl, .of_ne nofun⟩
  · split
    · exact .of_eq rfl rfl rfl
    · dsimp only
      split
      · exact ⟨rfl, .of_ne nofun⟩
      · exact .of_eq rfl rfl rfl

end Generation

/-- The sections of `ticker`. -/
def Event.OfTicker : Event NodeID Cmd → Prop
  | .tickerArm | .tickerFire | .tickerReset => True
  | _ => False

/-- `TimeoutNow` with `args` was accepted in section `ev`. -/
def Accepted (o : Outcome NodeID Cmd) (args : TimeoutNowArgs NodeID) (ev : Event NodeID Cmd) :
    Prop :=
  ∃ pkt reply, ev = .deliver pkt ∧ pkt.call = .timeoutNow args ∧
    o.answer = some (pkt, .timeoutNow reply) ∧ reply.accepted = true

section Exec

variable [DecidableEq NodeID] [Inhabited Cmd] {cfg : Config NodeID} {me : NodeID}
  {p : Proc NodeID Cmd} {o : Outcome NodeID Cmd} {ev : Event NodeID Cmd}

/-- What a section does to the timer, the generation and the role. -/
structure Clocked (p : Proc NodeID Cmd) (ev : Event NodeID Cmd) (o : Outcome NodeID Cmd) :
    Prop where
  reset : Resets p o ev → o.proc.rf.electionGeneration = p.rf.electionGeneration + 1
  kept : ¬ Resets p o ev → o.proc.rf.electionGeneration = p.rf.electionGeneration
  timer : ¬ ev.OfTicker → o.proc.timer = p.timer
  start : Uncontested p.rf o.proc.rf ∨ (ev = .tickerFire ∧ o.proc.rf.term ≠ p.rf.term) ∨
    ∃ args, Accepted o args ev

omit [DecidableEq NodeID] [Inhabited Cmd] in
theorem Clocked.of_unreset (hr : ¬ Resets p o ev) (hu : Unreset p.rf o.proc.rf)
    (ht : ¬ ev.OfTicker → o.proc.timer = p.timer) : Clocked p ev o where
  reset h := absurd h hr
  kept _ := hu.generation
  timer := ht
  start := Or.inl hu.uncontested

omit [DecidableEq NodeID] [Inhabited Cmd] in
/-- A handler that counts up the generation exactly if it resets. -/
theorem Clocked.of_count {P : Prop} [Decidable P] (hP : Resets p o ev ↔ P)
    (h : o.proc.rf.electionGeneration = p.rf.electionGeneration + (if P then 1 else 0) ∧
      Uncontested p.rf o.proc.rf)
    (ht : ¬ ev.OfTicker → o.proc.timer = p.timer) : Clocked p ev o where
  reset hr := by rw [h.1, if_pos (hP.mp hr)]
  kept hr := by rw [h.1, if_neg fun hp => hr (hP.mpr hp), Nat.add_zero]
  timer := ht
  start := Or.inl h.2

omit [DecidableEq NodeID] [Inhabited Cmd] in
theorem resets_timeoutNow {pkt : Packet NodeID Cmd} {args : TimeoutNowArgs NodeID}
    {reply : TimeoutNowReply} (hc : pkt.call = .timeoutNow args)
    (ha : o.answer = some (pkt, .timeoutNow reply)) :
    Resets p o (.deliver pkt) ↔ reply.accepted = true := by
  simp only [Resets, hc, ha]

/-- **`electionGeneration` counts the resets**, only `ticker` touches its timer, and only its timer
    branch and an accepted `TimeoutNow` begin an election. -/
theorem exec_clocked (h : exec cfg me p ev = some o) : Clocked p ev o := by
  cases exec_cases h with
  | tickerArm | tickerReset =>
      exact .of_unreset id (.of_eq rfl rfl rfl) fun hne => absurd trivial hne
  | callFailed | heartbeat | apply | transfer | noTransfer =>
      exact .of_unreset id (.of_eq rfl rfl rfl) fun _ => rfl
  | @tickerFire _ rf _ _ hr =>
      rcases tickerFire_cases hr with rfl | ⟨_, _, hterm, hg⟩
      · exact .of_unreset (fun hne => hne rfl) (.of_eq rfl rfl rfl) fun hne => absurd trivial hne
      · have hmoves : rf.term ≠ p.rf.term := by omega
        exact ⟨fun _ => hg, fun hres => absurd hmoves hres, fun hne => absurd trivial hne,
          Or.inr (Or.inl ⟨rfl, hmoves⟩)⟩
  | @requestVote pkt _ _ reply hc hr =>
      refine .of_count (P := reply.voteGranted = true) ?_ (requestVote_generation hr) fun _ => rfl
      simp only [Resets, hc]
  | @appendEntries pkt args _ _ hc hr =>
      refine .of_count (P := p.rf.term ≤ args.term) ?_ (appendEntriesHandler_generation hr)
        fun _ => rfl
      simp only [Resets, hc]
  | @timeoutNow pkt args _ reply _ hc hr =>
      rcases timeoutNow_cases hr with ⟨hno, hu⟩ | ⟨hyes, _, _, hg⟩
      · refine .of_unreset (fun hres => ?_) hu fun _ => rfl
        rw [(resets_timeoutNow hc rfl).mp hres] at hno
        cases hno
      · exact ⟨fun _ => hg, fun hres => absurd ((resets_timeoutNow hc rfl).mpr hyes) hres,
          fun _ => rfl, Or.inr (Or.inr ⟨args, pkt, reply, rfl, hc, rfl, hyes⟩)⟩
  | votes _ => exact .of_unreset id (sendRequestVote_unreset me cfg.nodeIDs p.rf _ _) fun _ => rfl
  | matched _ hr => exact .of_unreset id (sendAppendEntries_unreset hr) fun _ => rfl
  | transferred _ => exact .of_unreset id (stepDownIf_unreset p.rf _) fun _ => rfl
  | start =>
      refine .of_unreset id ?_ fun _ => rfl
      show Unreset p.rf (p.rf.start _).1
      unfold Raft.start
      split
      · exact .of_eq rfl rfl rfl
      · exact .of_eq rfl rfl rfl
  | applyBatch hr =>
      rw [sendApplyMsg_eq hr]
      exact .of_unreset id (.of_eq rfl rfl rfl) fun _ => rfl
  | snapshot hr =>
      rcases snapshotUpTo_changes hr with rfl | ⟨_, term, suffix, _, rfl⟩
      · exact .of_unreset id (.of_eq rfl rfl rfl) fun _ => rfl
      · exact .of_unreset id (.of_eq rfl rfl rfl) fun _ => rfl

/-- What an accepted request says of the server. -/
theorem Accepted.eligible {args : TimeoutNowArgs NodeID} (ha : Accepted o args ev)
    (h : exec cfg me p ev = some o) : Eligible p.rf args ∧ o.proc.rf.term = p.rf.term + 1 := by
  obtain ⟨pkt, reply, rfl, hcall, hanswer, hyes⟩ := ha
  obtain ⟨src, dst, call⟩ := pkt
  cases hcall
  obtain ⟨⟨rf, reply', round⟩, hr, e⟩ := Option.bind_eq_some_iff.mp h
  cases e
  cases hanswer
  rcases timeoutNow_cases hr with ⟨hno, _⟩ | ⟨_, heligible, hterm, _⟩
  · rw [hno] at hyes
    cases hyes
  · exact ⟨heligible, hterm⟩

end Exec

/-! ## 3. One server -/

/-- A server: the process and its disk. -/
structure Server (NodeID Cmd : Type) where
  proc : Proc NodeID Cmd
  disk : PersistState NodeID Cmd

/-- When `ticker` can take a branch. The other sections run at any time. -/
def Proc.Ready (p : Proc NodeID Cmd) : Event NodeID Cmd → Prop
  | .tickerArm => p.timer = none
  | .tickerFire => p.timer ≠ none
  | .tickerReset => p.timer ≠ none ∧ p.rf.resetCh = true
  | _ => True

/-- What happens at a server: a section with the process it found and its outcome, a section a
    crash broke off with the disk it left, a restart. -/
inductive Moment (NodeID Cmd : Type) where
  | ran (p : Proc NodeID Cmd) (ev : Event NodeID Cmd) (o : Outcome NodeID Cmd)
  | died (p : Proc NodeID Cmd) (ev : Event NodeID Cmd) (o : Outcome NodeID Cmd)
      (st : PersistState NodeID Cmd)
  | restarted

/-- A server at the start of a process. -/
def Server.boot (st : PersistState NodeID Cmd) : Server NodeID Cmd := ⟨Proc.boot st, st⟩

/-- One step of a server. -/
inductive Server.Step [DecidableEq NodeID] [Inhabited Cmd] (cfg : Config NodeID) (me : NodeID) :
    Server NodeID Cmd → Moment NodeID Cmd → Server NodeID Cmd → Prop where
  | run {s : Server NodeID Cmd} (ev : Event NodeID Cmd) (hev : s.proc.Ready ev)
      (o : Outcome NodeID Cmd) (ho : exec cfg me s.proc ev = some o)
      (st : PersistState NodeID Cmd) (hst : s.disk.applyAll o.proc.rf.wal = some st) :
      Step cfg me s (.ran s.proc ev o) ⟨{ o.proc with rf := { o.proc.rf with wal := [] } }, st⟩
  | crash {s : Server NodeID Cmd} (ev : Event NodeID Cmd) (hev : s.proc.Ready ev)
      (o : Outcome NodeID Cmd) (ho : exec cfg me s.proc ev = some o) (k j : ℕ)
      (st : PersistState NodeID Cmd)
      (hst : s.disk.applyAll (torn WalOp.cut o.proc.rf.wal k j) = some st) :
      Step cfg me s (.died s.proc ev o st) (.boot st)
  | restart {s : Server NodeID Cmd} : Step cfg me s .restarted (.boot s.disk)

namespace Moment

/-- The section, whether or not it came to its end. -/
def during : Moment NodeID Cmd → Option (Proc NodeID Cmd × Event NodeID Cmd × Outcome NodeID Cmd)
  | ran p ev o | died p ev o _ => some (p, ev, o)
  | restarted => none

/-- A section outside `ticker`. -/
def Untimed : Moment NodeID Cmd → Prop
  | ran _ ev _ => ¬ ev.OfTicker
  | _ => False

/-- The election timer was reset. -/
def Resets (m : Moment NodeID Cmd) : Prop :=
  ∃ p ev o, m.during = some (p, ev, o) ∧ Raft1.Resets p o ev

/-- An election begins. -/
def Contests (m : Moment NodeID Cmd) : Prop :=
  ∃ p ev o, m.during = some (p, ev, o) ∧ ¬ Uncontested p.rf o.proc.rf

/-- The timer branch of `ticker` moves the term. -/
def Fires (m : Moment NodeID Cmd) : Prop :=
  ∃ p o, m.during = some (p, .tickerFire, o) ∧ o.proc.rf.term ≠ p.rf.term

/-- `TimeoutNow` with `args` begins an election. -/
def Obeys (args : TimeoutNowArgs NodeID) (m : Moment NodeID Cmd) : Prop :=
  ∃ p ev o, m.during = some (p, ev, o) ∧ Accepted o args ev

/-- The server accepts `TimeoutNow` with `args`: it answers so, or, where a crash breaks the section
    off, the new term has reached the disk. -/
def Accepts (args : TimeoutNowArgs NodeID) : Moment NodeID Cmd → Prop
  | ran _ ev o => Accepted o args ev
  | died p ev o st => Accepted o args ev ∧ st.term ≠ p.rf.term
  | restarted => False

end Moment

/-! ## 4. The invariant -/

/-- After `pre` the ticker holds a timer, and nothing has reset it since the generation was
    sampled for it. -/
def Standing (pre : List (Moment NodeID Cmd)) : Prop :=
  ∃ before p o mid, pre = before ++ .ran p .tickerArm o :: mid ∧
    ∀ m ∈ mid, m.Untimed ∧ ¬ m.Resets

/-- Whatever begins an election after `pre` has a valid trigger. -/
structure Prompted (pre : List (Moment NodeID Cmd)) (m : Moment NodeID Cmd) : Prop where
  contests : m.Contests → m.Fires ∨ ∃ args, m.Obeys args
  fires : ∀ p o, m.during = some (p, .tickerFire, o) → o.proc.rf.term ≠ p.rf.term →
    p.rf.customerId ≠ .leader ∧ Standing pre
  obeys : ∀ args p ev o, m.during = some (p, ev, o) → Accepted o args ev → Eligible p.rf args
  accepts : ∀ args, m.Accepts args → ∀ m' ∈ pre, ∀ args', m'.Accepts args' → args'.term < args.term

/-- The timer was armed by the present process, with the generation of that moment; if that is still
    the generation then nothing has reset it. -/
def Armed (p : Proc NodeID Cmd) (ms : List (Moment NodeID Cmd)) (generation : ℕ) : Prop :=
  ∃ before p' o' mid, ms = before ++ .ran p' .tickerArm o' :: mid ∧ (∀ m ∈ mid, m.Untimed) ∧
    generation ≤ p.rf.electionGeneration ∧
    (p.rf.electionGeneration = generation → ∀ m ∈ mid, ¬ m.Resets)

/-- What a server keeps of its history. -/
structure Server.Kept (s : Server NodeID Cmd) (ms : List (Moment NodeID Cmd)) : Prop where
  wal : s.proc.rf.wal = []
  disk : s.disk.term = s.proc.rf.term
  armed : ∀ generation, s.proc.timer = some generation → Armed s.proc ms generation
  spent : ∀ m ∈ ms, ∀ args, m.Accepts args → args.term < s.proc.rf.term

section Invariant

variable [DecidableEq NodeID] [Inhabited Cmd] {cfg : Config NodeID} {me : NodeID}
  {s s' : Server NodeID Cmd} {ms : List (Moment NodeID Cmd)} {m : Moment NodeID Cmd}
  {ev : Event NodeID Cmd} {o : Outcome NodeID Cmd}

omit [DecidableEq NodeID] [Inhabited Cmd] in
theorem kept_boot {st : PersistState NodeID Cmd}
    (h : ∀ m ∈ ms, ∀ args, m.Accepts args → args.term < st.term) : (Server.boot st).Kept ms where
  wal := rfl
  disk := rfl
  armed _ ht := by cases ht
  spent := h

/-- A section at a server that has kept its history. -/
theorem Server.Kept.fires (h : s.Kept ms) (ho : exec cfg me s.proc .tickerFire = some o)
    (hterm : o.proc.rf.term ≠ s.proc.rf.term) : s.proc.rf.customerId ≠ .leader ∧ Standing ms := by
  cases exec_cases ho with
  | tickerFire htimer hr =>
      rcases tickerFire_cases hr with rfl | ⟨hrole, hgen, _, _⟩
      · exact absurd rfl hterm
      · obtain ⟨before, p', o', mid, e, huntimed, _, hquiet⟩ := h.armed _ htimer
        exact ⟨hrole, before, p', o', mid, e, fun m hm => ⟨huntimed m hm, hquiet hgen m hm⟩⟩

/-- The timer after a section. -/
theorem Armed.run {p : Proc NodeID Cmd} {generation : ℕ} (h : Armed p ms generation)
    (ho : exec cfg me p ev = some o) (hev : ¬ ev.OfTicker) :
    Armed o.proc (ms ++ [.ran p ev o]) generation := by
  obtain ⟨before, p', o', mid, e, huntimed, hle, hquiet⟩ := h
  have hc := exec_clocked ho
  have hup : p.rf.electionGeneration ≤ o.proc.rf.electionGeneration := by
    by_cases hr : Resets p o ev
    · rw [hc.reset hr]
      exact Nat.le_succ _
    · exact Nat.le_of_eq (hc.kept hr).symm
  refine ⟨before, p', o', mid ++ [.ran p ev o], by rw [e]; simp, ?_, Nat.le_trans hle hup, ?_⟩
  · intro m hm
    rcases List.mem_append.mp hm with hm | hm
    · exact huntimed m hm
    · cases List.mem_singleton.mp hm
      exact hev
  · -- a section that left the generation at that of the timer has left it alone
    intro hgen m hm
    have hsame : p.rf.electionGeneration = generation := by omega
    rcases List.mem_append.mp hm with hm | hm
    · exact hquiet hsame m hm
    · cases List.mem_singleton.mp hm
      intro hres
      obtain ⟨_, _, _, e', hres⟩ := hres
      cases e'
      have := hc.reset hres
      omega

omit [DecidableEq NodeID] [Inhabited Cmd] in
/-- A restart begins nothing. -/
theorem prompted_restarted : Prompted ms .restarted where
  contests hc := by
    obtain ⟨_, _, _, e, _⟩ := hc
    cases e
  fires _ _ e := by cases e
  obeys _ _ _ _ e := by cases e
  accepts _ hacc := hacc.elim

/-- The trigger of a section, whether or not it comes to its end. -/
theorem Server.Kept.prompted (h : s.Kept ms) (ho : exec cfg me s.proc ev = some o)
    (hm : m.during = some (s.proc, ev, o)) (ha : ∀ args, m.Accepts args → Accepted o args ev) :
    Prompted ms m where
  contests hc := by
    obtain ⟨p, ev', o', e, hc⟩ := hc
    cases hm.symm.trans e
    rcases (exec_clocked ho).start with hun | ⟨rfl, hterm⟩ | ⟨args, hacc⟩
    · exact absurd hun hc
    · exact Or.inl ⟨_, _, hm, hterm⟩
    · exact Or.inr ⟨args, _, _, _, hm, hacc⟩
  fires p o' e hterm := by
    cases hm.symm.trans e
    exact h.fires ho hterm
  obeys args p ev' o' e hacc := by
    cases hm.symm.trans e
    exact (hacc.eligible ho).1
  accepts args hacc m' hm' args' hacc' := by
    rw [← ((ha args hacc).eligible ho).1.term]
    exact h.spent m' hm' args' hacc'

omit [DecidableEq NodeID] [Inhabited Cmd] in
/-- The requests accepted so far, after a section that leaves the term at `term`. -/
theorem Server.Kept.spent_concat (h : s.Kept ms) {term : ℕ} (hle : s.proc.rf.term ≤ term)
    (hnew : ∀ args, m.Accepts args → args.term < term) :
    ∀ m' ∈ ms ++ [m], ∀ args, m'.Accepts args → args.term < term := by
  intro m' hm' args hacc
  rcases List.mem_append.mp hm' with hm' | hm'
  · exact Nat.lt_of_lt_of_le (h.spent m' hm' args hacc) hle
  · cases List.mem_singleton.mp hm'
    exact hnew args hacc

/-- The timer after a section that came to its end. -/
theorem Server.Kept.armed_run (h : s.Kept ms) (ho : exec cfg me s.proc ev = some o) {generation : ℕ}
    (ht : o.proc.timer = some generation) :
    Armed o.proc (ms ++ [.ran s.proc ev o]) generation := by
  by_cases hev : ev.OfTicker
  · cases exec_cases ho with
    | tickerArm =>
        cases ht
        exact ⟨ms, _, _, [], rfl, fun _ hm => absurd hm List.not_mem_nil, Nat.le_refl _,
          fun _ _ hm => absurd hm List.not_mem_nil⟩
    | tickerFire | tickerReset => cases ht
    | _ => exact hev.elim
  · rw [(exec_clocked ho).timer hev] at ht
    exact (h.armed generation ht).run ho hev

/-- **One step**: its trigger is valid, and the history is kept. -/
theorem Server.Kept.step (h : s.Kept ms) (hs : Server.Step cfg me s m s') :
    Prompted ms m ∧ s'.Kept (ms ++ [m]) := by
  cases hs with
  | run ev hev o ho st hst =>
      refine ⟨h.prompted ho rfl fun args hacc => hacc, rfl, disk_term ho h.wal h.disk hst,
        fun generation ht => h.armed_run ho ht, ?_⟩
      refine h.spent_concat (exec_raises ho).le fun args hacc => ?_
      obtain ⟨heligible, hterm⟩ := Accepted.eligible hacc ho
      have := heligible.term
      show args.term < o.proc.rf.term
      omega
  | crash ev hev o ho k j st hst =>
      refine ⟨h.prompted ho rfl fun args hacc => hacc.1, kept_boot ?_⟩
      have hbetween := disk_term_torn ho h.wal h.disk hst
      refine h.spent_concat hbetween.1 fun args hacc => ?_
      -- the crash left the new term on disk
      obtain ⟨hacc, hmoved⟩ := hacc
      have := (Accepted.eligible hacc ho).1.term
      omega
  | restart =>
      refine ⟨prompted_restarted, kept_boot ?_⟩
      exact h.spent_concat (Nat.le_of_eq h.disk.symm) fun _ hacc => hacc.elim

/-- **Every run.** -/
theorem trace_justified {st : PersistState NodeID Cmd}
    (h : Trace (Server.Step cfg me) (.boot st) ms s) : Justified Prompted ms ∧ s.Kept ms := by
  induction h with
  | nil => exact ⟨.nil, kept_boot fun _ hm => absurd hm List.not_mem_nil⟩
  | snoc _ hstep ih =>
      obtain ⟨hall, hkept⟩ := ih
      obtain ⟨hprompted, hkept'⟩ := hkept.step hstep
      exact ⟨hall.concat hprompted, hkept'⟩

end Invariant

/-! ## 5. The triggers of a history -/

theorem Moment.Fires.not_untimed {m : Moment NodeID Cmd} (h : m.Fires) : ¬ m.Untimed := by
  obtain ⟨p, o, e, _⟩ := h
  cases m with
  | ran =>
      cases e
      exact fun hu => hu trivial
  | died => exact id
  | restarted => exact id

theorem Moment.Fires.ne_arm {m : Moment NodeID Cmd} (h : m.Fires) (p : Proc NodeID Cmd)
    (o : Outcome NodeID Cmd) : m ≠ .ran p .tickerArm o := by
  obtain ⟨_, _, e, _⟩ := h
  intro e'
  subst e'
  cases e

/-- A timer that is fresh after an election was armed after it. -/
theorem Standing.arm_mem {pre mid : List (Moment NodeID Cmd)} {m : Moment NodeID Cmd}
    (h : Standing (pre ++ m :: mid)) (hm : m.Fires) : ∃ p o, .ran p .tickerArm o ∈ mid := by
  obtain ⟨before, p, o, mid', e, hmid'⟩ := h
  refine ⟨p, o, ?_⟩
  rcases List.append_eq_append_iff.mp e with ⟨as, _, e⟩ | ⟨bs, _, e⟩
  · cases as with
    | nil => exact absurd (List.cons.inj e).1 (hm.ne_arm p o)
    | cons a as =>
        rw [(List.cons.inj e).2]
        exact List.mem_append_right as List.mem_cons_self
  · cases bs with
    | nil => exact absurd (List.cons.inj e).1.symm (hm.ne_arm p o)
    | cons b bs =>
        -- the election would lie between the arming and itself
        refine absurd (hmid' m ?_).1 hm.not_untimed
        rw [(List.cons.inj e).2]
        exact List.mem_append_right bs List.mem_cons_self

/-- Elections start only from triggers that are still valid. -/
structure Triggered (ms : List (Moment NodeID Cmd)) : Prop where
  /-- An election begins in the timer branch of `ticker` or with an accepted `TimeoutNow`. -/
  contests : ∀ m ∈ ms, m.Contests → m.Fires ∨ ∃ args, m.Obeys args
  /-- The timer branch moves the term of a server that is not the leader, and nothing has reset
      the timer since the generation was sampled for it. -/
  ticker : ∀ pre m post p o, ms = pre ++ m :: post → m.during = some (p, .tickerFire, o) →
    o.proc.rf.term ≠ p.rf.term → p.rf.customerId ≠ .leader ∧ Standing pre
  /-- An armed timer starts at most one election. -/
  timer : ∀ pre m mid m' post, ms = pre ++ m :: mid ++ m' :: post → m.Fires → m'.Fires →
    ∃ p o, .ran p .tickerArm o ∈ mid
  /-- `TimeoutNow` is accepted in its term, from the known leader whose last entry the server
      has. -/
  timeoutNow : ∀ m ∈ ms, ∀ args p ev o, m.during = some (p, ev, o) → Accepted o args ev →
    Eligible p.rf args
  /-- Of the requests of one term at most one is accepted. -/
  once : ∀ pre m post args, ms = pre ++ m :: post → m.Accepts args →
    ∀ m' ∈ pre ++ post, ∀ args', m'.Accepts args' → args'.term ≠ args.term

/-- **Every election of every run has a valid trigger.** -/
theorem elections_triggered [DecidableEq NodeID] [Inhabited Cmd] {cfg : Config NodeID} {me : NodeID}
    {st : PersistState NodeID Cmd} {ms : List (Moment NodeID Cmd)} {s : Server NodeID Cmd}
    (h : Trace (Server.Step cfg me) (.boot st) ms s) : Triggered ms := by
  obtain ⟨hall, _⟩ := trace_justified h
  refine ⟨?_, ?_, ?_, ?_, ?_⟩
  · intro m hm
    obtain ⟨_, _, _, hprompted⟩ := hall.of_mem hm
    exact hprompted.contests
  · intro pre m post p o e
    exact (hall pre m post e).fires p o
  · intro pre m mid m' post e hm hm'
    obtain ⟨p, o, hduring, hterm⟩ := hm'
    exact ((hall (pre ++ m :: mid) m' post e).fires p o hduring hterm).2.arm_mem hm
  · intro m hm
    obtain ⟨_, _, _, hprompted⟩ := hall.of_mem hm
    exact hprompted.obeys
  · intro pre m post args e hacc m' hm' args' hacc'
    rcases List.mem_append.mp hm' with hm' | hm'
    · exact Nat.ne_of_lt ((hall pre m post e).accepts args hacc m' hm' args' hacc')
    · obtain ⟨q, q', rfl⟩ := List.append_of_mem hm'
      have hlater : Prompted (pre ++ m :: q) m' := hall _ m' q' (by rw [e]; simp)
      exact Nat.ne_of_gt (hlater.accepts args' hacc' m (by simp) args hacc)

/-- A node whose timer starts an election hears of another leader and is told to take over. -/
theorem elections_triggered_takeover :
    ∃ ms s, Trace (Server.Step ⟨[0, 1, 2], by decide⟩ 0) (.boot (.fresh : PersistState ℕ ℕ)) ms s ∧
      (∃ m ∈ ms, m.Fires) ∧ (∃ m ∈ ms, m.Accepts ⟨2, 1, 0, 0⟩) ∧ Triggered ms := by
  have harm := Trace.nil.snoc (Server.Step.run (s := .boot (.fresh : PersistState ℕ ℕ)) .tickerArm
    rfl _ (rfl : exec ⟨[0, 1, 2], by decide⟩ 0 _ _ = _) _ rfl)
  have hfire := harm.snoc (.run .tickerFire (by exact Option.some_ne_none _) _ (by exact rfl) _
    (by exact rfl))
  have hheard := hfire.snoc
    (.run (.deliver ⟨1, 0, .appendEntries ⟨2, 1, 0, 0, [], 0, none, 0, 0⟩⟩) trivial _
      (by exact rfl) _ (by exact rfl))
  have htold := hheard.snoc
    (.run (.deliver ⟨1, 0, .timeoutNow ⟨2, 1, 0, 0⟩⟩) trivial _ (by exact rfl) _ (by exact rfl))
  refine ⟨_, _, htold, ⟨_, List.mem_cons_of_mem _ List.mem_cons_self, _, _, rfl, by decide⟩,
    ⟨_, List.mem_append_right _ List.mem_cons_self, _, _, rfl, rfl, rfl, rfl⟩, ?_⟩
  exact elections_triggered htold

/-! ## 6. The nodes of a cluster -/

section Cluster

variable [DecidableEq NodeID] [Inhabited Cmd] {cfg : Config NodeID} {c c' : Cluster NodeID Cmd}

omit [DecidableEq NodeID] [Inhabited Cmd] in
theorem ready_of_enabled {n : NodeID} {ev : Event NodeID Cmd} (h : c.Enabled n ev) :
    (c.node n).Ready ev := by
  cases ev with
  | tickerArm | tickerFire | tickerReset => exact h
  | _ => exact trivial

/-- The server at node `n`. -/
def Cluster.server (c : Cluster NodeID Cmd) (n : NodeID) : Server NodeID Cmd := ⟨c.node n, c.disk n⟩

omit [Inhabited Cmd] in
theorem server_complete (c : Cluster NodeID Cmd) (n n' : NodeID) (o : Outcome NodeID Cmd)
    (st : PersistState NodeID Cmd) : (c.complete n o st).server n' =
      if n' = n then ⟨{ o.proc with rf := { o.proc.rf with wal := [] } }, st⟩ else c.server n' := by
  by_cases h : n' = n
  · subst h
    simp [Cluster.server, Cluster.complete]
  · simp [Cluster.server, Cluster.complete, h]

omit [Inhabited Cmd] in
theorem server_reboot (c : Cluster NodeID Cmd) (n n' : NodeID) (made : List (ℕ × Bytes))
    (st : PersistState NodeID Cmd) :
    (c.reboot n made st).server n' = if n' = n then .boot st else c.server n' := by
  by_cases h : n' = n
  · subst h
    simp [Cluster.server, Cluster.reboot, Server.boot]
  · simp [Cluster.server, Cluster.reboot, h]

/-- A step of the cluster is a step of one node. -/
theorem step_server (h : Cluster.Step cfg c c') (n : NodeID) :
    c'.server n = c.server n ∨ ∃ m, Server.Step cfg n (c.server n) m (c'.server n) := by
  cases h with
  | run n' hn ev hev o ho st hst =>
      rw [server_complete]
      split
      next e =>
        subst e
        exact Or.inr ⟨_, .run ev (ready_of_enabled hev) o ho st hst⟩
      next => exact Or.inl rfl
  | crash n' hn ev hev o ho k j st hst =>
      rw [server_reboot]
      split
      next e =>
        subst e
        exact Or.inr ⟨_, .crash ev (ready_of_enabled hev) o ho k j st hst⟩
      next => exact Or.inl rfl
  | restart n' hn =>
      rw [server_reboot]
      split
      next e =>
        subst e
        exact Or.inr ⟨_, .restart⟩
      next => exact Or.inl rfl

/-- **A node of a cluster is such a server.** -/
theorem reachable_trace (h : Cluster.Reachable cfg c) (n : NodeID) :
    ∃ ms, Trace (Server.Step cfg n) (.boot .fresh) ms (c.server n) := by
  refine run_inv (I := fun c => ∃ ms, Trace (Server.Step cfg n) (.boot .fresh) ms (c.server n)) ?_ h
    ⟨[], .nil⟩
  intro c c' hstep hc
  obtain ⟨ms, hms⟩ := hc
  rcases step_server hstep n with e | ⟨m, hm⟩
  · rw [e]
    exact ⟨ms, hms⟩
  · exact ⟨_, hms.snoc hm⟩

end Cluster

end RaftLab.Raft1

/-
  File:      RaftLab/Raft1/Placement.lean
  Subject:   Where the entries of a cluster stand, and what `Start` promises.

  `Start` returns an index and a term before the entry is anywhere but in the leader's log. The
  service relies on it: if the entry is ever handed over, then at that index.

  * `Placed P c` -- every entry of the cluster stands at an index where `P` lets it: in the logs, in
    the messages, in the batches for the services; **`Placed.next`**: every step keeps it, as long as
    `Start` puts its entries where `P` lets them. A log is moved, cut and spliced, and so is what a
    crash leaves of it, but no entry gets another index or another term;
  * `Traced cfg l c` -- a run with the calls of `Start` that found a leader;
  * `start_contract` -- **what a service is handed at an index was given to a `Start` that returned
    this index**; so is every entry of a log, with its term. And where `Start` has returned an index
    and a term, no other entry with this term is ever at the index.
-/
import RaftLab.Raft1.Delivery
import RaftLab.Raft1.Safety

namespace RaftLab.Raft1

open RaftLab.Lib RaftLab.Lib.TermLog Relation Cluster

variable {NodeID Cmd : Type}

/-! ## 1. Entries at indexes -/

/-- The entries stand at the indexes from `i` on. -/
def Stand (P : ℕ → LogEntry Cmd → Prop) (i : ℕ) (entries : List (LogEntry Cmd)) : Prop :=
  ∀ k e, entries[k]? = some e → P (i + k) e

section Stand

variable {P : ℕ → LogEntry Cmd → Prop} {i : ℕ} {entries entries' : List (LogEntry Cmd)}

theorem Stand.nil : Stand P i [] := fun _ _ h => by cases h

theorem Stand.single {e : LogEntry Cmd} (h : P i e) : Stand P i [e] := by
  intro k e' hk
  obtain ⟨hlt, rfl⟩ := List.getElem?_eq_some_iff.mp hk
  rw [List.length_singleton] at hlt
  obtain rfl : k = 0 := by omega
  exact h

theorem Stand.imp {P' : ℕ → LogEntry Cmd → Prop} (h : Stand P i entries)
    (hP : ∀ j e, P j e → P' j e) : Stand P' i entries := fun k e hk => hP _ _ (h k e hk)

theorem Stand.append (h : Stand P i entries) (h' : Stand P (i + entries.length) entries') :
    Stand P i (entries ++ entries') := by
  intro k e hk
  rcases Nat.lt_or_ge k entries.length with hlt | hge
  · rw [List.getElem?_append_left hlt] at hk
    exact h k e hk
  · rw [List.getElem?_append_right hge] at hk
    have := h' _ e hk
    rwa [show i + entries.length + (k - entries.length) = i + k by omega] at this

theorem Stand.take (h : Stand P i entries) (k : ℕ) : Stand P i (entries.take k) := by
  intro j e hj
  rw [List.getElem?_take] at hj
  split at hj
  · exact h j e hj
  · cases hj

theorem Stand.drop (h : Stand P i entries) (k : ℕ) : Stand P (i + k) (entries.drop k) := by
  intro j e hj
  rw [List.getElem?_drop] at hj
  rw [Nat.add_assoc]
  exact h _ e hj

/-- The entries of a log behind index `k`, which is the sentinel's or later. -/
theorem Stand.from {rf : Raft NodeID Cmd} (h : Stand P (rf.snapshotIndex + 1) rf.logs.tail) {k : ℕ}
    (hk : rf.snapshotIndex ≤ k) (hs : Slice.from? rf.logs (rf.relIdx k + 1) = some entries) :
    Stand P (k + 1) entries := by
  unfold Slice.from? Raft.relIdx at hs
  split at hs
  · cases hs
    rw [show ((k : Int) - rf.snapshotIndex + 1).toNat = (k - rf.snapshotIndex) + 1 by omega,
      ← List.drop_tail, show k + 1 = rf.snapshotIndex + 1 + (k - rf.snapshotIndex) by omega]
    exact h.drop _
  · cases hs

/-- An entry of a log. -/
theorem Stand.at {rf : Raft NodeID Cmd} (h : Stand P (rf.snapshotIndex + 1) rf.logs.tail) {j : ℕ}
    {e : LogEntry Cmd} (hj : rf.snapshotIndex < j) (he : rf.logAt j = some e) : P j e := by
  unfold Raft.logAt Slice.index Raft.relIdx at he
  rw [if_pos (by omega), show ((j : Int) - rf.snapshotIndex).toNat = (j - rf.snapshotIndex - 1) + 1
    by omega, ← List.getElem?_tail] at he
  have := h _ e he
  rwa [show rf.snapshotIndex + 1 + (j - rf.snapshotIndex - 1) = j by omega] at this

end Stand

/-! ## 2. What a section writes -/

section Writes

variable {P : ℕ → LogEntry Cmd → Prop}

/-- The entries that the call writes stand where it puts them. -/
def WalOp.Puts (P : ℕ → LogEntry Cmd → Prop) (st : PersistState NodeID Cmd) :
    WalOp NodeID Cmd → Prop
  | .appendLog entries => Stand P (st.snapshotIndex + st.logs.length) entries
  | .saveSnapshot snapshotIndex _ _ suffix => Stand P (snapshotIndex + 1) suffix
  | _ => True

/-- So do the entries of a call that carries none. -/
theorem WalOp.Carries.puts {op : WalOp NodeID Cmd} (h : op.Carries fun _ => False)
    (st : PersistState NodeID Cmd) : op.Puts P st := by
  cases op with
  | saveMeta | truncateSuffix => trivial
  | appendLog entries => exact fun k e hk => (h e (List.mem_of_getElem? hk)).elim
  | saveSnapshot index term data suffix =>
      exact fun k e hk => (h e (List.mem_of_getElem? hk)).elim

variable [Inhabited Cmd] {st st' : PersistState NodeID Cmd} {ops ops' : List (WalOp NodeID Cmd)}

/-- Each call of a sequence, on the state it finds. -/
def PutsAll (P : ℕ → LogEntry Cmd → Prop) :
    PersistState NodeID Cmd → List (WalOp NodeID Cmd) → Prop
  | _, [] => True
  | st, op :: ops => op.Puts P st ∧ ∀ st', st.apply op = some st' → PutsAll P st' ops

theorem putsAll_of_carries (h : ∀ op ∈ ops, op.Carries fun _ => False)
    (st : PersistState NodeID Cmd) : PutsAll P st ops := by
  induction ops generalizing st with
  | nil => trivial
  | cons op ops ih =>
      exact ⟨(h op List.mem_cons_self).puts st,
        fun st' _ => ih (fun x hx => h x (List.mem_cons_of_mem _ hx)) st'⟩

/-- One call. -/
theorem apply_stand {op : WalOp NodeID Cmd} (hop : op.Puts P st) (h : st.apply op = some st')
    (hst : Stand P (st.snapshotIndex + 1) st.logs.tail) :
    Stand P (st'.snapshotIndex + 1) st'.logs.tail := by
  cases op with
  | saveMeta term vote =>
      cases h
      exact hst
  | appendLog entries =>
      cases h
      cases hl : st.logs with
      | nil =>
          have hop' : Stand P (st.snapshotIndex + st.logs.length) entries := hop
          rw [hl] at hop'
          rw [← List.drop_one]
          exact hop'.drop 1
      | cons x rest =>
          have hop' : Stand P (st.snapshotIndex + st.logs.length) entries := hop
          rw [hl] at hst hop'
          refine Stand.append hst ?_
          have hlen : st.snapshotIndex + (x :: rest).length =
              st.snapshotIndex + 1 + rest.length := by
            rw [List.length_cons]
            omega
          rw [hlen] at hop'
          exact hop'
  | truncateSuffix fromIndex =>
      obtain ⟨logs, hlogs, e⟩ := Option.bind_eq_some_iff.mp h
      cases e
      unfold Slice.upto? at hlogs
      split at hlogs
      · cases hlogs
        dsimp only
        rw [← List.drop_one, List.drop_take, List.drop_one]
        exact hst.take _
      · cases hlogs
  | saveSnapshot snapshotIndex sentinelTerm snapshot suffix =>
      cases h
      exact hop

theorem applyAll_stand (hops : PutsAll P st ops) (h : st.applyAll ops = some st')
    (hst : Stand P (st.snapshotIndex + 1) st.logs.tail) :
    Stand P (st'.snapshotIndex + 1) st'.logs.tail := by
  induction ops generalizing st with
  | nil =>
      cases h
      exact hst
  | cons op ops ih =>
      obtain ⟨st1, h1, h2⟩ := Option.bind_eq_some_iff.mp h
      exact ih (hops.2 st1 h1) h2 (apply_stand hops.1 h1 hst)

/-- A crash leaves whole calls and the beginning of one. -/
theorem PutsAll.torn (hops : PutsAll P st ops) (k j : ℕ) :
    PutsAll P st (torn WalOp.cut ops k j) := by
  induction ops generalizing st k with
  | nil =>
      rw [torn_nil]
      trivial
  | cons op ops ih =>
      cases k with
      | zero =>
          rw [torn_cons_zero]
          cases op with
          | appendLog entries => exact ⟨Stand.take hops.1 j, fun _ _ => trivial⟩
          | saveMeta | truncateSuffix | saveSnapshot => trivial
      | succ k =>
          rw [torn_cons_succ]
          exact ⟨hops.1, fun st' h => ih (hops.2 st' h) k⟩

/-- The log is cut above the snapshot and entries are appended behind the cut. -/
theorem putsAll_splice {k : ℕ} {entries : List (LogEntry Cmd)} (hk : st.snapshotIndex < k)
    (h : Stand P k entries) : PutsAll P st [.truncateSuffix k, .appendLog entries] := by
  refine ⟨trivial, fun st' h1 => ⟨?_, fun _ _ => trivial⟩⟩
  obtain ⟨logs, hlogs, e⟩ := Option.bind_eq_some_iff.mp h1
  cases e
  unfold Slice.upto? at hlogs
  split at hlogs
  next hb =>
    cases hlogs
    have hlen : st.snapshotIndex + (st.logs.take ((k : Int) - st.snapshotIndex).toNat).length =
        k := by
      rw [List.length_take]
      omega
    show Stand P (st.snapshotIndex + (st.logs.take _).length) entries
    rw [hlen]
    exact h
  next => cases hlogs

end Writes

/-! ## 3. The sections -/

/-- Where the event's entries stand, if server `rf` takes them. -/
def Sets (P : ℕ → LogEntry Cmd → Prop) (rf : Raft NodeID Cmd) : Event NodeID Cmd → Prop
  | .start command => rf.customerId = .leader → P (rf.lastLogIndex + 1) ⟨command, rf.term⟩
  | .deliver pkt => ∀ args, pkt.call = .appendEntries args →
      Stand P (args.prevLogIndex + 1) args.entries
  | _ => True

section Sections

variable {P : ℕ → LogEntry Cmd → Prop} {rf rf' : Raft NodeID Cmd}

/-- A section that makes its calls on an empty record of them. -/
theorem Plain.carries {Q : Cmd → Prop} (h : Plain Q rf rf') (hw : rf.wal = []) :
    ∀ op ∈ rf'.wal, op.Carries Q := by
  intro op hop
  rcases h.wal op hop with hold | hnew
  · rw [hw] at hold
    exact absurd hold List.not_mem_nil
  · exact hnew

/-- The leader's side writes the term it steps down to, and nothing else. -/
theorem sendAppendEntries_carries [DecidableEq NodeID] {Q : Cmd → Prop} {me server : NodeID} {nodeIDs : List NodeID}
    {args : AppendEntries NodeID Cmd} {reply : AppendEntriesReply} (hw : rf.wal = [])
    (h : rf.sendAppendEntries me nodeIDs server args reply = some rf') :
    ∀ op ∈ rf'.wal, op.Carries Q := by
  have same : rf'.wal = rf.wal → ∀ op ∈ rf'.wal, op.Carries Q := by
    intro e op hop
    rw [e, hw] at hop
    exact absurd hop List.not_mem_nil
  unfold Raft.sendAppendEntries at h
  split at h
  next hgt =>
    cases h
    have hstep := plain_stepDownIf Q rf reply.term
    rw [if_pos hgt] at hstep
    exact hstep.carries hw
  split at h
  · cases h
    exact same rfl
  split at h
  · obtain ⟨c, e⟩ := commitLoop_eq me nodeIDs _ h
    refine same ?_
    rw [e]
    dsimp only
    split <;> rfl
  · split at h
    · cases h
      exact same rfl
    · cases h
      exact same rfl

/-- `Start` appends at the index it returns. -/
theorem start_puts [Inhabited Cmd] {command : Cmd} (hw : rf.wal = []) (hne : rf.logs ≠ [])
    (hP : rf.customerId = .leader → P (rf.lastLogIndex + 1) ⟨command, rf.term⟩) :
    PutsAll P rf.persist (rf.start command).1.wal := by
  unfold Raft.start
  split
  next =>
    rw [hw]
    trivial
  next hl =>
    have hpos := List.length_pos_iff.mpr hne
    have hlast : rf.lastLogIndex + 1 = rf.snapshotIndex + rf.logs.length := by
      unfold Raft.lastLogIndex
      omega
    have h := hP (Decidable.not_not.mp hl)
    rw [hlast] at h
    show PutsAll P rf.persist (rf.wal ++ [.appendLog [⟨command, rf.term⟩]])
    rw [hw]
    exact ⟨.single h, fun _ _ => trivial⟩

variable [Inhabited Cmd]

/-- The prelude of `AppendEntriesHandler` writes a term or nothing. -/
theorem acceptLeader_puts (hw : rf.wal = []) (term : ℕ) (leaderId : NodeID)
    {ops : List (WalOp NodeID Cmd)}
    (h : ∀ st : PersistState NodeID Cmd, st.logs = rf.logs →
      st.snapshotIndex = rf.snapshotIndex → PutsAll P st ops) :
    PutsAll P rf.persist ((rf.acceptLeader term leaderId).wal ++ ops) := by
  unfold Raft.acceptLeader
  dsimp only
  split
  · show PutsAll P rf.persist (rf.wal ++ [.saveMeta term none] ++ ops)
    rw [hw]
    refine ⟨trivial, fun st' hst => ?_⟩
    cases hst
    exact h _ rfl rfl
  · show PutsAll P rf.persist (rf.wal ++ ops)
    rw [hw]
    exact h _ rfl rfl

/-- A message that brings entries: the log is cut at the first conflict. -/
theorem appendNew_puts {args : AppendEntries NodeID Cmd} (h : rf.appendNew args = some rf')
    (hlow : rf.snapshotIndex ≤ args.prevLogIndex)
    (hargs : Stand P (args.prevLogIndex + 1) args.entries) :
    ∃ ops, rf'.wal = rf.wal ++ ops ∧ ∀ st : PersistState NodeID Cmd,
      st.snapshotIndex = rf.snapshotIndex → PutsAll P st ops := by
  rcases appendNew_cases h with rfl | ⟨i, logs, rfl⟩
  · exact ⟨[], (List.append_nil _).symm, fun _ _ => trivial⟩
  · refine ⟨_, rfl, fun st hst => putsAll_splice (by omega) ?_⟩
    exact hargs.drop i

theorem appendOrReject_puts {args : AppendEntries NodeID Cmd} {reply : AppendEntriesReply}
    (h : rf.appendOrReject args = some (rf', reply))
    (hargs : Stand P (args.prevLogIndex + 1) args.entries) :
    ∃ ops, rf'.wal = rf.wal ++ ops ∧ ∀ st : PersistState NodeID Cmd,
      st.snapshotIndex = rf.snapshotIndex → PutsAll P st ops := by
  rcases appendOrReject_cases h with rfl | ⟨_, hlow, rf1, h1, rfl⟩
  · exact ⟨[], (List.append_nil _).symm, fun _ _ => trivial⟩
  · obtain ⟨ops, hw, hops⟩ := appendNew_puts h1 hlow hargs
    refine ⟨ops, ?_, hops⟩
    split <;> exact hw

/-- A message that brings a snapshot: of the log its suffix stays, at the indexes it has. -/
theorem installSnapshot_puts {args : AppendEntries NodeID Cmd} {data : Bytes}
    {reply : AppendEntriesReply} (h : rf.installSnapshot args data = some (rf', reply))
    (hlogs : Stand P (rf.snapshotIndex + 1) rf.logs.tail) :
    ∃ ops, rf'.wal = rf.wal ++ ops ∧ ∀ st : PersistState NodeID Cmd, PutsAll P st ops := by
  unfold Raft.installSnapshot at h
  split at h
  · cases h
    exact ⟨[], (List.append_nil _).symm, fun _ => trivial⟩
  · rename_i hnew
    obtain ⟨keep, _, h⟩ := Option.bind_eq_some_iff.mp h
    dsimp only at h
    split at h
    · obtain ⟨suffix, hsuf, e⟩ := Option.bind_eq_some_iff.mp h
      cases e
      exact ⟨_, rfl, fun _ => ⟨hlogs.from (by omega) hsuf, fun _ _ => trivial⟩⟩
    · cases h
      exact ⟨_, rfl, fun _ => ⟨.nil, fun _ _ => trivial⟩⟩

theorem appendEntriesHandler_puts {args : AppendEntries NodeID Cmd} {reply : AppendEntriesReply}
    (h : rf.appendEntriesHandler args = some (rf', reply)) (hw : rf.wal = [])
    (hlogs : Stand P (rf.snapshotIndex + 1) rf.logs.tail)
    (hargs : Stand P (args.prevLogIndex + 1) args.entries) : PutsAll P rf.persist rf'.wal := by
  have hsame : (rf.acceptLeader args.term args.leaderId).logs = rf.logs ∧
      (rf.acceptLeader args.term args.leaderId).snapshotIndex = rf.snapshotIndex := by
    unfold Raft.acceptLeader
    dsimp only
    split <;> exact ⟨rfl, rfl⟩
  unfold Raft.appendEntriesHandler at h
  split at h
  · cases h
    rw [hw]
    trivial
  · dsimp only at h
    split at h
    · have hlogs' : Stand P ((rf.acceptLeader args.term args.leaderId).snapshotIndex + 1)
          (rf.acceptLeader args.term args.leaderId).logs.tail := by
        rw [hsame.1, hsame.2]
        exact hlogs
      obtain ⟨ops, e, hops⟩ := installSnapshot_puts h hlogs'
      rw [e]
      exact acceptLeader_puts hw _ _ fun st _ _ => hops st
    · obtain ⟨ops, e, hops⟩ := appendOrReject_puts h hargs
      rw [e]
      exact acceptLeader_puts hw _ _ fun st _ hst => hops st (hst.trans hsame.2.symm)

theorem snapshotUpTo_puts {index : ℕ} {data : Bytes} (h : rf.snapshotUpTo index data = some rf')
    (hw : rf.wal = []) (hlogs : Stand P (rf.snapshotIndex + 1) rf.logs.tail) :
    PutsAll P rf.persist rf'.wal := by
  unfold Raft.snapshotUpTo at h
  split at h
  · cases h
    rw [hw]
    trivial
  · rename_i hnew
    split at h
    · cases h
    · obtain ⟨e, _, h⟩ := Option.bind_eq_some_iff.mp h
      obtain ⟨suffix, hsuf, eq⟩ := Option.bind_eq_some_iff.mp h
      cases eq
      show PutsAll P rf.persist (rf.wal ++ [.saveSnapshot index e.term (some data) suffix])
      rw [hw]
      exact ⟨hlogs.from (by omega) hsuf, fun _ _ => trivial⟩

variable [DecidableEq NodeID] {cfg : Config NodeID} {me : NodeID} {p : Proc NodeID Cmd}
  {o : Outcome NodeID Cmd}

/-- **No section moves an entry.** -/
theorem exec_puts {ev : Event NodeID Cmd} (h : exec cfg me p ev = some o) (hw : p.rf.wal = [])
    (hne : p.rf.logs ≠ []) (hlogs : Stand P (p.rf.snapshotIndex + 1) p.rf.logs.tail)
    (hev : Sets P p.rf ev) : PutsAll P p.rf.persist o.proc.rf.wal := by
  -- most sections write no entry at all
  have bare : ∀ {rf' : Raft NodeID Cmd}, Plain (fun _ => False) p.rf rf' →
      PutsAll P p.rf.persist rf'.wal := fun hp => putsAll_of_carries (hp.carries hw) _
  have same : PutsAll P p.rf.persist p.rf.wal := bare (.refl _)
  cases exec_cases h with
  | tickerArm | tickerReset | callFailed | heartbeat | apply | transfer | noTransfer => exact same
  | tickerFire _ hr => exact bare (plain_tickerFire _ hr)
  | requestVote _ hr => exact bare (plain_requestVote _ hr)
  | timeoutNow _ hr => exact bare (plain_timeoutNow _ hr)
  | transferred _ => exact bare (plain_stepDownIf _ p.rf _)
  | votes _ =>
      dsimp only
      rcases sendRequestVote_plain (fun _ => False) me cfg.nodeIDs p.rf _ _ with hc | ⟨_, count, e⟩
      · exact bare hc
      · rw [e]
        exact same
  | matched _ hr => exact putsAll_of_carries (sendAppendEntries_carries hw hr) _
  | applyBatch hr =>
      rw [sendApplyMsg_eq hr]
      exact same
  | start => exact start_puts hw hne hev
  | appendEntries hc hr => exact appendEntriesHandler_puts hr hw hlogs (hev _ hc)
  | snapshot hr => exact snapshotUpTo_puts hr hw hlogs

omit [Inhabited Cmd] [DecidableEq NodeID] in
/-- `startHeartbeat` ships entries with the index they have. -/
theorem heartbeatArgs_stand {id : NodeID} {args : AppendEntries NodeID Cmd}
    (hsnap : rf.snapshot = none → rf.snapshotIndex = 0)
    (hlogs : Stand P (rf.snapshotIndex + 1) rf.logs.tail)
    (h : rf.heartbeatArgs me id = some args) : Stand P (args.prevLogIndex + 1) args.entries := by
  unfold Raft.heartbeatArgs at h
  dsimp only at h
  generalize (if (rf.nextIndex id : Int) - 1 > (rf.lastLogIndex : Int) then
    (rf.lastLogIndex : Int) else (rf.nextIndex id : Int) - 1) = prev at h
  split at h
  next =>
    obtain ⟨_, e0, h⟩ := Option.bind_eq_some_iff.mp h
    cases e0
    dsimp only at h
    split at h
    next hs =>
      obtain ⟨entries, hent, h⟩ := Option.bind_eq_some_iff.mp h
      obtain ⟨_, _, e⟩ := Option.bind_eq_some_iff.mp h
      cases e
      exact hlogs.from (hsnap hs.2).le hent
    next =>
      obtain ⟨_, e0, h⟩ := Option.bind_eq_some_iff.mp h
      cases e0
      obtain ⟨_, _, e⟩ := Option.bind_eq_some_iff.mp h
      cases e
      exact .nil
  next hlow =>
    obtain ⟨_, _, h⟩ := Option.bind_eq_some_iff.mp h
    obtain ⟨_, e0, h⟩ := Option.bind_eq_some_iff.mp h
    cases e0
    dsimp only at h
    split at h
    next =>
      obtain ⟨entries, hent, h⟩ := Option.bind_eq_some_iff.mp h
      obtain ⟨_, _, e⟩ := Option.bind_eq_some_iff.mp h
      cases e
      have hge : rf.snapshotIndex ≤ prev.toNat := by omega
      exact hlogs.from hge hent
    next =>
      obtain ⟨_, e0, h⟩ := Option.bind_eq_some_iff.mp h
      cases e0
      obtain ⟨_, _, e⟩ := Option.bind_eq_some_iff.mp h
      cases e
      exact .nil

end Sections

/-! ## 4. Over the whole cluster -/

/-- The message hands over an entry that `P` lets stand at its index. -/
def Hands (P : ℕ → LogEntry Cmd → Prop) (msg : ApplyMsg Cmd) : Prop :=
  msg.commandValid = true → ∃ e : LogEntry Cmd, e.command = msg.command ∧ P msg.commandIndex e

/-- Every entry stands where `P` lets it: in the logs, on the network, in the batches for the
    services and in what they have got. -/
structure Placed (P : ℕ → LogEntry Cmd → Prop) (c : Cluster NodeID Cmd) : Prop where
  logs : ∀ n, Stand P ((c.node n).rf.snapshotIndex + 1) (c.node n).rf.logs.tail
  net : ∀ pkt ∈ c.net, ∀ args, pkt.call = .appendEntries args →
    Stand P (args.prevLogIndex + 1) args.entries
  applying : ∀ n, ∀ msg ∈ (c.node n).applying, Hands P msg
  sent : ∀ x ∈ c.sent, Hands P x.2

theorem Placed.imp {P P' : ℕ → LogEntry Cmd → Prop} {c : Cluster NodeID Cmd} (h : Placed P c)
    (hP : ∀ i e, P i e → P' i e) : Placed P' c := by
  have hands : ∀ {msg : ApplyMsg Cmd}, Hands P msg → Hands P' msg := fun hm hv => by
    obtain ⟨e, he, hPe⟩ := hm hv
    exact ⟨e, he, hP _ _ hPe⟩
  exact ⟨fun n => (h.logs n).imp hP, fun pkt hpkt args hcall => (h.net pkt hpkt args hcall).imp hP,
    fun n msg hmsg => hands (h.applying n msg hmsg), fun x hx => hands (h.sent x hx)⟩

section Steps

variable {P : ℕ → LogEntry Cmd → Prop}

/-- The command messages of a feed, with their indexes. -/
theorem Feed.hands {Q : ℕ → Bytes → Prop} {msgs : List (ApplyMsg Cmd)} {d a : ℕ}
    (h : Feed Q (fun i command => ∃ e : LogEntry Cmd, e.command = command ∧ P i e) d msgs a) :
    ∀ msg ∈ msgs, Hands P msg := by
  induction msgs generalizing d with
  | nil => exact fun msg hmsg => absurd hmsg List.not_mem_nil
  | cons msg rest ih =>
      intro x hx
      rcases h with ⟨_, _, hidx, hP, hrest⟩ | ⟨hno, _, _, _, hrest⟩
      · rcases List.mem_cons.mp hx with rfl | hmem
        · rw [← hidx] at hP
          exact fun _ => hP
        · exact ih hrest x hmem
      · rcases List.mem_cons.mp hx with rfl | hmem
        · intro hv
          rw [hno] at hv
          cases hv
        · exact ih hrest x hmem

variable [DecidableEq NodeID] [Inhabited Cmd] {cfg : Config NodeID} {c c' : Cluster NodeID Cmd}
  {n : NodeID}

omit [DecidableEq NodeID] in
theorem placed_init : Placed P (init : Cluster NodeID Cmd) where
  logs _ := .nil
  net _ hpkt := absurd hpkt List.not_mem_nil
  applying _ _ hmsg := absurd hmsg List.not_mem_nil
  sent _ hx := absurd hx List.not_mem_nil

omit [DecidableEq NodeID] [Inhabited Cmd] in
/-- What the event brings is on the network, or is the entry that `Start` makes. -/
theorem Placed.sets (h : Placed P c) {ev : Event NodeID Cmd} (hev : c.Enabled n ev)
    (hstart : ∀ command, ev = .start command → (c.node n).rf.customerId = .leader →
      P ((c.node n).rf.lastLogIndex + 1) ⟨command, (c.node n).rf.term⟩) :
    Sets P (c.node n).rf ev := by
  cases ev with
  | start command => exact hstart command rfl
  | deliver pkt => exact h.net pkt hev.1
  | _ => trivial

/-- What the goroutine of `sendApplyMsg` has to send after a section. -/
theorem Placed.applying_exec (hr : Reachable cfg c) (h : Placed P c) {ev : Event NodeID Cmd}
    {o : Outcome NodeID Cmd} (ho : exec cfg n (c.node n) ev = some o) :
    ∀ msg ∈ o.proc.applying, Hands P msg := by
  have heff := exec_effect ho
  cases ev with
  | applyBatch =>
      obtain ⟨rf, msgs, hb, e⟩ := heff
      obtain ⟨a, hsim⟩ := reachable_sim hr
      obtain ⟨_, hfeed⟩ : _ ∧ Feed (Made c)
          (fun i command => ∃ e : LogEntry Cmd, e.command = command ∧ P i e) _ msgs _ :=
        sendApplyMsg_feed (fun i e h1 _ he => ⟨e, rfl, (h.logs n).at h1 he⟩)
          (hsim.proc n).disk.snap hb
      rw [e]
      exact hfeed.hands
  | apply =>
      obtain ⟨msg, rest, happ, e⟩ := heff
      rw [e]
      exact fun x hx => h.applying n x (happ ▸ List.mem_cons_of_mem _ hx)
  | _ =>
      rw [heff.applying]
      exact h.applying n

/-- What a section has sent to the service it had to send before. -/
theorem exec_sent_mem {p : Proc NodeID Cmd} {ev : Event NodeID Cmd} {o : Outcome NodeID Cmd}
    (ho : exec cfg n p ev = some o) : ∀ msg ∈ o.sent, msg ∈ p.applying := by
  rw [exec_sent ho]
  cases ev with
  | apply => exact fun msg hmsg => List.mem_of_mem_take hmsg
  | _ => exact fun msg hmsg => absurd hmsg List.not_mem_nil

/-- A log has its sentinel. -/
theorem Sim.logs_ne {a : Record NodeID Cmd} (h : Sim cfg c a) (n : NodeID) :
    (c.node n).rf.logs ≠ [] := by
  rw [(h.views n).logs]
  exact List.ne_nil_of_length_pos (by rw [length_compact]; omega)

/-- **What is handed over next** is what any server has had committed at the index. -/
theorem HadCommitted.agrees {m : NodeID} {i : ℕ} {command : Cmd}
    (h : HadCommitted cfg c m i command) {msg : ApplyMsg Cmd} (hmsg : msg ∈ (c.node n).applying)
    (hv : msg.commandValid = true) (hidx : msg.commandIndex = i) : msg.command = command := by
  obtain ⟨s, e, hs, hrun, h1, h2, he, rfl⟩ := h
  obtain ⟨a, hsim⟩ := reachable_sim hs
  obtain ⟨a', hx, hsim'⟩ := hsim.run hrun
  obtain ⟨p, e', hp, hlen, he'⟩ := hsim.committed_at h1 h2
  obtain ⟨t, q, x, hq, hlen', hcmd⟩ := ((hsim'.proc n).applying msg hmsg).1.command hv
  have hsame : e' = x :=
    committed_entry_unique hsim'.inv (hp.mono hx) hq
      (Nat.succ.inj (hlen.trans (hidx.symm.trans hlen'.symm)))
  cases he.symm.trans he'
  rw [hsame, hcmd]

/-- The server's disk after a section, or after a crash in it. -/
theorem Placed.disk (h : Placed P c) {a : Record NodeID Cmd} (hsim : Sim cfg c a)
    {ops : List (WalOp NodeID Cmd)} (hops : PutsAll P (c.node n).rf.persist ops)
    {st : PersistState NodeID Cmd} (hst : (c.disk n).applyAll ops = some st) :
    Stand P (st.snapshotIndex + 1) st.logs.tail := by
  rw [hsim.disk n] at hst
  exact applyAll_stand hops hst (h.logs n)

/-- **A completed section.** -/
theorem Placed.complete (hr : Reachable cfg c) (h : Placed P c) (hn : n ∈ cfg.nodeIDs)
    {ev : Event NodeID Cmd} (hev : c.Enabled n ev) {o : Outcome NodeID Cmd}
    (ho : exec cfg n (c.node n) ev = some o) {st : PersistState NodeID Cmd}
    (hst : (c.disk n).applyAll o.proc.rf.wal = some st) (hsets : Sets P (c.node n).rf ev) :
    Placed P (c.complete n o st) := by
  obtain ⟨a, hsim⟩ := reachable_sim hr
  obtain ⟨a', _, hsim'⟩ := hsim.run (.single (.run n hn ev hev o ho st hst))
  have hops := exec_puts ho (hsim.wal n) (hsim.logs_ne n) (h.logs n) hsets
  have hdisk := h.disk hsim hops hst
  refine ⟨fun m => ?_, fun pkt hpkt args hcall => ?_, fun m => ?_, fun x hx => ?_⟩
  · by_cases hm : m = n
    · subst hm
      have hd := hsim'.disk m
      rw [show (c.complete m o st).disk m = st from Function.update_self _ _ _] at hd
      rw [hd] at hdisk
      exact hdisk
    · show Stand P ((Function.update c.node n _ m).rf.snapshotIndex + 1)
        (Function.update c.node n _ m).rf.logs.tail
      rw [Function.update_of_ne hm]
      exact h.logs m
  · rcases List.mem_append.mp hpkt with hold | hnew
    · exact h.net pkt hold args hcall
    · obtain ⟨⟨id, call⟩, hout, rfl⟩ := List.mem_map.mp hnew
      cases hcall
      obtain ⟨_, hargs⟩ := (exec_output ho).appendEntries id args hout
      exact heartbeatArgs_stand (hsim.proc n).disk.snap.1 (h.logs n) hargs
  · by_cases hm : m = n
    · subst hm
      show ∀ msg ∈ (Function.update c.node m _ m).applying, _
      rw [Function.update_self]
      exact h.applying_exec hr ho
    · show ∀ msg ∈ (Function.update c.node n _ m).applying, _
      rw [Function.update_of_ne hm]
      exact h.applying m
  · rcases List.mem_append.mp hx with hold | hnew
    · exact h.sent x hold
    · obtain ⟨msg, hmsg, rfl⟩ := List.mem_map.mp hnew
      exact h.applying n msg (exec_sent_mem ho msg hmsg)

omit [Inhabited Cmd] in
/-- A process that starts from its disk. -/
theorem Placed.reboot (h : Placed P c) {made : List (ℕ × Bytes)} {st : PersistState NodeID Cmd}
    (hst : Stand P (st.snapshotIndex + 1) st.logs.tail) : Placed P (c.reboot n made st) := by
  refine ⟨fun m => ?_, h.net, fun m => ?_, h.sent⟩
  · by_cases hm : m = n
    · subst hm
      show Stand P ((Function.update c.node m (Proc.boot st) m).rf.snapshotIndex + 1)
        (Function.update c.node m (Proc.boot st) m).rf.logs.tail
      rw [Function.update_self]
      exact hst
    · show Stand P ((Function.update c.node n (Proc.boot st) m).rf.snapshotIndex + 1)
        (Function.update c.node n (Proc.boot st) m).rf.logs.tail
      rw [Function.update_of_ne hm]
      exact h.logs m
  · by_cases hm : m = n
    · subst hm
      show ∀ msg ∈ (Function.update c.node m (Proc.boot st) m).applying, _
      rw [Function.update_self]
      exact fun msg hmsg => absurd hmsg List.not_mem_nil
    · show ∀ msg ∈ (Function.update c.node n (Proc.boot st) m).applying, _
      rw [Function.update_of_ne hm]
      exact h.applying m

/-- The section that an action runs, to its end or not. -/
def Cluster.Action.event : Cluster.Action NodeID Cmd → Option (Event NodeID Cmd)
  | .run ev => some ev
  | .crash ev _ _ => some ev
  | .restart => none

/-- **Every step keeps the entries where they stand.** -/
theorem Placed.next [DecidableEq Cmd] (hr : Reachable cfg c) (h : Placed P c)
    {act : Cluster.Action NodeID Cmd}
    (hP : ∀ command, act.event = some (.start command) → (c.node n).rf.customerId = .leader →
      P ((c.node n).rf.lastLogIndex + 1) ⟨command, (c.node n).rf.term⟩)
    (hs : c.next cfg n act = some c') : Placed P c' := by
  obtain ⟨a, hsim⟩ := reachable_sim hr
  cases act with
  | run ev =>
      obtain ⟨hn, hev, o, st, ho, hst, rfl⟩ := next_run hs
      exact h.complete hr hn hev ho hst
        (h.sets hev fun command e => hP command (congrArg some e))
  | crash ev k j =>
      obtain ⟨hn, hev, o, st, ho, hst, rfl⟩ := next_crash hs
      have hops := exec_puts ho (hsim.wal n) (hsim.logs_ne n) (h.logs n)
        (h.sets hev fun command e => hP command (congrArg some e))
      exact h.reboot (h.disk hsim (hops.torn k j) hst)
  | restart =>
      obtain ⟨_, rfl⟩ := next_restart hs
      have hnone : PutsAll P (c.node n).rf.persist [] := trivial
      exact h.reboot (h.disk hsim hnone rfl)

end Steps

/-! ## 5. What `Start` promises -/

/-- A call of `Start` at the leader, with the index and the term it returns; in a call that has not
    returned the process has died. -/
structure Starting (NodeID Cmd : Type) where
  server : NodeID
  command : Cmd
  index : ℕ
  term : ℕ
  returned : Bool

def Raft.starting (rf : Raft NodeID Cmd) (me : NodeID) (command : Cmd) (returned : Bool) :
    List (Starting NodeID Cmd) :=
  match rf.start command with
  | (_, index, term, true) => [⟨me, command, index.toNat, term, returned⟩]
  | (_, _, _, false) => []

/-- The calls of `Start` in one action. -/
def Cluster.startings (c : Cluster NodeID Cmd) (n : NodeID) :
    Cluster.Action NodeID Cmd → List (Starting NodeID Cmd)
  | .run (.start command) => (c.node n).rf.starting n command true
  | .crash (.start command) _ _ => (c.node n).rf.starting n command false
  | _ => []

/-- `Start` at the leader. -/
theorem start_leader {rf : Raft NodeID Cmd} (h : rf.customerId = .leader) (command : Cmd) :
    rf.start command = ({ rf with
      logs := rf.logs ++ [⟨command, rf.term⟩]
      wal := rf.wal ++ [.appendLog [⟨command, rf.term⟩]] },
      ((rf.lastLogIndex + 1 : ℕ) : Int), rf.term, true) := by
  unfold Raft.start
  rw [if_neg (not_not.mpr h)]

theorem starting_leader {rf : Raft NodeID Cmd} (h : rf.customerId = .leader) (me : NodeID)
    (command : Cmd) (returned : Bool) : rf.starting me command returned =
      [⟨me, command, rf.lastLogIndex + 1, rf.term, returned⟩] := by
  rw [Raft.starting, start_leader h]
  rfl

theorem starting_other {rf : Raft NodeID Cmd} (h : rf.customerId ≠ .leader) (me : NodeID)
    (command : Cmd) (returned : Bool) : rf.starting me command returned = [] := by
  rw [Raft.starting, Raft.start, if_pos h]

theorem starting_returned {rf : Raft NodeID Cmd} {me : NodeID} {command : Cmd} {returned : Bool}
    {s : Starting NodeID Cmd} (h : s ∈ rf.starting me command returned) :
    s.returned = returned := by
  by_cases hlead : rf.customerId = .leader
  · rw [starting_leader hlead] at h
    rw [List.mem_singleton.mp h]
  · rw [starting_other hlead] at h
    exact absurd h List.not_mem_nil

/-- The entry is the last one of the leader's log. -/
theorem start_logAt {rf : Raft NodeID Cmd} (h : rf.customerId = .leader) (hne : rf.logs ≠ [])
    (command : Cmd) :
    (rf.start command).1.logAt (rf.lastLogIndex + 1) = some ⟨command, rf.term⟩ := by
  have hpos := List.length_pos_iff.mpr hne
  have hrel : ((rf.lastLogIndex + 1 : ℕ) : Int) - rf.snapshotIndex = rf.logs.length := by
    unfold Raft.lastLogIndex
    omega
  rw [start_leader h]
  show Slice.index (rf.logs ++ [⟨command, rf.term⟩]) (((rf.lastLogIndex + 1 : ℕ) : Int) -
    rf.snapshotIndex) = _
  rw [hrel, Slice.index_natCast]
  exact List.getElem?_concat_length

/-- An action that calls `Start` at the leader. -/
theorem mem_startings {c : Cluster NodeID Cmd} {n : NodeID} {act : Cluster.Action NodeID Cmd}
    {command : Cmd} (h : act.event = some (.start command))
    (hlead : (c.node n).rf.customerId = .leader) :
    ∃ returned, ⟨n, command, (c.node n).rf.lastLogIndex + 1, (c.node n).rf.term, returned⟩ ∈
      c.startings n act := by
  cases act with
  | run ev =>
      cases h
      refine ⟨true, ?_⟩
      show _ ∈ (c.node n).rf.starting n command true
      rw [starting_leader hlead]
      exact List.mem_singleton_self _
  | crash ev k j =>
      cases h
      refine ⟨false, ?_⟩
      show _ ∈ (c.node n).rf.starting n command false
      rw [starting_leader hlead]
      exact List.mem_singleton_self _
  | restart => cases h

section Traced

variable [DecidableEq NodeID] [Inhabited Cmd] [DecidableEq Cmd]

/-- A run, with the calls of `Start` in it. -/
inductive Traced (cfg : Config NodeID) :
    List (Starting NodeID Cmd) → Cluster NodeID Cmd → Prop where
  | init : Traced cfg [] init
  | next {l : List (Starting NodeID Cmd)} {c c' : Cluster NodeID Cmd} {n : NodeID}
      {act : Cluster.Action NodeID Cmd} (h : Traced cfg l c) (hs : c.next cfg n act = some c') :
      Traced cfg (l ++ c.startings n act) c'

/-- One of the calls was given the command of the entry and returned its index and its term. -/
def StartedAs (l : List (Starting NodeID Cmd)) (i : ℕ) (e : LogEntry Cmd) : Prop :=
  ∃ s ∈ l, s.command = e.command ∧ s.index = i ∧ s.term = e.term

/-- The entry of a call that has returned is in the log that its term's leader has led. -/
def Led (a : Record NodeID Cmd) (s : Starting NodeID Cmd) : Prop :=
  a.leader s.term ≠ none ∧ (a.llog s.term)[s.index - 1]? = some ⟨s.command, s.term⟩

variable {cfg : Config NodeID} {l : List (Starting NodeID Cmd)} {c c' : Cluster NodeID Cmd}
  {n : NodeID}

theorem Traced.reachable (h : Traced cfg l c) : Reachable cfg c := by
  induction h with
  | init => exact .refl
  | next _ hs ih => exact ih.tail (next_step hs)

/-- **Every entry was given to `Start`, for the index and the term it has.** -/
theorem Traced.placed (h : Traced cfg l c) : Placed (StartedAs l) c := by
  induction h with
  | init => exact placed_init
  | @next l c c' n act h hs ih =>
      have hold : Placed (StartedAs (l ++ c.startings n act)) c :=
        ih.imp fun i e ⟨s, hs, rest⟩ => ⟨s, List.mem_append_left _ hs, rest⟩
      refine hold.next h.reachable (fun command hact hlead => ?_) hs
      obtain ⟨returned, hmem⟩ := mem_startings hact hlead
      exact ⟨_, List.mem_append_right _ hmem, rfl, rfl, rfl⟩

omit [Inhabited Cmd] [DecidableEq Cmd] [DecidableEq NodeID] in
theorem Led.mono {a a' : Record NodeID Cmd} {s : Starting NodeID Cmd} (h : Led a s)
    (hx : Ext a a') : Led a' s := by
  refine ⟨hx.leader_ne h.1, ?_⟩
  obtain ⟨r, hr⟩ := hx.llog h.1
  rw [← hr, List.getElem?_append_left (List.getElem?_eq_some_iff.mp h.2).1]
  exact h.2

/-- A `Start` that returns. -/
theorem led_of_start {a a' : Record NodeID Cmd} (hsim : Sim cfg c a) {command : Cmd}
    (hs : c.next cfg n (.run (.start command)) = some c') (hsim' : Sim cfg c' a')
    {s : Starting NodeID Cmd} (hmem : s ∈ (c.node n).rf.starting n command true) : Led a' s := by
  by_cases hlead : (c.node n).rf.customerId = .leader
  · rw [starting_leader hlead] at hmem
    rw [List.mem_singleton.mp hmem]
    obtain ⟨_, _, o, st, ho, _, rfl⟩ := next_run hs
    have hproc : o.proc.rf = ((c.node n).rf.start command).1 := by
      cases ho
      rfl
    have hnode : ((c.complete n o st).node n).rf = { o.proc.rf with wal := [] } :=
      congrArg Proc.rf (Function.update_self n _ c.node)
    rw [hproc] at hnode
    have hat : ((c.complete n o st).node n).rf.logAt ((c.node n).rf.lastLogIndex + 1) =
        some ⟨command, (c.node n).rf.term⟩ := by
      rw [hnode]
      exact start_logAt hlead (hsim.logs_ne n) command
    rw [start_leader hlead] at hnode
    have hterm : a'.term n = (c.node n).rf.term := by
      have := (hsim'.enter n).term
      rw [hnode] at this
      exact this.symm
    have hleader : a'.leader (c.node n).rf.term = some n := by
      rw [← hterm]
      refine (hsim'.proc n).mem.leader ?_
      rw [hnode]
      exact hlead
    obtain ⟨_, _, _, hget⟩ := (hsim'.views n).of_logAt hat
    rw [hsim'.inv.leaderLog hleader hterm] at hget
    refine ⟨by rw [hleader]; exact Option.some_ne_none n, hget ?_⟩
    rw [hnode]
    exact Nat.lt_succ_of_le (Nat.le_add_left _ _)
  · rw [starting_other hlead] at hmem
    exact absurd hmem List.not_mem_nil

/-- The calls that have returned stay in the record. -/
theorem Traced.led (h : Traced cfg l c) :
    ∃ a, Sim cfg c a ∧ ∀ s ∈ l, s.returned = true → Led a s := by
  induction h with
  | init =>
      exact ⟨_, sim_init cfg, fun s hs => absurd hs List.not_mem_nil⟩
  | @next l c c' n act h hs ih =>
      obtain ⟨a, hsim, hled⟩ := ih
      obtain ⟨a', hx, hsim'⟩ := hsim.run (.single (next_step hs))
      refine ⟨a', hsim', fun s hmem hret => ?_⟩
      rcases List.mem_append.mp hmem with hold | hnew
      · exact (hled s hold hret).mono hx
      · cases act with
        | run ev =>
            cases ev with
            | start command => exact led_of_start hsim hs hsim' hnew
            | _ => exact absurd hnew List.not_mem_nil
        | crash ev k j =>
            cases ev with
            | start command =>
                -- a call in which the process has died has not returned
                rw [starting_returned hnew] at hret
                cases hret
            | _ => exact absurd hnew List.not_mem_nil
        | restart => exact absurd hnew List.not_mem_nil

/-- **What `Start` promises.** Whatever a service is handed at an index was given to a `Start` that
    returned this index; the entries of the logs were given to a `Start` that returned their index
    and their term; and if `Start` has returned an index and a term, then an entry with this term at
    this index, in the log of any server and at any later time, is the command it was given. -/
theorem start_contract (h : Traced cfg l c) :
    (∀ n msg, (n, msg) ∈ c.sent → msg.commandValid = true →
      ∃ s ∈ l, s.command = msg.command ∧ s.index = msg.commandIndex) ∧
    (∀ n i e, (c.node n).rf.snapshotIndex < i → (c.node n).rf.logAt i = some e →
      ∃ s ∈ l, s.command = e.command ∧ s.index = i ∧ s.term = e.term) ∧
    ∀ s ∈ l, s.returned = true → ∀ n e, (c.node n).rf.snapshotIndex < s.index →
      (c.node n).rf.logAt s.index = some e → e.term = s.term → e.command = s.command := by
  have hplaced := h.placed
  refine ⟨fun n msg hmsg hv => ?_, fun n i e hi he => (hplaced.logs n).at hi he,
    fun s hs hret n e hi he hterm => ?_⟩
  · obtain ⟨e, he, s, hs, hcmd, hidx, _⟩ := hplaced.sent (n, msg) hmsg hv
    exact ⟨s, hs, hcmd.trans he, hidx⟩
  · obtain ⟨a, hsim, hled⟩ := h.led
    obtain ⟨_, hat⟩ := hled s hs hret
    obtain ⟨_, hle, _, hget⟩ := (hsim.views n).of_logAt he
    -- the log up to the entry is what the leader of its term has led
    obtain ⟨p, e', hp, hlen, _⟩ := exists_prefix_at (by omega) hle
    have hee : e' = e := by
      have hx : (a.log n)[s.index - 1]? = some e' := by
        obtain ⟨r, hr⟩ := hp
        rw [← hr, show s.index - 1 = p.length by omega]
        simp
      rw [hget hi] at hx
      exact (Option.some.inj hx).symm
    subst hee
    obtain ⟨r, hr⟩ := (hsim.inv.goodLog n p e' hp).2
    have hterm' : tm e' = s.term := hterm
    rw [hterm'] at hr
    rw [← hr, show s.index - 1 = p.length by omega] at hat
    simp only [List.append_assoc, List.getElem?_append_right (Nat.le_refl _), Nat.sub_self,
      List.singleton_append, List.getElem?_cons_zero, Option.some.injEq] at hat
    rw [hat]

/-- A schedule played to its end is a run. -/
theorem Traced.play (h : Traced cfg l c) {script : Schedule NodeID Cmd}
    (hp : Cluster.play cfg c script = some c') : ∃ l', Traced cfg (l ++ l') c' := by
  induction script generalizing l c with
  | nil =>
      cases hp
      exact ⟨[], by rw [List.append_nil]; exact h⟩
  | cons x script ih =>
      have hp' : (c.next cfg x.1 (x.2 c)).bind (fun c₁ => Cluster.play cfg c₁ script) =
        some c' := hp
      obtain ⟨c₁, h1, h2⟩ := Option.bind_eq_some_iff.mp hp'
      obtain ⟨l', hl'⟩ := ih (h.next h1) h2
      exact ⟨_, by rw [← List.append_assoc]; exact hl'⟩

end Traced

/-- Server 0 takes command 10 and hears of nothing any more; server 1 wins term 2 and takes command 11
    for the same index. -/
def twoLeaders : Schedule ℕ ℕ :=
  [(0, fun _ => .run (.start 10)), (1, fun _ => .run .tickerArm), (1, fun _ => .run .tickerFire),
    (2, fun c => .run (deliverNth 9 c)), (1, fun c => .run (replyNth 1 6 c)),
    (1, fun _ => .run (.start 11)), (1, fun _ => .run .heartbeat),
    (2, fun c => .run (deliverNth 11 c))]

/-- Command 7 is handed over by server 1; at index 4 server 0 has the command of one term's `Start` and
    server 2, which has installed a snapshot, that of another's. -/
theorem start_contract_sample : ∃ l c, Traced three l c ∧ (1, entryMsg) ∈ c.sent ∧
    (∃ s ∈ l, s.command = 7 ∧ s.index = 1) ∧
    (c.node 2).rf.snapshotIndex = 1 ∧ (c.node 2).rf.logAt 4 = some ⟨11, 2⟩ ∧
    (∃ s ∈ l, s.command = 10 ∧ s.index = 4 ∧ s.term = 1) ∧
    (∃ s ∈ l, s.command = 11 ∧ s.index = 4 ∧ s.term = 2) ∧
    ∀ s ∈ l, s.returned = true → s.index = 4 →
      (s.term = 1 → s.command = 10) ∧ (s.term = 2 → s.command = 11) := by
  have hplay : (play three init (sampleRun ++ laterCommands ++ twoLeaders)).map (fun c =>
      (decide ((1, entryMsg) ∈ c.sent),
        [0, 2].map fun n => ((c.node n).rf.logAt 4, (c.node n).rf.snapshotIndex))) =
      some (true, [(some ⟨10, 1⟩, 1), (some ⟨11, 2⟩, 1)]) := by
    decide +kernel
  obtain ⟨c, hc, hread⟩ := Option.map_eq_some_iff.mp hplay
  simp only [List.map_cons, List.map_nil, List.cons.injEq, Prod.mk.injEq, and_true] at hread
  obtain ⟨hsent, ⟨h0, hs0⟩, h2, hs2⟩ := hread
  obtain ⟨l, hl⟩ := Traced.init.play hc
  obtain ⟨hhanded, hlogs, honly⟩ := start_contract hl
  refine ⟨_, c, hl, of_decide_eq_true hsent, hhanded 1 entryMsg (of_decide_eq_true hsent) rfl, hs2,
    h2, hlogs 0 4 _ (by omega) h0, hlogs 2 4 _ (by omega) h2, fun s hs hret hidx => ⟨?_, ?_⟩⟩
  · intro hterm
    exact (honly s hs hret 0 ⟨10, 1⟩ (by omega) (by rw [hidx]; exact h0) hterm.symm).symm
  · intro hterm
    exact (honly s hs hret 2 ⟨11, 2⟩ (by omega) (by rw [hidx]; exact h2) hterm.symm).symm

end RaftLab.Raft1

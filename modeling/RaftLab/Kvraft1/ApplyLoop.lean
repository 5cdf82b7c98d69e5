/-
  File:      RaftLab/Kvraft1/ApplyLoop.lean
  Subject:   One process: a Raft server, `readApplyCh` of `src/kvraft1/rsm/rsm.go` and the state
             machine it feeds.

  The steps are Raft's critical sections (Raft1/Cluster.lean), of which two belong to `readApplyCh`:
  taking a message (`apply`, which runs `DoOp` or `Restore`) and, after a command and if the log is
  too long, `Snapshot`. What is assumed of the rest of the cluster is in `Occurs`: the committed log
  is `ops`, and a snapshot that comes from a leader has `P` at its index.

  How a process starts, and what a crash leaves of the state machine, is not said here: a server
  that keeps it in memory (Replica.lean) and one that keeps it on disk (Node.lean) differ in it.

  **`Inv.run`**: if the state is `good` at the index delivered, every event keeps it so, as long as
  the methods of the state machine do (`Follows`).
-/
import RaftLab.Lib.Runs
import RaftLab.Raft1.ApplyStream

namespace RaftLab.Kvraft1

open RaftLab.Lib RaftLab.Raft1

/-! ## 1. The state machine -/

/-- `rsm.StateMachine`, with the state a server is made with; of `DoOp` its effect. -/
structure StateMachine (σ Cmd : Type) where
  start : σ
  doOp : σ → ℕ → Cmd → σ
  snapshot : σ → Bytes
  restore : Bytes → σ

/-- What the methods keep: `DoOp` on the next entry leads from a good state to a good one, and a
    snapshot of a good state has `P`, of which `Restore` makes a good state. -/
structure StateMachine.Follows {σ Cmd : Type} (sm : StateMachine σ Cmd) (ops : List Cmd)
    (P : ℕ → Bytes → Prop) (good : ℕ → σ → Prop) : Prop where
  doOp : ∀ {d s op}, good d s → ops[d]? = some op → good (d + 1) (sm.doOp s (d + 1) op)
  snapshot : ∀ {d s}, good d s → P d (sm.snapshot s)
  restore : ∀ {N data}, P N data → good N (sm.restore data)

/-! ## 2. The process -/

structure Applier (NodeID Cmd σ : Type) where
  proc : Proc NodeID Cmd
  disk : PersistState NodeID Cmd
  state : σ
  /-- `readApplyCh` has run `DoOp` for that index and not yet compared the size of the log. -/
  pending : Option ℕ

namespace Applier

variable {NodeID Cmd σ : Type} (sm : StateMachine σ Cmd) (P : ℕ → Bytes → Prop) (ops : List Cmd)

/-- Raft is started from what its disk holds. -/
def boot (st : PersistState NodeID Cmd) (s : σ) : Applier NodeID Cmd σ :=
  ⟨Proc.boot st, st, s, none⟩

/-- One turn of `readApplyCh`, up to the size check. -/
def handle (s : σ) (msg : ApplyMsg Cmd) : σ × Option ℕ :=
  if msg.commandValid then
    (sm.doOp s msg.commandIndex msg.command, some msg.commandIndex)
  else if msg.snapshotValid then
    (sm.restore (msg.snapshot.getD []), none)
  else
    (s, none)

/-- What the service does in an event. -/
def serve (a : Applier NodeID Cmd σ) : Event NodeID Cmd → σ × Option ℕ
  | .apply =>
      match a.proc.applying with
      | msg :: _ => handle sm a.state msg
      | [] => (a.state, a.pending)
  | .snapshot _ _ => (a.state, none)
  | _ => (a.state, a.pending)

/-- The process after an event with result `o`, the disk at `st`. -/
def complete (a : Applier NodeID Cmd σ) (ev : Event NodeID Cmd) (o : Outcome NodeID Cmd)
    (st : PersistState NodeID Cmd) : Applier NodeID Cmd σ where
  proc := { o.proc with rf := { o.proc.rf with wal := [] } }
  disk := st
  state := (a.serve sm ev).1
  pending := (a.serve sm ev).2

/-- When an event can occur, and what is assumed of the cluster. -/
def Occurs (a : Applier NodeID Cmd σ) : Event NodeID Cmd → Prop
  | .deliver pkt => ∀ N data, Brings N data (.deliver pkt) → P N data
  | .applyBatch => a.proc.applying = [] ∧ a.proc.rf.commitIndex ≠ a.proc.rf.appliedIndex ∧
      HoldsCommitted ops a.proc.rf
  | .apply => a.pending = none
  | .snapshot index data => a.pending = some index ∧ data = sm.snapshot a.state
  | _ => True

instance [DecidableEq Cmd] [∀ N data, Decidable (P N data)] (a : Applier NodeID Cmd σ) :
    DecidablePred (a.Occurs sm P ops)
  | .deliver pkt => decidable_of_iff (∀ x ∈ carried pkt, P x.1 x.2)
      ⟨fun h N data hb => h (N, data) ((brings_iff pkt N data).mp hb),
        fun h x hx => h x.1 x.2 ((brings_iff pkt x.1 x.2).mpr hx)⟩
  | .applyBatch => inferInstanceAs (Decidable (a.proc.applying = [] ∧
      a.proc.rf.commitIndex ≠ a.proc.rf.appliedIndex ∧ HoldsCommitted ops a.proc.rf))
  | .apply => inferInstanceAs (Decidable (a.pending = none))
  | .snapshot index data => inferInstanceAs (Decidable (a.pending = some index ∧ data = _))
  | .tickerArm | .tickerFire | .tickerReset | .reply _ _ | .callFailed _ | .start _ | .heartbeat
  | .transferLeadership => isTrue trivial

variable {sm P ops}

/-- Less may be asked of a leader's snapshot. -/
theorem Occurs.imp {P' : ℕ → Bytes → Prop} (hP : ∀ N data, P N data → P' N data)
    {a : Applier NodeID Cmd σ} {ev : Event NodeID Cmd} (h : a.Occurs sm P ops ev) :
    a.Occurs sm P' ops ev := by
  cases ev with
  | deliver pkt => exact fun N data hb => hP N data (h N data hb)
  | applyBatch | apply | snapshot => exact h
  | tickerArm | tickerFire | tickerReset | reply | callFailed | start | heartbeat
  | transferLeadership => trivial

/-! ## 3. The invariant -/

variable {good : ℕ → σ → Prop}

variable (P ops good) in
structure Inv (a : Applier NodeID Cmd σ) : Prop where
  wal : a.proc.rf.wal = []
  disk : SameSnap a.disk a.proc.rf
  snap : SnapHolds P a.proc.rf.snapshotIndex a.proc.rf.snapshot
  batch : Batch P ops a.proc.delivered a.proc.applying a.proc.rf.appliedIndex
  state : good a.proc.delivered a.state
  pending : ∀ i, a.pending = some i → i = a.proc.delivered

/-- A process that starts with a state that is good at the index of Raft's snapshot. -/
theorem inv_boot {st : PersistState NodeID Cmd} {s : σ}
    (hsnap : SnapHolds P st.snapshotIndex st.snapshot) (hs : good st.snapshotIndex s) :
    Inv P ops good (boot st s) where
  wal := rfl
  disk := ⟨rfl, rfl⟩
  snap := hsnap
  batch := rfl
  state := hs
  pending _ h := (by cases h)

/-- The message at the head of the batch is handled. -/
theorem handle_batch (hsm : sm.Follows ops P good) {d n : ℕ} {s : σ} {msg : ApplyMsg Cmd}
    {rest : List (ApplyMsg Cmd)} (hs : good d s) (hb : Batch P ops d (msg :: rest) n) :
    good msg.index (handle sm s msg).1 ∧ Batch P ops msg.index rest n ∧
      ∀ i, (handle sm s msg).2 = some i → i = msg.index := by
  rcases hb with ⟨hc, hsv, hidx, hop, hrest⟩ | ⟨hc, hsv, hP, hrest⟩
  · have hmi : msg.index = d + 1 := by simp [ApplyMsg.index, hsv, hidx]
    have hh : handle sm s msg = (sm.doOp s (d + 1) msg.command, some (d + 1)) := by
      simp [handle, hc, hidx]
    rw [hmi, hh]
    exact ⟨hsm.doOp hs hop, hrest, fun i hi => (Option.some.inj hi).symm⟩
  · have hmi : msg.index = msg.snapshotIndex := by simp [ApplyMsg.index, hsv]
    have hh : handle sm s msg = (sm.restore (msg.snapshot.getD []), none) := by
      simp [handle, hc, hsv]
    rw [hmi, hh]
    exact ⟨hsm.restore hP, hrest, fun i hi => (by cases hi)⟩

section Step

variable {a : Applier NodeID Cmd σ} {ev : Event NodeID Cmd} {o : Outcome NodeID Cmd}
  {st : PersistState NodeID Cmd}

/-- A snapshot that reaches Raft, from a leader or from the process's own service. -/
theorem Inv.brings (h : Inv P ops good a) (hsm : sm.Follows ops P good)
    (hev : a.Occurs sm P ops ev) {N : ℕ} {data : Bytes} (hb : Brings N data ev) : P N data := by
  cases ev with
  | deliver pkt => exact hev N data hb
  | snapshot index data' =>
      obtain ⟨rfl, rfl⟩ := hb
      obtain ⟨hp, rfl⟩ := hev
      rw [h.pending index hp]
      exact hsm.snapshot h.state
  | tickerArm | tickerFire | tickerReset | reply | callFailed | start | heartbeat | applyBatch
  | apply | transferLeadership => exact hb.elim

/-- An event in which the service takes no message. -/
theorem Inv.quiet (h : Inv P ops good a) (hq : Quiet ev a.proc o.proc)
    (hstate : (a.serve sm ev).1 = a.state)
    (hpend : ∀ i, (a.serve sm ev).2 = some i → a.pending = some i)
    (hdisk : SameSnap st o.proc.rf)
    (hsnap : SnapHolds P o.proc.rf.snapshotIndex o.proc.rf.snapshot) :
    Inv P ops good (a.complete sm ev o st) := by
  have happ : o.proc.rf.appliedIndex = a.proc.rf.appliedIndex := by
    rcases hq.rf with hk | ⟨_, _, _, hs⟩
    · exact hk.appliedIndex
    · exact hs.appliedIndex
  refine ⟨rfl, hdisk, hsnap, ?_, ?_, fun i hi => ?_⟩
  · show Batch P ops o.proc.delivered o.proc.applying o.proc.rf.appliedIndex
    rw [hq.delivered, hq.applying, happ]
    exact h.batch
  · show good o.proc.delivered (a.serve sm ev).1
    rw [hq.delivered, hstate]
    exact h.state
  · show i = o.proc.delivered
    rw [hq.delivered]
    exact h.pending i (hpend i hi)

variable [DecidableEq NodeID] [Inhabited Cmd] {cfg : Config NodeID} {me : NodeID}

/-- Raft's snapshot after an event. -/
theorem Inv.snap_exec (h : Inv P ops good a) (hsm : sm.Follows ops P good)
    (hev : a.Occurs sm P ops ev) (ho : exec cfg me a.proc ev = some o) :
    SnapHolds P o.proc.rf.snapshotIndex o.proc.rf.snapshot := by
  rcases exec_kind ho with ⟨e1, e2, _⟩ | ⟨N, data, hb, hs⟩
  · rw [e1, e2]
    exact h.snap
  · rw [hs.snapshotIndex, hs.snapshot]
    refine ⟨fun e => (by cases e), fun data' e => ?_⟩
    cases e
    exact h.brings hsm hev hb

/-- The snapshot a crash in an event leaves on the disk. -/
theorem Inv.snap_torn (h : Inv P ops good a) (hsm : sm.Follows ops P good)
    (hev : a.Occurs sm P ops ev) (ho : exec cfg me a.proc ev = some o) {k j : ℕ}
    (hst : a.disk.applyAll (torn WalOp.cut o.proc.rf.wal k j) = some st) :
    SnapHolds P st.snapshotIndex st.snapshot := by
  rcases exec_disk_torn ho h.wal h.disk hst with ⟨e1, e2⟩ | ⟨e1, e2⟩
  · rw [e1, e2]
    exact h.snap
  · rw [e1, e2]
    exact h.snap_exec hsm hev ho

omit [DecidableEq NodeID] [Inhabited Cmd] in
/-- The snapshot on the disk between two events. -/
theorem Inv.snap_disk (h : Inv P ops good a) : SnapHolds P a.disk.snapshotIndex a.disk.snapshot := by
  rw [h.disk.1, h.disk.2]
  exact h.snap

/-- **Every event keeps the invariant.** -/
theorem Inv.run (h : Inv P ops good a) (hsm : sm.Follows ops P good) (hev : a.Occurs sm P ops ev)
    (ho : exec cfg me a.proc ev = some o) (hst : a.disk.applyAll o.proc.rf.wal = some st) :
    Inv P ops good (a.complete sm ev o st) := by
  have hdisk := exec_disk ho h.wal h.disk hst
  have hsnap := h.snap_exec hsm hev ho
  have he := exec_effect ho
  cases ev with
  | applyBatch =>
      obtain ⟨rf, msgs, hs, e⟩ := he
      obtain ⟨hnil, _, hheld⟩ := hev
      obtain ⟨rfl, hb⟩ := sendApplyMsg_batch hheld h.snap hs
      have hd : a.proc.delivered = a.proc.rf.appliedIndex := by
        have := h.batch
        rw [hnil] at this
        exact this
      refine ⟨rfl, hdisk, hsnap, ?_, ?_, fun i hi => ?_⟩
      · show Batch P ops o.proc.delivered o.proc.applying o.proc.rf.appliedIndex
        rw [e]
        show Batch P ops a.proc.delivered msgs a.proc.rf.commitIndex
        rw [hd]
        exact hb
      · show good o.proc.delivered a.state
        rw [e]
        exact h.state
      · show i = o.proc.delivered
        rw [e]
        exact h.pending i hi
  | apply =>
      obtain ⟨msg, rest, happ, e⟩ := he
      have hb := h.batch
      rw [happ] at hb
      obtain ⟨hs, hrest, hp⟩ := handle_batch hsm h.state hb
      have hserve : a.serve sm .apply = handle sm a.state msg := by simp [serve, happ]
      refine ⟨rfl, hdisk, hsnap, ?_, ?_, fun i hi => ?_⟩
      · show Batch P ops o.proc.delivered o.proc.applying o.proc.rf.appliedIndex
        rw [e]
        exact hrest
      · show good o.proc.delivered (a.serve sm .apply).1
        rw [e, hserve]
        exact hs
      · show i = o.proc.delivered
        rw [e]
        exact hp i (by rw [← hserve]; exact hi)
  | snapshot index data => exact h.quiet he rfl (fun i hi => (by cases hi)) hdisk hsnap
  | _ => exact h.quiet he rfl (fun _ hi => hi) hdisk hsnap

omit [DecidableEq NodeID] [Inhabited Cmd] in
/-- No `Snapshot` after a command. -/
theorem Inv.skip (h : Inv P ops good a) : Inv P ops good { a with pending := none } :=
  { h with pending := fun _ hi => (by cases hi) }

end Step

end Applier

end RaftLab.Kvraft1

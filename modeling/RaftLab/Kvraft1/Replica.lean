/-
  File:      RaftLab/Kvraft1/Replica.lean
  Subject:   One replica of a state machine that is kept in memory: the process of ApplyLoop.lean,
             and the start-up of the server.

  After a start the state machine is empty, and Raft delivers what comes after its snapshot; the
  server itself restores the snapshot. `StartServerShardGrp` does so before `MakeRSM`, so before
  `readApplyCh` runs. `StartKVServer` calls `MakeRSM` first (`late`): its `Restore` is a step of its
  own, among those of the goroutines that `MakeRSM` has started.

  Nobody else has the server before its start-up is through: the callers of `StartKVServer` make it
  known to the network with what it returns, so no request and no `Start` comes earlier (`Occurs`).
  The ticker, heartbeats and replies to its own requests go on meanwhile; the process may die at any
  point. `StartsInTerm`: what a start finds on the disk is what Raft leaves there, a log of no later
  term than the disk's own (`reachable_inTerm`).

  **`inv_run`**: once the start-up is through, the state machine is the fold of `DoOp` over the
  entries delivered, and every snapshot the replica saves is the state at its index.
-/
import RaftLab.Kvraft1.ApplyLoop
import RaftLab.Raft1.Boot

namespace RaftLab.Kvraft1

open RaftLab.Lib RaftLab.Raft1 Relation

/-! ## 1. The fold of the committed log -/

namespace StateMachine

variable {σ Cmd : Type} (sm : StateMachine σ Cmd) (ops : List Cmd)

/-- The state after the committed entries 1..i. -/
def fold : ℕ → σ
  | 0 => sm.start
  | i + 1 =>
      match ops[i]? with
      | some op => sm.doOp (fold i) (i + 1) op
      | none => fold i

/-- What is assumed of gob. -/
structure RoundTrips : Prop where
  restore_snapshot : ∀ i, sm.restore (sm.snapshot (sm.fold ops i)) = sm.fold ops i
  snapshot_ne : ∀ s, sm.snapshot s ≠ []

/-- A snapshot of the state at index `N`. -/
def Covers (N : ℕ) (data : Bytes) : Prop := data ≠ [] ∧ sm.restore data = sm.fold ops N

/-- The state is the one of index `d`. -/
def IsFold (d : ℕ) (s : σ) : Prop := s = sm.fold ops d

/-- The bytes `Snapshot` makes of the state at index `N`; this can be computed. -/
def Snaps (N : ℕ) (data : Bytes) : Prop := data = sm.snapshot (sm.fold ops N)

instance (N : ℕ) (data : Bytes) : Decidable (sm.Snaps ops N data) :=
  inferInstanceAs (Decidable (data = _))

variable {sm ops}

theorem RoundTrips.covers (h : sm.RoundTrips ops) {N : ℕ} {data : Bytes}
    (hd : sm.Snaps ops N data) : sm.Covers ops N data := by
  rw [Snaps] at hd
  subst hd
  exact ⟨h.snapshot_ne _, h.restore_snapshot N⟩

theorem RoundTrips.follows (h : sm.RoundTrips ops) :
    sm.Follows ops (sm.Covers ops) (sm.IsFold ops) where
  doOp hs hop := by
    rw [IsFold] at hs ⊢
    simp only [fold, hop, hs]
  snapshot hs := h.covers (congrArg sm.snapshot hs)
  restore hP := hP.2

end StateMachine

/-! ## 2. The replica and its steps -/

/-- How far a late start-up is: before `SnapshotSize() > 0`, before `Restore`, through. -/
inductive Stage where
  | check
  | restore
  | up
  deriving DecidableEq

structure Replica (NodeID Cmd σ : Type) extends Applier NodeID Cmd σ where
  stage : Stage

inductive ReplicaAction (NodeID Cmd : Type) where
  | run (ev : Event NodeID Cmd)
  /-- The log is short, or `maxraftstate` is -1: no `Snapshot`. -/
  | skip
  | check
  | restore
  | crash (ev : Event NodeID Cmd) (k j : ℕ)
  | restart

namespace Replica

variable {NodeID Cmd σ : Type} (sm : StateMachine σ Cmd)

/-- `persister.SnapshotSize()` -/
def snapshotSize (st : PersistState NodeID Cmd) : ℕ := (st.snapshot.getD []).length

/-- The server is started on what the persister holds. -/
def start (late : Bool) (st : PersistState NodeID Cmd) : Replica NodeID Cmd σ :=
  if late then
    ⟨.boot st sm.start, .check⟩
  else
    ⟨.boot st (if snapshotSize st > 0 then sm.restore (st.snapshot.getD []) else sm.start), .up⟩

section Next

variable [DecidableEq NodeID] [Inhabited Cmd] (cfg : Config NodeID) (me : NodeID) (late : Bool)

/-- What a crash in an event leaves on the disk. -/
def tornDisk (r : Replica NodeID Cmd σ) (ev : Event NodeID Cmd) (k j : ℕ) :
    Option (PersistState NodeID Cmd) := do
  let o ← exec cfg me r.proc ev
  r.disk.applyAll (torn WalOp.cut o.proc.rf.wal k j)

def next (r : Replica NodeID Cmd σ) : ReplicaAction NodeID Cmd → Option (Replica NodeID Cmd σ)
  | .run ev => do
      let o ← exec cfg me r.proc ev
      let st ← r.disk.applyAll o.proc.rf.wal
      some { r with toApplier := r.complete sm ev o st }
  | .skip => some { r with pending := none }
  | .check =>
      if r.stage = .check then
        some { r with stage := if snapshotSize r.disk > 0 then .restore else .up }
      else none
  | .restore =>
      if r.stage = .restore then
        some { r with state := sm.restore (r.disk.snapshot.getD []), stage := .up }
      else none
  | .crash ev k j => (r.tornDisk cfg me ev k j).map (start sm late)
  | .restart => some (start sm late r.disk)

/-- Every start finds a log of no later term than the disk's. -/
def StartsInTerm (r : Replica NodeID Cmd σ) : ReplicaAction NodeID Cmd → Prop
  | .crash ev k j => ∀ st ∈ r.tornDisk cfg me ev k j, st.InTerm
  | .restart => r.disk.InTerm
  | _ => True

instance (r : Replica NodeID Cmd σ) : DecidablePred (r.StartsInTerm cfg me)
  | .crash ev k j => inferInstanceAs (Decidable (∀ st ∈ r.tornDisk cfg me ev k j, st.InTerm))
  | .restart => inferInstanceAs (Decidable r.disk.InTerm)
  | .run _ | .skip | .check | .restore => isTrue trivial

end Next

variable (P : ℕ → Bytes → Prop) (ops : List Cmd)

/-- An event of the process; one that somebody else causes comes after the start-up. -/
def OccursEvent (r : Replica NodeID Cmd σ) (ev : Event NodeID Cmd) : Prop :=
  r.toApplier.Occurs sm P ops ev ∧ (ev.Inbound → r.stage = .up)

def Occurs (r : Replica NodeID Cmd σ) : ReplicaAction NodeID Cmd → Prop
  | .run ev => r.OccursEvent sm P ops ev
  | .crash ev _ _ => r.OccursEvent sm P ops ev
  | _ => True

instance [DecidableEq Cmd] [∀ N data, Decidable (P N data)] (r : Replica NodeID Cmd σ) :
    DecidablePred (r.Occurs sm P ops)
  | .run ev => inferInstanceAs (Decidable (_ ∧ (ev.Inbound → r.stage = .up)))
  | .crash ev _ _ => inferInstanceAs (Decidable (_ ∧ (ev.Inbound → r.stage = .up)))
  | .skip | .check | .restore | .restart => isTrue trivial

/-! ## 3. The start-up -/

variable {sm P ops}

variable (sm ops) in
/-- Before the start-up is through, Raft is as it was started but for its elections, and nothing has
    been handled. -/
structure Starting (r : Replica NodeID Cmd σ) : Prop where
  inv : r.toApplier.Inv (sm.Covers ops) ops (fun _ s => s = sm.start)
  unheard : Unheard r.proc.rf
  applying : r.proc.applying = []
  pending : r.pending = none
  restoring : r.stage = .restore → r.proc.rf.snapshot ≠ none

/-- The snapshot a started server restores. -/
theorem restore_of_size {st : PersistState NodeID Cmd}
    (hsnap : SnapHolds (sm.Covers ops) st.snapshotIndex st.snapshot) :
    (if snapshotSize st > 0 then sm.restore (st.snapshot.getD []) else sm.start) =
      sm.fold ops st.snapshotIndex := by
  cases hs : st.snapshot with
  | none =>
      have hzero := hsnap.1 hs
      simp [snapshotSize, hs, hzero, StateMachine.fold]
  | some data =>
      obtain ⟨hne, hrest⟩ := hsnap.2 data hs
      have hpos : snapshotSize st > 0 := by
        rw [snapshotSize, hs]
        exact List.length_pos_iff.mpr hne
      rw [if_pos hpos]
      exact hrest

theorem starting_start {st : PersistState NodeID Cmd}
    (hsnap : SnapHolds (sm.Covers ops) st.snapshotIndex st.snapshot) (hterm : st.InTerm) :
    Starting sm ops (start sm true st) where
  inv := Applier.inv_boot hsnap rfl
  unheard := unheard_boot hterm
  applying := rfl
  pending := rfl
  restoring h := by cases h

section StartUp

variable {r : Replica NodeID Cmd σ}

/-- What has been delivered is the snapshot. -/
theorem Starting.delivered (h : Starting sm ops r) :
    r.proc.delivered = r.proc.rf.snapshotIndex := by
  have hb := h.inv.batch
  rw [h.applying] at hb
  exact hb.trans h.unheard.appliedIndex

/-- The start-up ends with the state of the snapshot. -/
theorem Starting.through (h : Starting sm ops r) {s : σ}
    (hs : s = sm.fold ops r.proc.rf.snapshotIndex) :
    Applier.Inv (sm.Covers ops) ops (sm.IsFold ops) { r.toApplier with state := s } where
  wal := h.inv.wal
  disk := h.inv.disk
  snap := h.inv.snap
  batch := h.inv.batch
  state := by
    show s = sm.fold ops r.proc.delivered
    rw [hs, h.delivered]
  pending := h.inv.pending

variable [DecidableEq NodeID] [Inhabited Cmd] {cfg : Config NodeID} {me : NodeID}
  {ev : Event NodeID Cmd} {o : Outcome NodeID Cmd} {st : PersistState NodeID Cmd}

/-- **No event touches the service before the start-up is through.** -/
theorem Starting.run (h : Starting sm ops r) (hev : r.toApplier.Occurs sm (sm.Covers ops) ops ev)
    (hin : ¬ ev.Inbound) (ho : exec cfg me r.proc ev = some o)
    (hst : r.disk.applyAll o.proc.rf.wal = some st) :
    Starting sm ops { r with toApplier := r.complete sm ev o st } := by
  have he := exec_effect ho
  have hdisk := exec_disk ho h.inv.wal h.inv.disk hst
  -- the events left are those of the ticker, of heartbeats and of replies
  have own : (∀ index data, ev ≠ .snapshot index data) → ev ≠ .applyBatch → Quiet ev r.proc o.proc →
      (∀ N data, ¬ Brings N data ev) → r.toApplier.serve sm ev = (r.state, r.pending) →
      Starting sm ops { r with toApplier := r.complete sm ev o st } := by
    intro hsnap hbatch hq hno hserve
    have hkeep : o.proc.rf.snapshotIndex = r.proc.rf.snapshotIndex ∧
        o.proc.rf.snapshot = r.proc.rf.snapshot := by
      rcases exec_kind ho with ⟨e1, e2, _⟩ | ⟨N, data, hb, _⟩
      · exact ⟨e1, e2⟩
      · exact absurd hb (hno N data)
    have hun := exec_unheard ho h.unheard hin hsnap hbatch
    refine ⟨h.inv.quiet hq (by rw [hserve]) (fun i hi => by rw [hserve] at hi; exact hi) hdisk ?_,
      ⟨hun.commitIndex, hun.appliedIndex, hun.inTerm, hun.earlier⟩,
      hq.applying.trans h.applying, ?_, fun hs => ?_⟩
    · rw [hkeep.1, hkeep.2]
      exact h.inv.snap
    · show (r.toApplier.serve sm ev).2 = none
      rw [hserve]
      exact h.pending
    · show o.proc.rf.snapshot ≠ none
      rw [hkeep.2]
      exact h.restoring hs
  cases ev with
  | deliver | start => exact absurd trivial hin
  | applyBatch => exact absurd (h.unheard.commitIndex.trans h.unheard.appliedIndex.symm) hev.2.1
  | apply =>
      obtain ⟨msg, rest, happ, _⟩ := he
      rw [h.applying] at happ
      cases happ
  | snapshot index data =>
      have hp := hev.1
      rw [h.pending] at hp
      cases hp
  | tickerArm | tickerFire | tickerReset | reply | callFailed | heartbeat | transferLeadership =>
      exact own (fun _ _ e => (by cases e)) (fun e => (by cases e)) he (fun _ _ hb => hb) rfl

end StartUp

/-! ## 4. The invariant -/

variable (sm ops) in
structure Inv (r : Replica NodeID Cmd σ) : Prop where
  starting : r.stage ≠ .up → Starting sm ops r
  up : r.stage = .up → r.toApplier.Inv (sm.Covers ops) ops (sm.IsFold ops)

theorem Inv.of_up {r : Replica NodeID Cmd σ} (hs : r.stage = .up)
    (h : r.toApplier.Inv (sm.Covers ops) ops (sm.IsFold ops)) : Inv sm ops r :=
  ⟨fun hn => absurd hs hn, fun _ => h⟩

theorem Inv.of_starting {r : Replica NodeID Cmd σ} (hs : r.stage ≠ .up) (h : Starting sm ops r) :
    Inv sm ops r := ⟨fun _ => h, fun hu => absurd hu hs⟩

theorem inv_start {st : PersistState NodeID Cmd} (late : Bool)
    (hsnap : SnapHolds (sm.Covers ops) st.snapshotIndex st.snapshot)
    (hterm : late = true → st.InTerm) : Inv sm ops (start sm late st) := by
  cases late with
  | true => exact .of_starting (fun e => (by cases e)) (starting_start hsnap (hterm rfl))
  | false => exact .of_up rfl (Applier.inv_boot hsnap (restore_of_size hsnap))

section Step

variable [DecidableEq NodeID] [Inhabited Cmd] {cfg : Config NodeID} {me : NodeID} {late : Bool}
  {r r' : Replica NodeID Cmd σ} {ev : Event NodeID Cmd} {o : Outcome NodeID Cmd}
  {st : PersistState NodeID Cmd}

omit [DecidableEq NodeID] [Inhabited Cmd] in
/-- The snapshot on the disk between two events. -/
theorem Inv.snap_disk (h : Inv sm ops r) :
    SnapHolds (sm.Covers ops) r.disk.snapshotIndex r.disk.snapshot := by
  by_cases hs : r.stage = .up
  · exact (h.up hs).snap_disk
  · exact (h.starting hs).inv.snap_disk

/-- **Every event keeps the invariant.** -/
theorem Inv.run (h : Inv sm ops r) (hgob : sm.RoundTrips ops)
    (hev : r.OccursEvent sm (sm.Covers ops) ops ev) (ho : exec cfg me r.proc ev = some o)
    (hst : r.disk.applyAll o.proc.rf.wal = some st) :
    Inv sm ops { r with toApplier := r.complete sm ev o st } := by
  by_cases hs : r.stage = .up
  · exact .of_up hs ((h.up hs).run hgob.follows hev.1 ho hst)
  · exact .of_starting hs ((h.starting hs).run hev.1 (fun hin => hs (hev.2 hin)) ho hst)

/-- What a crash leaves. -/
theorem Inv.snap_torn (h : Inv sm ops r) (hgob : sm.RoundTrips ops)
    (hev : r.OccursEvent sm (sm.Covers ops) ops ev) {k j : ℕ}
    (hst : r.tornDisk cfg me ev k j = some st) :
    SnapHolds (sm.Covers ops) st.snapshotIndex st.snapshot := by
  obtain ⟨o, ho, hst⟩ := Option.bind_eq_some_iff.mp hst
  by_cases hs : r.stage = .up
  · exact (h.up hs).snap_torn hgob.follows hev.1 ho hst
  · -- an event of the start-up brings no snapshot
    have hstart := h.starting hs
    have hno : ∀ N data, ¬ Brings N data ev := by
      intro N data hb
      cases ev with
      | deliver pkt => exact hs (hev.2 trivial)
      | snapshot index data' =>
          have hp := hev.1.1
          rw [hstart.pending] at hp
          cases hp
      | _ => exact hb
    have hkeep : st.snapshotIndex = r.proc.rf.snapshotIndex ∧
        st.snapshot = r.proc.rf.snapshot := by
      rcases exec_disk_torn ho hstart.inv.wal hstart.inv.disk hst with e | ⟨e1, e2⟩
      · exact e
      · rcases exec_kind ho with ⟨k1, k2, _⟩ | ⟨N, data, hb, _⟩
        · exact ⟨e1.trans k1, e2.trans k2⟩
        · exact absurd hb (hno N data)
    rw [hkeep.1, hkeep.2]
    exact hstart.inv.snap

omit [DecidableEq NodeID] [Inhabited Cmd] in
/-- The start-up looks at the size of the snapshot: if there is none, nothing is to be restored. -/
theorem Inv.check (h : Inv sm ops r) (hs : r.stage = .check) :
    Inv sm ops { r with stage := if snapshotSize r.disk > 0 then .restore else .up } := by
  have hstart := h.starting (by rw [hs]; exact fun e => (by cases e))
  cases hsnap : r.proc.rf.snapshot with
  | none =>
      have hsize : ¬ snapshotSize r.disk > 0 := by
        rw [snapshotSize, hstart.inv.disk.2, hsnap]
        exact Nat.lt_irrefl 0
      rw [if_neg hsize]
      refine .of_up rfl (hstart.through (s := r.state) ?_)
      rw [hstart.inv.snap.1 hsnap]
      exact hstart.inv.state
  | some data =>
      have hsize : snapshotSize r.disk > 0 := by
        rw [snapshotSize, hstart.inv.disk.2, hsnap]
        exact List.length_pos_iff.mpr (hstart.inv.snap.2 data hsnap).1
      rw [if_pos hsize]
      refine .of_starting (fun e => (by cases e)) { hstart with restoring := fun _ hn => ?_ }
      rw [show r.proc.rf.snapshot = none from hn] at hsnap
      cases hsnap

omit [DecidableEq NodeID] [Inhabited Cmd] in
/-- `Restore` of the snapshot on the disk, which is the one Raft started from. -/
theorem Inv.restore (h : Inv sm ops r) (hs : r.stage = .restore) :
    Inv sm ops { r with state := sm.restore (r.disk.snapshot.getD []), stage := .up } := by
  have hstart := h.starting (by rw [hs]; exact fun e => (by cases e))
  refine .of_up rfl (hstart.through ?_)
  cases hsnap : r.proc.rf.snapshot with
  | none => exact absurd hsnap (hstart.restoring hs)
  | some data =>
      rw [hstart.inv.disk.2, hsnap]
      exact (hstart.inv.snap.2 data hsnap).2

/-- **Every step keeps the invariant**; a late start has to find a log in its term. -/
theorem Inv.next {act : ReplicaAction NodeID Cmd} (h : Inv sm ops r) (hgob : sm.RoundTrips ops)
    (hocc : r.Occurs sm (sm.Covers ops) ops act)
    (hterm : late = true → r.StartsInTerm cfg me act)
    (hnext : r.next sm cfg me late act = some r') : Inv sm ops r' := by
  cases act with
  | run ev =>
      obtain ⟨o, ho, hnext⟩ := Option.bind_eq_some_iff.mp hnext
      obtain ⟨st, hst, e⟩ := Option.bind_eq_some_iff.mp hnext
      cases e
      exact h.run hgob hocc ho hst
  | skip =>
      cases hnext
      refine ⟨fun hs => ?_, fun hs => (h.up hs).skip⟩
      have hstart := h.starting hs
      exact { hstart with inv := hstart.inv.skip, pending := rfl }
  | check =>
      simp only [Replica.next] at hnext
      split at hnext
      next hs =>
        cases hnext
        exact h.check hs
      · cases hnext
  | restore =>
      simp only [Replica.next] at hnext
      split at hnext
      next hs =>
        cases hnext
        exact h.restore hs
      · cases hnext
  | crash ev k j =>
      obtain ⟨st, hst, rfl⟩ := Option.map_eq_some_iff.mp hnext
      exact inv_start late (h.snap_torn hgob hocc hst) fun hl => hterm hl st hst
  | restart =>
      cases hnext
      exact inv_start late h.snap_disk hterm

variable (sm ops cfg me late) in
/-- A run all of whose steps meet a condition. -/
def Run (cond : Replica NodeID Cmd σ → ReplicaAction NodeID Cmd → Prop) :
    Replica NodeID Cmd σ → Replica NodeID Cmd σ → Prop :=
  ReflTransGen fun r r' => ∃ act, (r.Occurs sm (sm.Covers ops) ops act ∧ cond r act) ∧
    r.next sm cfg me late act = some r'

/-- **The state machine is the fold** of `DoOp` over the entries delivered, once the start-up is
    through; and the persister's snapshot is the state at its index. -/
theorem inv_run (hgob : sm.RoundTrips ops)
    (hst : SnapHolds (sm.Covers ops) st.snapshotIndex st.snapshot) (hterm : st.InTerm)
    (h : Run sm ops cfg me late (StartsInTerm cfg me) (start sm late st) r) : Inv sm ops r :=
  run_inv (I := Inv sm ops) (fun _ _ hstep hinv => by
    obtain ⟨act, ⟨hocc, hin⟩, hnext⟩ := hstep
    exact hinv.next hgob hocc (fun _ => hin) hnext) h (inv_start late hst fun _ => hterm)

/-- A server that restores first is through as soon as it is started, whatever log it finds. -/
theorem inv_run_early (hgob : sm.RoundTrips ops)
    (hst : SnapHolds (sm.Covers ops) st.snapshotIndex st.snapshot)
    (h : Run sm ops cfg me false (fun _ _ => True) (start sm false st) r) :
    r.toApplier.Inv (sm.Covers ops) ops (sm.IsFold ops) := by
  have hinv : Inv sm ops r ∧ r.stage = .up := by
    refine run_inv (I := fun r => Inv sm ops r ∧ r.stage = .up) (fun r r' hstep hinv => ?_) h
      ⟨inv_start false hst (fun e => (by cases e)), rfl⟩
    obtain ⟨act, ⟨hocc, _⟩, hnext⟩ := hstep
    obtain ⟨hinv, hup⟩ := hinv
    refine ⟨hinv.next hgob hocc (fun e => (by cases e)) hnext, ?_⟩
    cases act with
    | run ev =>
        obtain ⟨o, _, hnext⟩ := Option.bind_eq_some_iff.mp hnext
        obtain ⟨st, _, e⟩ := Option.bind_eq_some_iff.mp hnext
        cases e
        exact hup
    | skip =>
        cases hnext
        exact hup
    | check | restore => simp [Replica.next, hup] at hnext
    | crash ev k j =>
        obtain ⟨st, _, rfl⟩ := Option.map_eq_some_iff.mp hnext
        rfl
    | restart =>
        cases hnext
        rfl
  exact hinv.1.up hinv.2

end Step

/-! ## 5. Schedules -/

/-- **A schedule played to its end is a run**, the leader's snapshots being those `Snapshot` makes. -/
theorem run_of_plays [DecidableEq NodeID] [Inhabited Cmd] {cfg : Config NodeID} {me : NodeID}
    {late : Bool} {cond : Replica NodeID Cmd σ → ReplicaAction NodeID Cmd → Prop}
    (hgob : sm.RoundTrips ops) {r r' : Replica NodeID Cmd σ}
    (h : ReflTransGen (fun r r' => ∃ act, (r.Occurs sm (sm.Snaps ops) ops act ∧ cond r act) ∧
      r.next sm cfg me late act = some r') r r') : Run sm ops cfg me late cond r r' := by
  refine h.lift id ?_
  intro r r' hs
  obtain ⟨act, ⟨hp, hc⟩, hnext⟩ := hs
  refine ⟨act, ⟨?_, hc⟩, hnext⟩
  cases act with
  | run ev => exact ⟨hp.1.imp fun _ _ => hgob.covers, hp.2⟩
  | crash ev k j => exact ⟨hp.1.imp fun _ _ => hgob.covers, hp.2⟩
  | skip | check | restore | restart => trivial

end Replica

end RaftLab.Kvraft1

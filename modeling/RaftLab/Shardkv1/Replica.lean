/-
  File:      RaftLab/Shardkv1/Replica.lean
  Subject:   One replica of a shard group: `DoOp`, `Snapshot`, `Restore` and `StartServerShardGrp` of
             `src/shardkv1/shardgrp/server.go` in the replica of Kvraft1/Replica.lean.

  Raft's commands are byte strings; `decodeOp` is what `readApplyCh` makes of one. gob is a pair of
  functions that round-trip on the states the committed commands lead to.

  **`compaction_invisible`**: whatever mix of entries, own snapshots, installed snapshots and
  restarts brought a replica to an index, its state is the fold of `DoOp` over the commands up to
  that index; so replicas at one index agree.
-/
import RaftLab.Kvraft1.Replica
import RaftLab.Shardkv1.Migration

namespace RaftLab.Shardkv1

open RaftLab.Lib RaftLab.Kvsrv1
open RaftLab.Kvraft1 (StateMachine Replica)
open RaftLab.Raft1 (Bytes Config PersistState SnapHolds)

variable {Value : Type} [Inhabited Value]

/-- The state the operations lead to. -/
def KVServer.foldOps (kv : KVServer Value) (ops : List (Req Value)) : KVServer Value :=
  ops.foldl (fun kv op => (kv.doOp op).1) kv

/-- A server of group `gid` as a state machine; `encode` and `decode` are gob on its `Snapshot`. -/
def groupMachine (gid : Tgid) (decodeOp : Bytes → Req Value) (encode : KVServer Value → Bytes)
    (decode : Bytes → KVServer Value) : StateMachine (KVServer Value) Bytes where
  start := startServerShardGrp gid
  doOp kv _ cmd := (kv.doOp (decodeOp cmd)).1
  snapshot := encode
  restore := decode

theorem fold_groupMachine (gid : Tgid) (decodeOp : Bytes → Req Value)
    (encode : KVServer Value → Bytes) (decode : Bytes → KVServer Value) (cmds : List Bytes) (i : ℕ) :
    (groupMachine gid decodeOp encode decode).fold cmds i =
      (startServerShardGrp gid).foldOps ((cmds.map decodeOp).take i) := by
  induction i with
  | zero => rfl
  | succ i ih =>
      rw [StateMachine.fold]
      cases hop : cmds[i]? with
      | some cmd =>
          have htake : (cmds.map decodeOp).take (i + 1) =
              (cmds.map decodeOp).take i ++ [decodeOp cmd] := by
            rw [List.take_add_one, List.getElem?_map, hop]
            rfl
          rw [htake, KVServer.foldOps, List.foldl_append]
          show ((groupMachine gid decodeOp encode decode).doOp _ _ cmd) = _
          rw [ih]
          rfl
      | none =>
          have hlen : (cmds.map decodeOp).length ≤ i := by
            rw [List.length_map]
            exact List.getElem?_eq_none_iff.mp hop
          rw [List.take_of_length_le (Nat.le_succ_of_le hlen)]
          rw [List.take_of_length_le hlen] at ih
          exact ih

variable {NodeID : Type} [DecidableEq NodeID]

/-- The replicas of group `gid` that have come from a new server through any run. -/
def ReachesReplica (cfg : Config NodeID) (gid : Tgid) (decodeOp : Bytes → Req Value)
    (encode : KVServer Value → Bytes) (decode : Bytes → KVServer Value) (cmds : List Bytes)
    (me : NodeID) (r : Replica NodeID Bytes (KVServer Value)) : Prop :=
  Replica.Run (groupMachine gid decodeOp encode decode) cmds cfg me false (fun _ _ => True)
    (Replica.start (groupMachine gid decodeOp encode decode) false .fresh) r

/-- **Compaction and restarts are invisible.** The second part is what the replica's snapshot is for
    others; the third is the agreement of replicas. -/
theorem compaction_invisible (cfg : Config NodeID) (gid : Tgid) (decodeOp : Bytes → Req Value)
    (encode : KVServer Value → Bytes) (decode : Bytes → KVServer Value) (cmds : List Bytes)
    (hgob : (groupMachine gid decodeOp encode decode).RoundTrips cmds) {me : NodeID}
    {r : Replica NodeID Bytes (KVServer Value)}
    (h : ReachesReplica cfg gid decodeOp encode decode cmds me r) :
    r.state = (startServerShardGrp gid).foldOps ((cmds.map decodeOp).take r.proc.delivered) ∧
    (∀ data, r.disk.snapshot = some data →
      decode data = (startServerShardGrp gid).foldOps ((cmds.map decodeOp).take
        r.disk.snapshotIndex)) ∧
    ∀ me' r', ReachesReplica cfg gid decodeOp encode decode cmds me' r' →
      r'.proc.delivered = r.proc.delivered → r'.state = r.state := by
  have hfresh : SnapHolds ((groupMachine gid decodeOp encode decode).Covers cmds)
      (PersistState.fresh : PersistState NodeID Bytes).snapshotIndex
      (PersistState.fresh : PersistState NodeID Bytes).snapshot :=
    ⟨fun _ => rfl, fun _ h => (by cases h)⟩
  have hstate : ∀ {me r}, ReachesReplica cfg gid decodeOp encode decode cmds me r →
      r.state = (startServerShardGrp gid).foldOps ((cmds.map decodeOp).take r.proc.delivered) := by
    intro me r h
    have hs := (Replica.inv_run_early hgob hfresh h).state
    rw [StateMachine.IsFold, fold_groupMachine] at hs
    exact hs
  refine ⟨hstate h, fun data hdata => ?_, fun me' r' h' hd => ?_⟩
  · have hinv := Replica.inv_run_early hgob hfresh h
    rw [← fold_groupMachine gid decodeOp encode decode, hinv.disk.1]
    exact (hinv.snap.2 data (by rw [← hinv.disk.2]; exact hdata)).2
  · rw [hstate h', hstate h, hd]

/-! ## A put and a freeze -/

section Sample

def decodeSample (cmd : Bytes) : Req ℕ :=
  if cmd = [1] then .put ⟨[97], 7, 0⟩
  else if cmd = [2] then .freezeShard ⟨key2Shard [97], 2⟩
  else .get ⟨[97]⟩

def putAndFreeze : List Bytes := [[1], [2]]

/-- The states the two commands lead to have names of one byte. -/
def encodeSample (kv : KVServer ℕ) : Bytes :=
  if kv.kvMap [97] = none then [0] else if kv.cfgNum (key2Shard [97]) = 2 then [2] else [1]

def decodeState (bs : Bytes) : KVServer ℕ :=
  (startServerShardGrp 1).foldOps ((putAndFreeze.map decodeSample).take
    (if bs = [0] then 0 else if bs = [1] then 1 else 2))

abbrev sampleGroup : StateMachine (KVServer ℕ) Bytes :=
  groupMachine 1 decodeSample encodeSample decodeState

theorem sampleGroup_roundTrips : sampleGroup.RoundTrips putAndFreeze where
  restore_snapshot i := by
    have hcode : ∀ i, i ≤ 2 → encodeSample ((startServerShardGrp 1).foldOps
        ((putAndFreeze.map decodeSample).take i)) = [UInt8.ofNat i] := by
      intro i hi
      match i, hi with
      | 0, _ => decide +kernel
      | 1, _ => decide +kernel
      | 2, _ => decide +kernel
    have htake : (putAndFreeze.map decodeSample).take i =
        (putAndFreeze.map decodeSample).take (min i 2) := by
      rw [← List.take_take]
      rfl
    rw [fold_groupMachine, htake]
    show decodeState (encodeSample _) = _
    rw [hcode _ (Nat.min_le_right i 2), decodeState]
    have hmin : min i 2 = 0 ∨ min i 2 = 1 ∨ min i 2 = 2 := by omega
    rcases hmin with e | e | e <;> rw [e] <;> rfl
  snapshot_ne kv := by
    show encodeSample kv ≠ []
    unfold encodeSample
    split
    · decide
    · split <;> decide

theorem trio_nodup : [0, 1, 2].Nodup := by decide

def trioOfGroup : Config ℕ := ⟨[0, 1, 2], trio_nodup⟩

/-- Entry 1 is applied and compacted; after a restart entry 2 comes from the log. -/
def replayed : List (Kvraft1.ReplicaAction ℕ Bytes) :=
  [.run (.deliver ⟨0, 1, .appendEntries ⟨1, 0, 0, 0, [⟨[1], 1⟩, ⟨[2], 1⟩], 1, none, 0, 0⟩⟩),
    .run .applyBatch, .run .apply, .run (.snapshot 1 [1]), .restart,
    .run (.deliver ⟨0, 1, .appendEntries ⟨1, 0, 2, 1, [], 2, none, 0, 0⟩⟩), .run .applyBatch,
    .run .apply]

/-- Both come in a leader's snapshot; the restart is before it is handed over. -/
def installed : List (Kvraft1.ReplicaAction ℕ Bytes) :=
  [.run (.deliver ⟨0, 2, .appendEntries ⟨1, 0, 0, 0, [], 2, some [2], 2, 1⟩⟩), .restart]

theorem sampleGroup_reaches (me : ℕ) (script : List (Kvraft1.ReplicaAction ℕ Bytes))
    (h : ((play (guarded (fun r act => r.Occurs sampleGroup (sampleGroup.Snaps putAndFreeze)
        putAndFreeze act ∧ True)
        (fun r => Replica.next sampleGroup trioOfGroup me false r))
      (Replica.start sampleGroup false .fresh) script).map fun r => r.proc.delivered) = some 2) :
    ∃ r, ReachesReplica trioOfGroup 1 decodeSample encodeSample decodeState putAndFreeze me r ∧
      r.proc.delivered = 2 := by
  obtain ⟨r, hr, hd⟩ := Option.map_eq_some_iff.mp h
  exact ⟨r, Replica.run_of_plays sampleGroup_roundTrips (play_guarded_run hr), hd⟩

/-- One replica by the log, one by a snapshot. -/
theorem compaction_invisible_sample :
    ∃ r r', ReachesReplica trioOfGroup 1 decodeSample encodeSample decodeState putAndFreeze 1 r ∧
      ReachesReplica trioOfGroup 1 decodeSample encodeSample decodeState putAndFreeze 2 r' ∧
      r.state = (startServerShardGrp 1).foldOps (putAndFreeze.map decodeSample) ∧
      r'.state = r.state := by
  obtain ⟨r, hr, hd⟩ := sampleGroup_reaches 1 replayed (by decide +kernel)
  obtain ⟨r', hr', hd'⟩ := sampleGroup_reaches 2 installed (by decide +kernel)
  obtain ⟨hstate, _, hagree⟩ := compaction_invisible trioOfGroup 1 decodeSample encodeSample
    decodeState putAndFreeze sampleGroup_roundTrips hr
  rw [hd] at hstate
  exact ⟨r, r', hr, hr', hstate, hagree 2 r' hr' (hd'.trans hd.symm)⟩

end Sample

end RaftLab.Shardkv1

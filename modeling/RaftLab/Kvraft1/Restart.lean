/-
  File:      RaftLab/Kvraft1/Restart.lean
  Subject:   `StartKVServer` of `src/kvraft1/server.go`: the server in memory after a restart.

  `StartKVServer` calls `MakeRSM`, which starts Raft and `readApplyCh`, and then restores the
  snapshot the persister holds. Which of the goroutines' steps come before `Restore` is left to the
  scheduler; but until `StartKVServer` has returned, no request and no `Start` reaches the server,
  and on its own Raft commits nothing (Raft1/Boot.lean), so nothing is handed to `readApplyCh`.

  * **`kvserver_restart`** -- the store is the fold of `DoOp` over the entries delivered, in every
    state after the start-up, whatever ran in between.
-/
import RaftLab.Kvraft1.Replica
import RaftLab.Kvraft1.Node

namespace RaftLab.Kvraft1

open RaftLab.Lib RaftLab.Raft1 RaftLab.Kvsrv1 Relation

section Machine

variable {Key Value : Type} [DecidableEq Key] [Inhabited Value]

/-- `KVServer` over a `mapStore`; `encode` and `decode` are gob. -/
def mapStoreMachine (encode : MapStore Key Value → Bytes) (decode : Bytes → MapStore Key Value) :
    StateMachine (MapStore Key Value) (Req Key Value) where
  start := newMapStore
  doOp s index req := (doOp s index req).1
  snapshot := encode
  restore := decode

theorem fold_mapStoreMachine (encode : MapStore Key Value → Bytes)
    (decode : Bytes → MapStore Key Value) (ops : List (Req Key Value)) (i : ℕ) :
    (mapStoreMachine encode decode).fold ops i = replay ops i := by
  induction i with
  | zero => rfl
  | succ i ih =>
      rw [StateMachine.fold, replay, ih]
      cases ops[i]? <;> rfl

end Machine

section StartUp

variable {NodeID Key Value : Type} [DecidableEq NodeID] [DecidableEq Key] [Inhabited Key]
  [Inhabited Value]

/-- **The restart of a server in memory**, from any disk that Raft leaves and through any order of
    the start-up and of Raft's goroutines; the server may be restarted again and again. -/
theorem kvserver_restart (cfg : Config NodeID) (me : NodeID) (ops : List (Req Key Value))
    (encode : MapStore Key Value → Bytes) (decode : Bytes → MapStore Key Value)
    (hgob : (mapStoreMachine encode decode).RoundTrips ops)
    {st : PersistState NodeID (Req Key Value)}
    (hst : SnapHolds ((mapStoreMachine encode decode).Covers ops) st.snapshotIndex st.snapshot)
    (hterm : st.InTerm) {r : Replica NodeID (Req Key Value) (MapStore Key Value)}
    (h : Replica.Run (mapStoreMachine encode decode) ops cfg me true
      (Replica.StartsInTerm cfg me) (Replica.start (mapStoreMachine encode decode) true st) r)
    (hup : r.stage = .up) : r.state = replay ops r.proc.delivered := by
  have hstate := ((Replica.inv_run hgob hst hterm h).up hup).state
  rw [StateMachine.IsFold, fold_mapStoreMachine] at hstate
  exact hstate

end StartUp

/-! ## An election during the start-up -/

section Sample

def encStore (s : MapStore ℕ ℕ) : Bytes := encNat s.m.length ++ encEntries s.m

def decStore (bs : Bytes) : MapStore ℕ ℕ :=
  let m : Option (KvMap ℕ ℕ) := do
    let (k, bs) ← decNat bs
    decEntries k bs
  ⟨m.getD []⟩

abbrev sampleMachine : StateMachine (MapStore ℕ ℕ) (Req ℕ ℕ) := mapStoreMachine encStore decStore

theorem sampleMachine_roundTrips (ops : List (Req ℕ ℕ)) : sampleMachine.RoundTrips ops where
  restore_snapshot i := by
    show decStore (encStore _) = _
    simp [decStore, encStore, decNat_encNat, decEntries_encEntries]
  snapshot_ne s := by
    show encStore s ≠ []
    simp [encStore, encNat]

def fourPuts : List (Req ℕ ℕ) := threePuts ++ [.put ⟨0, 13, 1⟩]

/-- The persister after entry 3 was appended to a log with a snapshot of index 2. -/
def threeSaved : PersistState ℕ (Req ℕ ℕ) where
  term := 1
  vote := none
  logs := [.sentinel 1, ⟨.put ⟨2, 12, 0⟩, 1⟩]
  snapshotIndex := 2
  snapshot := some (encStore (replay fourPuts 2))

theorem threeSaved_holds :
    SnapHolds (sampleMachine.Covers fourPuts) threeSaved.snapshotIndex threeSaved.snapshot := by
  refine ⟨fun h => (by cases h), fun data h => ?_⟩
  cases h
  exact (sampleMachine_roundTrips fourPuts).covers
    (congrArg encStore (fold_mapStoreMachine encStore decStore fourPuts 2).symm)

/-- Server 1 is elected and has entry 3 confirmed before `Restore`; afterwards it commits entries 3
    and 4, compacts them, dies and starts again. -/
def electedFirst : List (ReplicaAction ℕ (Req ℕ ℕ)) :=
  [.run .tickerArm, .run .tickerFire, .check, .run (.reply 0 (.requestVote ⟨2, true⟩)),
    .run .heartbeat, .run (.reply 1 (.appendEntries ⟨2, true, 0⟩)), .restore,
    .run (.start (.put ⟨0, 13, 1⟩)), .run .heartbeat,
    .run (.reply 2 (.appendEntries ⟨2, true, 0⟩)), .run .applyBatch, .run .apply, .skip,
    .run .apply, .run (.snapshot 4 (encStore (replay fourPuts 4))), .crash .heartbeat 0 0,
    .run .tickerArm, .run .tickerFire, .check, .restore]

theorem kvserver_restart_sample :
    ∃ r : Replica ℕ (Req ℕ ℕ) (MapStore ℕ ℕ),
      r.proc.delivered = 4 ∧ r.stage = .up ∧ r.state = replay fourPuts 4 := by
  have hplay : ((play (guarded (fun r act => r.Occurs sampleMachine (sampleMachine.Snaps fourPuts)
        fourPuts act ∧ r.StartsInTerm trio 1 act)
      (fun r => Replica.next sampleMachine trio 1 true r))
      (Replica.start sampleMachine true threeSaved) electedFirst).map
      fun r => (r.proc.delivered, r.stage)) = some (4, .up) := by decide +kernel
  obtain ⟨r, hr, hv⟩ := Option.map_eq_some_iff.mp hplay
  have hd : r.proc.delivered = 4 := congrArg Prod.fst hv
  have hs : r.stage = .up := congrArg Prod.snd hv
  have hgob := sampleMachine_roundTrips fourPuts
  have hstate := kvserver_restart trio 1 fourPuts encStore decStore hgob threeSaved_holds
    (by decide) (Replica.run_of_plays hgob (play_guarded_run hr)) hs
  rw [hd] at hstate
  exact ⟨r, hd, hs, hstate⟩

end Sample

end RaftLab.Kvraft1

/-
  File:      RaftLab/Kvraft1/Service.lean
  Subject:   A replicated service that is kept in memory: `rsm.MakeRSM` of `src/kvraft1/rsm/rsm.go`
             with its Raft, and the start-up of `StartServerShardGrp`.

  The servers are a Raft cluster and an `RSM` each, and take the steps of Sections.lean; nothing is
  assumed of Raft but its code.

  A process that dies takes its state machine, its maps and its Submits with it. `(n, k)` is process
  `k` of node `n`, and its RSM is one of its own: the Submits of a dead process never go on. A new
  process restores Raft's snapshot, if there is one, before `MakeRSM`.

  The fields of `Rsm.System` that stand for Raft there, the committed log and the snapshots, stay
  empty; a command is the `Op`, whose coding by `encodeOp` and `decodeOp` is left out.
-/
import RaftLab.Kvraft1.RsmSafety
import RaftLab.Kvraft1.Sections
import RaftLab.Raft1.Provenance

namespace RaftLab.Kvraft1.Service

open RaftLab.Lib RaftLab.Raft1

variable {σ NodeID Req Res : Type}

/-! ## 1. The state machine -/

/-- What is assumed of gob: it round-trips on the states that the requests lead to. -/
structure App.RoundTrips (app : App σ Req Res) (allowed : Req → Prop) : Prop where
  restore_snapshot : ∀ log : List Req, (∀ req ∈ log, allowed req) → ∀ i,
    app.restore (app.snapshot (app.after log i)) = app.after log i
  snapshot_ne : ∀ s, app.snapshot s ≠ []

/-! ## 2. The state -/

/-- The RSMs of all processes there have been, and the Submits. -/
abbrev Servers (σ NodeID Req Res : Type) := Rsm.System σ (NodeID × ℕ) Req Res

structure System (σ NodeID Req Res : Type) where
  cluster : Cluster NodeID (Rsm.Op Req)
  rsms : Servers σ NodeID Req Res
  /-- The number of the process that a node runs. -/
  current : NodeID → ℕ

/-- Which process a node runs. -/
def System.place (s : System σ NodeID Req Res) : Place NodeID (NodeID × ℕ) where
  proc n := (n, s.current n)
  node := Prod.fst

/-! ## 3. The steps -/

section Steps

variable (app : App σ Req Res)

/-- `persister.SnapshotSize() > 0`, `Restore` and `MakeRSM`: the RSM of a new process. -/
def startServer (st : PersistState NodeID (Rsm.Op Req)) : Rsm.RSM σ Req Res where
  sm := if (st.snapshot.getD []).length > 0 then app.restore (st.snapshot.getD []) else app.init
  applied := st.snapshotIndex
  chMap _ := none
  hashNumMap _ := none
  mu := none
  loop := .reading

variable [DecidableEq NodeID]

/-- The node runs a new process on what is on its disk. -/
def reboot (cluster : Cluster NodeID (Rsm.Op Req)) (rsms : Servers σ NodeID Req Res)
    (current : NodeID → ℕ) (n : NodeID) : System σ NodeID Req Res where
  cluster := cluster
  rsms := rsms.setRsm (n, current n + 1) (startServer app (cluster.disk n))
  current := Function.update current n (current n + 1)

/-- The servers after a step. -/
def System.after (s : System σ NodeID Req Res) (o : Stepped σ NodeID (NodeID × ℕ) Req Res) :
    System σ NodeID Req Res :=
  match o.died with
  | none => { s with cluster := o.cluster, rsms := o.rsms }
  | some n => reboot app o.cluster o.rsms s.current n

variable [DecidableEq Req] [Inhabited (Rsm.Op Req)] (cfg : Config NodeID)

/-- Everything fresh: empty WALs, nothing submitted. -/
def System.init : System σ NodeID Req Res := ⟨.init, .init app.toMachine, fun _ => 0⟩

/-- **One step of the servers.** -/
def System.next (s : System σ NodeID Req Res) (act : Action NodeID Req) :
    Option (System σ NodeID Req Res) :=
  (step app s.place cfg s.cluster s.rsms act).map (s.after app)

/-- The states the servers can reach with such requests. -/
def System.Reachable (allowed : Req → Prop) (s : System σ NodeID Req Res) : Prop :=
  Relation.ReflTransGen (fun s s' => ∃ act : Action NodeID Req, act.Allowed allowed ∧
    s.next app cfg act = some s') (.init app) s

variable {app cfg}

theorem System.next_iff {s s' : System σ NodeID Req Res} {act : Action NodeID Req} :
    s.next app cfg act = some s' ↔
      ∃ o, Steps app s.place cfg s.cluster s.rsms act o ∧ s.after app o = s' := by
  rw [System.next, Option.map_eq_some_iff]
  exact exists_congr fun o => and_congr_left' step_iff

end Steps

end RaftLab.Kvraft1.Service

/-
  File:      RaftLab/Kvraft1/Raftkvd.lean
  Subject:   A cluster of raftkvd nodes: `StartKVServerGrpc` of `src/kvraft1/server.go` over
             `MakeRSMGrpc`, a file WAL and pebble, with the Submits of its clients.

  The nodes are a Raft cluster and an `RSM` each, and take the steps of Sections.lean; nothing is
  assumed of Raft but its code. The fields of `Rsm.System` that stand for Raft there, the committed
  log and the snapshots, stay empty here.

  Pebble writes are atomic and durable: when a process dies, its store stays. Its maps and its
  Submits are gone, and Raft starts again from its WAL. A Submit that dies with its process counts as
  one that has returned an error.
-/
import RaftLab.Kvraft1.Node
import RaftLab.Kvraft1.Numbers
import RaftLab.Kvraft1.Sections
import RaftLab.Raft1.Provenance

namespace RaftLab.Kvraft1

open RaftLab.Lib RaftLab.Raft1 RaftLab.Kvsrv1

variable {NodeID Key Value : Type}

/-! ## 1. The handlers -/

/-- What `DoOp` returns; `none` is nil. -/
abbrev Result (Value : Type) := Option (Reply Value)

namespace KVServer

/-- `Get`, once `Submit` has returned; `none` is the panic of `res.(rpc.GetReply)`. -/
def get [Inhabited Value] (err : Err) (res : Option (Result Value)) : Option (GetReply Value) :=
  if err ≠ .ok then
    some { value := default, version := 0, err := err }
  else
    match res with
    | some (some (.get getReply)) => some getReply
    | _ => none

/-- `Put`, once `Submit` has returned; `none` is the panic of `res.(rpc.PutReply)`. -/
def put (err : Err) (res : Option (Result Value)) : Option PutReply :=
  if err ≠ .ok then
    some { err := err }
  else
    match res with
    | some (some (.put putReply)) => some putReply
    | _ => none

/-- The handler that has submitted the request gets to its end. -/
def Replies [Inhabited Value] (req : Req Key Value) (err : Err) (res : Option (Result Value)) :
    Prop :=
  match req with
  | .get _ => get err res ≠ none
  | .put _ => put err res ≠ none

end KVServer

namespace Raftkvd

/-! ## 2. The state -/

/-- What goes through Raft. -/
abbrev Command (Key Value : Type) := Rsm.Op (Req Key Value)

instance [Inhabited Key] : Inhabited (Command Key Value) := ⟨⟨default, 0⟩⟩

/-- The RSMs of the nodes with their stores, and the Submits. -/
abbrev Servers (NodeID Key Value : Type) :=
  Rsm.System (Store Key Value) NodeID (Req Key Value) (Result Value)

structure System (NodeID Key Value : Type) where
  cluster : Cluster NodeID (Command Key Value)
  rsms : Servers NodeID Key Value

/-- The state machine of the RSM: a `KVServer` over pebble. -/
def machine [DecidableEq Key] [Inhabited Value] :
    Machine (Store Key Value) (Req Key Value) (Result Value) :=
  ⟨.empty, fun index s req => doOp s index req⟩

/-- The applied index is one of the log. -/
theorem after_applied_le [DecidableEq Key] [Inhabited Value] (log : List (Req Key Value)) (i : ℕ) :
    (machine.after log i).applied ≤ i := by
  induction i with
  | zero => exact Nat.le_refl _
  | succ i ih =>
      cases hop : log[i]? with
      | none =>
          simp only [Machine.after, hop]
          exact Nat.le_succ_of_le ih
      | some op =>
          rw [Machine.after_succ hop]
          rcases doOp_applied (machine.after log i) (i + 1) op with e | e
          · exact (congrArg Store.applied e).trans_le (Nat.le_succ_of_le ih)
          · exact e.le

/-- The state machine with its snapshots: checkpoints of the database. -/
def app [DecidableEq Key] [Inhabited Value] (tar : Tar Key Value) :
    Service.App (Store Key Value) (Req Key Value) (Result Value) where
  toMachine := machine
  snapshot := tar.pack
  restore := tar.unpack

/-! ## 3. The steps -/

abbrev Entry (NodeID Key Value : Type) := Service.Entry NodeID (Req Key Value)

abbrev Action (NodeID Key Value : Type) := Service.Action NodeID (Req Key Value)

/-- A node has one RSM, with whatever process it runs. -/
abbrev place (NodeID : Type) : Service.Place NodeID NodeID := ⟨id, id⟩

section Steps

variable [DecidableEq NodeID] [DecidableEq Key] [Inhabited Value] (tar : Tar Key Value)

/-- The node of a section, its event, and the RSMs once its caller has gone on. -/
def System.enter (s : System NodeID Key Value) :
    Entry NodeID Key Value →
      Option (NodeID × Event NodeID (Command Key Value) × Servers NodeID Key Value) :=
  Service.enter (app tar) (place NodeID) s.cluster s.rsms

omit [DecidableEq Key] [Inhabited Value] in
/-- The process of the node dies and is started again, with Raft at an index: the store is used as
    it is. -/
def reboot (rsms : Servers NodeID Key Value) (n : NodeID) (applied : ℕ) :
    Servers NodeID Key Value :=
  { rsms.setRsm n ⟨(rsms.rsm n).sm, applied, fun _ => none, fun _ => none, none, .reading⟩ with
    submits := rsms.submits.map (·.killed n) }

variable [Inhabited Key] [DecidableEq Value] (cfg : Config NodeID)

/-- Everything fresh: empty WALs, empty databases, nothing submitted. -/
def System.init : System NodeID Key Value := ⟨.init, .init machine⟩

omit [DecidableEq Key] [Inhabited Value] [Inhabited Key] [DecidableEq Value] in
/-- The nodes after a step. -/
def System.after (o : Service.Stepped (Store Key Value) NodeID NodeID (Req Key Value)
    (Result Value)) : System NodeID Key Value :=
  match o.died with
  | none => ⟨o.cluster, o.rsms⟩
  | some n => ⟨o.cluster, reboot o.rsms n (o.cluster.node n).delivered⟩

/-- **One step of the cluster of nodes.** -/
def System.next (s : System NodeID Key Value) (act : Action NodeID Key Value) :
    Option (System NodeID Key Value) :=
  (Service.step (app tar) (place NodeID) cfg s.cluster s.rsms act).map System.after

/-- The states the nodes can reach. -/
def System.Reachable (s : System NodeID Key Value) : Prop :=
  Relation.ReflTransGen (fun s s' => ∃ act, s.next tar cfg act = some s') .init s

variable {tar cfg} in
theorem System.next_iff {s s' : System NodeID Key Value} {act : Action NodeID Key Value} :
    s.next tar cfg act = some s' ↔
      ∃ o, Service.Steps (app tar) (place NodeID) cfg s.cluster s.rsms act o ∧
        System.after o = s' := by
  rw [System.next, Option.map_eq_some_iff]
  exact exists_congr fun o => and_congr_left' Service.step_iff

/-! ## 4. Snapshots that are not ahead -/

/-- `Snapshot` is not called for an index that the store is ahead of. -/
def System.fits (s : System NodeID Key Value) : Action NodeID Key Value → Bool
  | .run (.compact n) | .crash (.compact n) _ _ =>
      match (s.rsms.rsm n).loop with
      | .notified index => (s.rsms.rsm n).sm.applied ≤ index
      | _ => true
  | _ => true

abbrev System.Fits (s : System NodeID Key Value) (act : Action NodeID Key Value) : Prop :=
  s.fits act = true

/-- The states of runs in which no node compacts its log while it still replays entries that its
    store has. -/
def System.FitReachable (s : System NodeID Key Value) : Prop :=
  Relation.ReflTransGen (fun s s' => ∃ act, s.Fits act ∧ s.next tar cfg act = some s') .init s

end Steps

end Raftkvd

end RaftLab.Kvraft1

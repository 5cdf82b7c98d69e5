/-
  File:      RaftLab/Shardkv1/Control.lean
  Subject:   The sharded service with its controllers: `src/shardkv1/shardctrler/shardctrler.go` over
             the shard groups.

  The controllers of Controller.lean share the registers `cfg` and `next`, with RPCs that arrive late
  (Registers.lean); the groups and the clerks are those of Fleet.lean. A controller that calls
  `migrate` begins a run of it in the fleet with its two configurations, and goes on once this run
  has come to its end (`job` says which one it is); the runs of controllers that have died stay where
  they are, and what they have sent may still arrive. A clerk gets its configuration from `Query`.
-/
import RaftLab.Shardkv1.Fleet
import RaftLab.Shardkv1.Registers

namespace RaftLab.Shardkv1.Control

open RaftLab.Lib Relation
open RaftLab.Raft1 (Config)
open RaftLab.Shardkv1.Fleet (Op Gob request)

variable {Value NodeID : Type}

structure System (Value NodeID : Type) where
  ctl : Shardctrler.Net
  fleet : Fleet.System Value NodeID
  /-- The run of `migrate` that a controller has called last. -/
  job : ℕ → ℕ

inductive Action (Value NodeID : Type) where
  /-- The controllers and their registers. -/
  | control (act : Shardctrler.Net.Action)
  /-- A client calls `Get` or `Put`; its clerk may have a configuration from an earlier call. -/
  | call (op : Op Value) (cfg : Option ShardConfig)
  /-- `refreshCfg` of call `x`. -/
  | refresh (x : ℕ)
  /-- The runs of `migrate`, the calls and the groups. -/
  | fleet (act : Fleet.Action Value NodeID)

/-- What is not begun by a controller or a client, and does not need the registers. -/
def inner : Fleet.Action Value NodeID → Bool
  | .own (.begin _ _) | .own (.call _ _) | .own (.refresh _ _) => false
  | _ => true

/-- The call of `migrate` that the controllers have made in this step. -/
def called (sys : Shardctrler.System) :
    Shardctrler.Net.Action → Option (ℕ × ShardConfig × ShardConfig)
  | .act (.step c) =>
      match sys.ctrl[c]? with
      | some (.migrate cur new) => some (c, cur, new)
      | _ => none
  | _ => none

/-- What the clients ask for. -/
def Action.Allowed (allowed : Req Value → Prop) : Action Value NodeID → Prop
  | .call op _ => allowed (request op)
  | _ => True

namespace System

/-- A controller in `migrate` goes on when its run of it has come to its end. -/
def returns (s : System Value NodeID) : Shardctrler.Net.Action → Bool
  | .act (.step c) =>
      match s.ctl.sys.ctrl[c]? with
      | some (.migrate _ _) => (s.fleet.users.ctrl[s.job c]?).any fun x => x.pc = .loop []
      | _ => true
  | _ => true

/-- The condition of `consecutive_migrations` on a step. -/
def NoSkip (s : System Value NodeID) : Action Value NodeID → Prop
  | .control act => s.ctl.NoSkip act
  | _ => True

instance (s : System Value NodeID) (act : Action Value NodeID) : Decidable (s.NoSkip act) := by
  cases act with
  | control act => exact inferInstanceAs (Decidable (s.ctl.NoSkip act))
  | call | refresh | fleet => exact inferInstanceAs (Decidable True)

variable [Inhabited Value] [DecidableEq NodeID] (gob : Gob Value) (cfg : Tgid → Config NodeID)

/-- The tester runs `InitConfig`; the servers are fresh. -/
def init (first : ShardConfig) : System Value NodeID := ⟨.init first, .init gob, fun _ => 0⟩

/-- **One step of the sharded service.** -/
def next (s : System Value NodeID) : Action Value NodeID → Option (System Value NodeID)
  | .control act =>
      if s.returns act then do
        let ctl ← s.ctl.next act
        match called ctl.sys act with
        | some (c, cur, new) => do
            let fleet ← s.fleet.next gob cfg (.own (.begin cur new))
            some ⟨ctl, fleet, Function.update s.job c s.fleet.users.ctrl.length⟩
        | none => some { s with ctl := ctl }
      else none
  | .call op conf =>
      if ∀ x ∈ conf, .queried x ∈ s.ctl.sys.hist then do
        let fleet ← s.fleet.next gob cfg (.own (.call op conf))
        some { s with fleet := fleet }
      else none
  | .refresh x => do
      let ctl ← s.ctl.next (.act .query)
      let conf ← Shardctrler.query s.ctl.sys.kv
      let fleet ← s.fleet.next gob cfg (.own (.refresh x conf))
      some { s with ctl := ctl, fleet := fleet }
  | .fleet act =>
      if inner act then do
        let fleet ← s.fleet.next gob cfg act
        some { s with fleet := fleet }
      else none

/-- The states of runs in which the clients ask for what is allowed and no `InitController` finds a
    number in `next` two above its `cfg`. -/
def Reachable (first : ShardConfig) (allowed : Req Value → Prop) (s : System Value NodeID) : Prop :=
  ReflTransGen (fun s s' => ∃ act : Action Value NodeID, act.Allowed allowed ∧ s.NoSkip act ∧
    s.next gob cfg act = some s') (.init gob first) s

end System

end RaftLab.Shardkv1.Control

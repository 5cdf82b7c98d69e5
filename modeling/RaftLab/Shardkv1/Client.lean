/-
  File:      RaftLab/Shardkv1/Client.lean
  Subject:   `Clerk.Put` of `src/shardkv1/client.go` and of `src/shardkv1/shardgrp/client.go`, over
             the groups and controllers of Migration.lean.

  The loop of the outer `Put` finds the group of the key in the configuration it has, and calls the
  `Put` of a clerk for that group; on `ErrWrongGroup` it drops the configuration and starts again.
  The inner `Put` sends an RPC and, as long as it has no answer other than `ErrWrongLeader`, sends it
  again, up to `maxRetries` times; then it gives up with `ErrWrongGroup`. Only an answer to its first
  RPC is returned as it is.

  An RPC that was sent is executed by its group at some time or never, also after the clerk has
  given up waiting for it: a request or an answer may be lost, and a server that answered
  `ErrWrongLeader` may have started the operation. The calls of any number of clients run among all
  steps of the controllers and the groups; a configuration that `Query` returns is one whose
  migration has ended.
-/
import RaftLab.Shardkv1.Migration

namespace RaftLab.Shardkv1.Client

open RaftLab.Lib RaftLab.Kvsrv1 Relation
open RaftLab.Raft1 (Bytes)

variable {Value : Type}

def maxRetries : ℕ := 30

/-! ## 1. One call -/

/-- Where a call stands. -/
inductive Pc where
  /-- At the head of the loop of the outer `Put`. -/
  | route
  /-- In the inner `Put`, waiting for the first RPC. -/
  | first
  /-- In its loop, about to send again, or waiting for that RPC. -/
  | retry (tries : ℕ)
  | resent (tries : ℕ)
  | returned (err : Err)
  deriving DecidableEq

/-- An RPC: the inner Put that sent it, what its execution answered, and whether the clerk got that
    answer. -/
structure Rpc where
  inner : ℕ
  gid : Tgid
  reply : Option PutReply
  answered : Bool
  deriving DecidableEq

/-- A call of the outer `Put`. -/
structure Call (Value : Type) where
  args : PutArgs Bytes Value
  /-- `ck.cfg` -/
  cfg : Option ShardConfig
  gid : Tgid
  /-- The number of inner Puts that have returned `ErrWrongGroup`. -/
  inner : ℕ
  /-- The RPCs sent, in order; the clerk waits for the last one. -/
  rpcs : List Rpc
  pc : Pc

namespace Call

/-- The inner `Put` returns to the loop of the outer one. -/
def innerReturn (x : Call Value) (err : Err) : Call Value :=
  if err = .errWrongGroup then { x with cfg := none, inner := x.inner + 1, pc := .route }
  else { x with pc := .returned err }

def sendRpc (x : Call Value) (gid : Tgid) (pc : Pc) : Call Value :=
  { x with gid := gid, rpcs := x.rpcs ++ [⟨x.inner, gid, none, false⟩], pc := pc }

/-- `refreshCfg` -/
def refresh (x : Call Value) (cfg : ShardConfig) : Option (Call Value) :=
  if x.pc = .route ∧ x.cfg = none then some { x with cfg := some cfg } else none

/-- The next RPC, or the end of the retries. -/
def send (x : Call Value) : Option (Call Value) :=
  match x.pc with
  | .route => x.cfg.map fun cfg => x.sendRpc (cfg.shards (key2Shard x.args.key)) .first
  | .retry tries =>
      if tries < maxRetries then some (x.sendRpc x.gid (.resent tries))
      else some (x.innerReturn .errWrongGroup)
  | _ => none

/-- The answer has come. -/
def answer (x : Call Value) : Option (Call Value) := do
  let r ← x.rpcs.getLast?
  let reply ← r.reply
  let x' := { x with rpcs := x.rpcs.dropLast ++ [{ r with answered := true }] }
  match x.pc with
  | .first => some (x'.innerReturn (putResult false reply))
  | .resent _ => some (x'.innerReturn (putResult true reply))
  | _ => none

/-- No answer has come, or `ErrWrongLeader`. -/
def noAnswer (x : Call Value) : Option (Call Value) :=
  match x.pc with
  | .first => some { x with pc := .retry 0 }
  | .resent tries => some { x with pc := .retry (tries + 1) }
  | _ => none

/-- The group has executed RPC `i`, which is `r`. -/
def executed (x : Call Value) (i : ℕ) (r : Rpc) (reply : PutReply) : Call Value :=
  { x with rpcs := x.rpcs.set i { r with reply := some reply } }

end Call

/-- The RPC took effect: the group executed it and answered `OK`. -/
def Rpc.Effective (r : Rpc) : Prop := r.reply = some ⟨.ok⟩

instance (r : Rpc) : Decidable r.Effective := inferInstanceAs (Decidable (_ = _))

/-- How many RPCs of the call took effect. -/
def Call.effects (x : Call Value) : ℕ := x.rpcs.countP fun r => r.Effective

/-! ## 2. The system -/

structure System (Value : Type) where
  w : World Value
  calls : List (Call Value)

inductive Action (Value : Type) where
  /-- A step of the controllers, the groups or other clients. -/
  | world (act : Shardkv1.Action Value)
  /-- A client calls `Put`; it may have a configuration from an earlier call. -/
  | call (args : PutArgs Bytes Value) (cfg : Option ℕ)
  /-- Call `c` goes on. -/
  | refresh (c N : ℕ)
  | send (c : ℕ)
  | answer (c : ℕ)
  | noAnswer (c : ℕ)
  /-- The group executes RPC `i` of call `c`. -/
  | execute (c i : ℕ)

variable [Inhabited Value]

namespace System

def init : System Value := ⟨.init, []⟩

/-- `Query` may return configuration `N`. -/
def Published (s : System Value) (N : ℕ) : Prop := N = 1 ∨ s.w.Ended N

instance (s : System Value) (N : ℕ) : Decidable (s.Published N) :=
  inferInstanceAs (Decidable (_ ∨ _))

/-- Call `c` takes a step of its own. -/
def step (s : System Value) (c : ℕ) (f : Call Value → Option (Call Value)) :
    Option (System Value) := do
  let x ← s.calls[c]?
  let x' ← f x
  some { s with calls := s.calls.set c x' }

def next (plan : Plan) (s : System Value) : Action Value → Option (System Value)
  | .world act => (s.w.next plan act).map fun w => { s with w := w }
  | .call args cfg =>
      if ∀ N ∈ cfg, s.Published N then
        some { s with calls := s.calls ++ [⟨args, cfg.map plan.cfg, 0, 0, [], .route⟩] }
      else none
  | .refresh c N => if s.Published N then s.step c (·.refresh (plan.cfg N)) else none
  | .send c => s.step c Call.send
  | .answer c => s.step c Call.answer
  | .noAnswer c => s.step c Call.noAnswer
  | .execute c i => do
      let x ← s.calls[c]?
      let r ← x.rpcs[i]?
      let w ← s.w.next plan (.put r.gid x.args)
      let reply := ((s.w.grp r.gid).doPut x.args).2
      if r.reply = none then some ⟨w, s.calls.set c (x.executed i r reply)⟩ else none

def Reachable (plan : Plan) (s : System Value) : Prop :=
  ReflTransGen (fun s s' => ∃ act, s.next plan act = some s') .init s

end System

end RaftLab.Shardkv1.Client

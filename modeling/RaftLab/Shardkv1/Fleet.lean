/-
  File:      RaftLab/Shardkv1/Fleet.lean
  Subject:   The sharded service as a whole: groups of servers with their own Raft, controllers that
             migrate shards, and clerks that call `Get` and `Put`.

  A group is the servers of Kvraft1/Service.lean with the state machine of Group.lean: the handlers
  of `src/shardkv1/shardgrp/server.go` call Submit and hand back what `DoOp` answered (`serve`).
  Commands are what gob makes of the requests, and snapshots what it makes of `Snapshot`.

  The controllers run `migrate` of `src/shardkv1/shardctrler/shardctrler.go`, with any two
  configurations (`Job`); the clerks are `Get` and `Put` of `src/shardkv1/client.go` with those of
  `src/shardkv1/shardgrp/client.go` inside, with any configurations too. What a controller or a clerk
  sends comes to some server of the group, or to none; a controller's request may come any
  number of times, an RPC of a clerk once, and either one at any time, also after its sender has
  given up. An answer is what a Submit has returned with `OK`; a server that answers
  `ErrWrongLeader` and one that does not answer are the same to a sender.

  `own` has the steps that the controllers and the clerks take by themselves, `post` what they send
  and `take` what they make of an answer; `hist` is what the clients see. Nothing here says which
  migrations are begun: `Governed` is the discipline that the results need, a migration from each
  configuration of a plan to the one after it, begun when the one before has ended. Control.lean runs
  the fleet with the controllers of the code, and says when they keep it.
-/
import RaftLab.Kvraft1.ServiceObject
import RaftLab.Kvsrv1.Clerk
import RaftLab.Shardkv1.Client
import RaftLab.Shardkv1.Replica

namespace RaftLab.Shardkv1.Fleet

open RaftLab.Lib RaftLab.Kvsrv1 Relation
open RaftLab.Raft1 (Bytes Config)
open RaftLab.Kvraft1.Service (App)
open RaftLab.Shardkv1.Client (maxRetries)

variable {Value : Type}

/-! ## 1. A group -/

/-- gob, on the requests in the log and on `Snapshot`. -/
structure Gob (Value : Type) where
  encodeOp : Req Value → Bytes
  decodeOp : Bytes → Req Value
  encode : KVServer Value → Bytes
  decode : Bytes → KVServer Value

/-- A reply with nothing but the error. -/
def refuse [Inhabited Value] (err : Err) : Req Value → Reply Value
  | .get _ => .get ⟨default, 0, err⟩
  | .put _ => .put ⟨err⟩
  | .freezeShard _ => .freezeShard ⟨none, 0, err⟩
  | .installShard _ => .installShard ⟨err⟩
  | .deleteShard _ => .deleteShard ⟨err⟩

/-- `Get`, `Put`, `FreezeShard`, `InstallShard` and `DeleteShard` on what Submit has returned;
    `none` is a type assertion that fails. -/
def serve [Inhabited Value] (req : Req Value) (err : Err) (res : Option (Reply Value)) :
    Option (Reply Value) :=
  if err ≠ .ok then
    some (refuse err req)
  else
    match req, res with
    | .get _, some (.get reply) => some (.get reply)
    | .put _, some (.put reply) => some (.put reply)
    | .freezeShard _, some (.freezeShard reply) => some (.freezeShard reply)
    | .installShard _, some (.installShard reply) => some (.installShard reply)
    | .deleteShard _, some (.deleteShard reply) => some (.deleteShard reply)
    | _, _ => none

/-- The servers of group `gid`. -/
def Gob.app [Inhabited Value] (gob : Gob Value) (gid : Tgid) :
    App (KVServer Value) Bytes (Reply Value) where
  init := startServerShardGrp gid
  step _ kv cmd := kv.doOp (gob.decodeOp cmd)
  snapshot := gob.encode
  restore := gob.decode

/-! ## 2. A call of a clerk -/

abbrev Op (Value : Type) := Kvraft1.Req Bytes Value

abbrev Answer (Value : Type) := Kvraft1.Reply Value

def request : Op Value → Req Value
  | .get args => .get args
  | .put args => .put args

def opKey : Op Value → Bytes
  | .get args => args.key
  | .put args => args.key

/-- How many RPCs the inner `Get` or `Put` sends at most. -/
def budget : Op Value → ℕ
  | .get _ => maxRetries
  | .put _ => maxRetries + 1

def answerErr : Answer Value → Err
  | .get reply => reply.err
  | .put reply => reply.err

/-- The reply as the clerk's `Get` or `Put` reads it. -/
def asAnswer : Reply Value → Option (Answer Value)
  | .get reply => some (.get reply)
  | .put reply => some (.put reply)
  | _ => none

inductive Pc (Value : Type) where
  /-- At the head of the loop of the outer call. -/
  | route
  /-- In the inner call, about to send. -/
  | idle
  | waiting
  | returned (out : Answer Value)

/-- An RPC of a clerk, with the number of the Submit that it became. -/
structure Rpc where
  gid : Tgid
  sub : Option ℕ
  deriving DecidableEq

structure Call (Value : Type) where
  op : Op Value
  /-- `ck.cfg` -/
  cfg : Option ShardConfig
  gid : Tgid
  /-- The RPCs sent, in order; the clerk waits for the last one. -/
  rpcs : List Rpc
  /-- How many of them the inner call that runs has sent. -/
  tries : ℕ
  pc : Pc Value

namespace Call

variable (x : Call Value)

/-- `refreshCfg` -/
def refresh (cfg : ShardConfig) : Option (Call Value) :=
  match x.pc, x.cfg with
  | .route, none => some { x with cfg := some cfg }
  | _, _ => none

/-- The inner call has returned `ErrWrongGroup`. -/
def reroute : Call Value := { x with cfg := none, pc := .route }

def sendRpc (gid : Tgid) (tries : ℕ) : Call Value :=
  { x with gid := gid, rpcs := x.rpcs ++ [⟨gid, none⟩], tries := tries, pc := .waiting }

/-- The next RPC, or the end of the retries. -/
def send : Option (Call Value) :=
  match x.pc with
  | .route => x.cfg.map fun cfg => x.sendRpc (cfg.shards (key2Shard (opKey x.op))) 1
  | .idle =>
      if x.tries < budget x.op then some (x.sendRpc x.gid (x.tries + 1)) else some x.reroute
  | _ => none

/-- No answer has come, or `ErrWrongLeader`. -/
def noAnswer : Option (Call Value) :=
  match x.pc with
  | .waiting => some { x with pc := .idle }
  | _ => none

/-- The answer has come; with it, what the call returns. -/
def answer (ans : Answer Value) : Option (Call Value × Option (Answer Value)) :=
  match x.pc with
  | .waiting =>
      if answerErr ans = .errWrongLeader then
        some ({ x with pc := .idle }, none)
      else
        let out := clerkReply (decide (1 < x.tries)) ans
        if answerErr out = .errWrongGroup then
          some (x.reroute, none)
        else
          some ({ x with pc := .returned out }, some out)
  | _ => none

end Call

/-! ## 3. Controllers and clerks -/

/-- Who has sent what has come to a group: a controller its request `i`, or call `x` its RPC `j`. -/
inductive Sender where
  | request (i : ℕ)
  | rpc (x j : ℕ)
  deriving DecidableEq

/-- One run of `migrate(cur, new)`. -/
structure Job where
  cur : ShardConfig
  new : ShardConfig
  pc : Shardkv1.Pc
  deriving DecidableEq

/-- As in Migration.lean, where the number says which configurations they are. -/
def Job.ctrl (x : Job) : Ctrl := ⟨x.new.num, x.pc⟩

structure Users (Value : Type) where
  ctrl : List Job
  /-- The requests of the controllers. -/
  net : List (Tgid × Req Value)
  calls : List (Call Value)
  /-- The senders of the Submits of each group. -/
  senders : Tgid → List Sender
  hist : List (Mark ℕ (Op Value) (Answer Value))

/-- The steps of a controller or a clerk that involve nobody else. -/
inductive Own (Value : Type) where
  | begin (cur new : ShardConfig)
  | advance (c : ℕ)
  /-- A client calls `Get` or `Put`; it may have a configuration from an earlier call. -/
  | call (op : Op Value) (cfg : Option ShardConfig)
  | refresh (x : ℕ) (cfg : ShardConfig)
  | send (x : ℕ)
  | noAnswer (x : ℕ)

/-- Who gets an answer. -/
inductive Taker where
  | ctrl (c : ℕ)
  | clerk (x : ℕ)

namespace Users

def init : Users Value := ⟨[], [], [], fun _ => [], []⟩

variable (u : Users Value)

/-- Controller `c`, which runs `x`, makes a request and waits. -/
def ask (c : ℕ) (x : Job) (g : Tgid) (req : Req Value) (pc : ℕ → Shardkv1.Pc) : Users Value :=
  { u with ctrl := u.ctrl.set c { x with pc := pc u.net.length }, net := u.net ++ [(g, req)] }

/-- One turn of controller `c`, which runs `x`: at the head of its loop, or with the answer to a
    request. -/
def turn (c : ℕ) (x : Job) (reply : Option (ℕ × Reply Value)) : Option (Users Value) :=
  match x.pc, reply with
  | .loop (sh :: todo), none =>
      let oldGid := x.cur.shards sh
      let newGid := x.new.shards sh
      if oldGid = newGid then
        some { u with ctrl := u.ctrl.set c { x with pc := .loop todo } }
      else
        some (u.ask c x oldGid (.freezeShard ⟨sh, x.new.num⟩) (.freezing · sh todo))
  | .freezing i sh todo, some (j, .freezeShard reply) =>
      if j = i then
        some (u.ask c x (x.new.shards sh) (.installShard ⟨sh, reply.state, x.new.num⟩)
          (.installing · sh todo))
      else none
  | .installing i sh todo, some (j, .installShard _) =>
      if j = i then
        some (u.ask c x (x.cur.shards sh) (.deleteShard ⟨sh, x.new.num⟩) (.deleting · sh todo))
      else none
  | .deleting i _ todo, some (j, .deleteShard _) =>
      if j = i then some { u with ctrl := u.ctrl.set c { x with pc := .loop todo } } else none
  | _, _ => none

/-- Call `x` takes a step of its own. -/
def step (x : ℕ) (f : Call Value → Option (Call Value)) : Option (Users Value) := do
  let y ← u.calls[x]?
  let y' ← f y
  some { u with calls := u.calls.set x y' }

def own : Own Value → Option (Users Value)
  | .begin cur new =>
      some { u with ctrl := u.ctrl ++ [⟨cur, new, .loop (List.finRange nShards)⟩] }
  | .advance c => do
      let x ← u.ctrl[c]?
      u.turn c x none
  | .call op cfg =>
      some { u with
        calls := u.calls ++ [⟨op, cfg, 0, [], 0, .route⟩]
        hist := u.hist ++ [.call u.calls.length op] }
  | .refresh x cfg => u.step x (·.refresh cfg)
  | .send x => u.step x Call.send
  | .noAnswer x => u.step x Call.noAnswer

/-- One more Submit of group `g`. -/
def sentBy (g : Tgid) (sender : Sender) : Users Value :=
  { u with senders := Function.update u.senders g (u.senders g ++ [sender]) }

/-- What comes to a group: the group, the command, and the users once it is Submit `k` there. -/
def post (gob : Gob Value) : Sender → Option (Tgid × Bytes × (ℕ → Users Value))
  | .request i => do
      let (g, req) ← u.net[i]?
      some (g, gob.encodeOp req, fun _ => u.sentBy g (.request i))
  | .rpc x j => do
      let y ← u.calls[x]?
      let r ← y.rpcs[j]?
      if r.sub = none then
        some (r.gid, gob.encodeOp (request y.op), fun k => { u.sentBy r.gid (.rpc x j) with
          calls := u.calls.set x { y with rpcs := y.rpcs.set j { r with sub := some k } } })
      else none

/-- Submit `k` of group `g` has returned `res` with `OK`. -/
def take [Inhabited Value] (g : Tgid) (k : ℕ) (res : Reply Value) :
    Taker → Option (Users Value)
  | .ctrl c => do
      let x ← u.ctrl[c]?
      match (u.senders g)[k]? with
      | some (.request i) => do
          let (_, req) ← u.net[i]?
          let reply ← serve req .ok (some res)
          u.turn c x (some (i, reply))
      | _ => none
  | .clerk x => do
      let y ← u.calls[x]?
      let r ← y.rpcs.getLast?
      if r = ⟨g, some k⟩ then do
        let reply ← serve (request y.op) .ok (some res)
        let ans ← asAnswer reply
        let (y', out) ← y.answer ans
        some { u with
          calls := u.calls.set x y'
          hist := u.hist ++ (out.map (.ret x)).toList }
      else none

end Users

/-! ## 4. The system -/

section System

variable {NodeID : Type}

structure System (Value NodeID : Type) where
  users : Users Value
  grp : Tgid → Kvraft1.Service.System (KVServer Value) NodeID Bytes (Reply Value)

inductive Action (Value NodeID : Type) where
  | own (a : Own Value)
  /-- Something that was sent comes to node `n` of its group. -/
  | post (a : Sender) (n : NodeID)
  /-- The servers of a group work. -/
  | group (g : Tgid) (act : Kvraft1.Service.Action NodeID Bytes)
  /-- The answer of Submit `k` of group `g` comes back. -/
  | take (a : Taker) (g : Tgid) (k : ℕ)

/-- What the clients ask for. -/
def Own.Allowed (allowed : Req Value → Prop) : Own Value → Prop
  | .call op _ => allowed (request op)
  | _ => True

def Action.Allowed (allowed : Req Value → Prop) : Action Value NodeID → Prop
  | .own a => a.Allowed allowed
  | _ => True

instance : Inhabited (Kvraft1.Rsm.Op Bytes) := ⟨⟨[], 0⟩⟩

variable [Inhabited Value] [DecidableEq NodeID] (gob : Gob Value) (cfg : Tgid → Config NodeID)

namespace System

def init : System Value NodeID := ⟨.init, fun g => .init (gob.app g)⟩

/-- **One step of the whole.** -/
def next (s : System Value NodeID) : Action Value NodeID → Option (System Value NodeID)
  | .own a => (s.users.own a).map fun u => { s with users := u }
  | .post a n => do
      let (g, cmd, users) ← s.users.post gob a
      let grp ← (s.grp g).next (gob.app g) (cfg g) (.submit n cmd)
      some ⟨users (s.grp g).calls.length, Function.update s.grp g grp⟩
  | .group g act =>
      if act.isSubmit = false then do
        let grp ← (s.grp g).next (gob.app g) (cfg g) act
        some { s with grp := Function.update s.grp g grp }
      else none
  | .take a g k => do
      let res ← (s.grp g).answerTo k
      let u ← s.users.take g k res a
      some { s with users := u }

end System

end System

/-! ## 5. Migrations from one configuration to the next -/

/-- The configurations of the plan with this number and the one before it. -/
structure Job.Follows (plan : Plan) (x : Job) : Prop where
  cur : x.cur = plan.cfg (x.new.num - 1)
  new : x.new = plan.cfg x.new.num

/-- Some migration to the configuration with number `N` has run to its end. -/
def Users.Ended (u : Users Value) (N : ℕ) : Prop := ⟨N, .loop []⟩ ∈ u.ctrl.map Job.ctrl

/-- **The discipline**: a migration is begun from a configuration of the plan to the one after it,
    and, but for the first, when one to the former has ended. -/
def Users.Governed (plan : Plan) (u : Users Value) : Own Value → Prop
  | .begin cur new => 1 < new.num ∧ Job.Follows plan ⟨cur, new, .loop []⟩ ∧
      (new.num = 2 ∨ u.Ended (new.num - 1))
  | _ => True

def Action.Governed {NodeID : Type} (plan : Plan) (u : Users Value) : Action Value NodeID → Prop
  | .own a => u.Governed plan a
  | _ => True

/-- The states that are reached when the controllers keep to the plan and the clients ask for what is
    allowed. -/
def System.Reachable {NodeID : Type} [Inhabited Value] [DecidableEq NodeID] (plan : Plan)
    (gob : Gob Value) (cfg : Tgid → Config NodeID) (allowed : Req Value → Prop)
    (s : System Value NodeID) : Prop :=
  ReflTransGen (fun s s' => ∃ act : Action Value NodeID, act.Allowed allowed ∧
    act.Governed plan s.users ∧ s.next gob cfg act = some s') (.init gob) s

end RaftLab.Shardkv1.Fleet

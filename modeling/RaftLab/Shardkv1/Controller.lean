/-
  File:      RaftLab/Shardkv1/Controller.lean
  Subject:   `src/shardkv1/shardctrler/shardctrler.go`: controllers that share the registers
             `cfg` and `next` of a kvsrv.

  Any number of controllers run `InitConfig`, `InitController` and `ChangeConfigTo`, each at its own
  pace or not at all. Every RPC that a kvsrv executes is one step. A `Get` is sent until it is
  answered, so it reads once; a `Put` is sent until it is answered, and an RPC that is not answered
  may have been executed (`lose`). `migrate` works on the shard groups (Migration.lean); here it is
  called and, perhaps, comes to its end.

  A register holds a configuration, whose `String()` is what the kvsrv stores. `hist` records what
  `Query` returned, what was stored in a register, and the calls of `migrate`, in order.
-/
import RaftLab.Kvsrv1.Server
import RaftLab.Shardkv1.Config
import RaftLab.Lib.Runs

namespace RaftLab.Shardkv1.Shardctrler

open RaftLab.Lib RaftLab.Kvsrv1 Relation
open RaftLab.Raft1 (Bytes)

/-! ## 1. The registers -/

inductive Key where
  | cfg
  | next
  deriving DecidableEq

abbrev Registers := Table Key ShardConfig

def readCfg (kv : Registers) (key : Key) : Option ShardConfig × ℕ :=
  let reply := getEntry kv ⟨key⟩
  if reply.err ≠ .ok then (none, 0) else (some reply.value, reply.version)

/-- `Query`; `FromString` does not survive a register that was never written. -/
def query (kv : Registers) : Option ShardConfig :=
  let reply := getEntry kv ⟨.cfg⟩
  if reply.err ≠ .ok then none else some reply.value

/-! ## 2. Controllers -/

/-- Where a controller stands: the RPC it sends next, or `migrate`. -/
inductive Pc where
  /-- `InitConfig`: its two Puts. -/
  | initConfigCfg (cfg : ShardConfig) (resend : Bool)
  | initConfigNext (cfg : ShardConfig) (resend : Bool)
  /-- `InitController`: its two reads. -/
  | initCfg
  | initNext (cur : Option ShardConfig)
  /-- `ChangeConfigTo`: `Query`, the `Put` of `next` and the read after a failure. -/
  | changeQuery (new : ShardConfig)
  | putNext (cur new : ShardConfig) (resend : Bool)
  | rereadNext (cur new : ShardConfig)
  | migrate (cur new : ShardConfig)
  | putCfg (new : ShardConfig) (resend : Bool)
  | done
  deriving DecidableEq

inductive Ev where
  | queried (cfg : ShardConfig)
  | stored (key : Key) (cfg : ShardConfig)
  | migrating (cur new : ShardConfig)
  | migrated (cur new : ShardConfig)
  deriving DecidableEq

structure System where
  kv : Registers
  ctrl : List Pc
  hist : List Ev

/-- The tester runs `InitConfig`. -/
def System.init (first : ShardConfig) : System := ⟨.empty, [.initConfigCfg first false], []⟩

/-- How a new configuration is made from one that `Query` returned. -/
inductive Change where
  | join (servers : List (Tgid × List Bytes))
  | leave (gids : List Tgid)

def Change.apply (cfg : ShardConfig) : Change → Option ShardConfig
  | .join servers =>
      match cfg.joinBalance servers with
      | some (new, true) => some new
      | _ => none
  | .leave gids =>
      match cfg.leaveBalance gids with
      | some (new, true) => some new
      | _ => none

inductive Action where
  | query
  | initController
  | changeConfigTo (cfg : ShardConfig) (change : Change)
  /-- Controller `c` goes on; its RPC is executed and answered. -/
  | step (c : ℕ)
  /-- The `Put` RPC of controller `c` is not answered. -/
  | lose (c : ℕ) (executed : Bool)

/-- The `Put` a controller sends. -/
def Pc.put : Pc → Option (PutArgs Key ShardConfig)
  | .initConfigCfg cfg _ => some ⟨.cfg, cfg, 0⟩
  | .initConfigNext cfg _ => some ⟨.next, cfg, 0⟩
  | .putNext _ new _ => some ⟨.next, new, new.num - 1⟩
  | .putCfg new _ => some ⟨.cfg, new, new.num - 1⟩
  | _ => none

/-- It will send it again. -/
def Pc.resent : Pc → Pc
  | .initConfigCfg cfg _ => .initConfigCfg cfg true
  | .initConfigNext cfg _ => .initConfigNext cfg true
  | .putNext cur new _ => .putNext cur new true
  | .putCfg new _ => .putCfg new true
  | pc => pc

namespace System

def goto (s : System) (c : ℕ) (pc : Pc) : System := { s with ctrl := s.ctrl.set c pc }

def record (s : System) (ev : Ev) : System := { s with hist := s.hist ++ [ev] }

/-- The kvsrv executes a `Put`. -/
def exec (s : System) (args : PutArgs Key ShardConfig) : System × PutReply :=
  let (kv, reply) := putEntry s.kv args
  let s' := { s with kv := kv }
  (if reply.err = .ok then s'.record (.stored args.key args.value) else s', reply)

def callMigrate (s : System) (c : ℕ) (cur new : ShardConfig) : System :=
  (s.goto c (.migrate cur new)).record (.migrating cur new)

/-- Controller `c` goes on from `pc`. -/
def turn (s : System) (c : ℕ) : Pc → Option System
  | .initConfigCfg cfg _ => some ((s.exec ⟨.cfg, cfg, 0⟩).1.goto c (.initConfigNext cfg false))
  | .initConfigNext cfg _ => some ((s.exec ⟨.next, cfg, 0⟩).1.goto c .done)
  | .initCfg => some (s.goto c (.initNext (readCfg s.kv .cfg).1))
  | .initNext cur =>
      match cur, (readCfg s.kv .next).1 with
      | some cur, some next =>
          if next.num > cur.num then some (s.callMigrate c cur next) else some (s.goto c .done)
      | _, _ => some (s.goto c .done)
  | .changeQuery new =>
      match query s.kv with
      | none => some (s.goto c .done)
      | some cur =>
          if new.num ≤ cur.num then some ((s.record (.queried cur)).goto c .done)
          else some ((s.record (.queried cur)).goto c (.putNext cur new false))
  | .putNext cur new resend =>
      let (s', reply) := s.exec ⟨.next, new, new.num - 1⟩
      if putResult resend reply ≠ .ok then some (s'.goto c (.rereadNext cur new))
      else some (s'.callMigrate c cur new)
  | .rereadNext cur new =>
      match (readCfg s.kv .next).1 with
      | none => some (s.goto c .done)
      | some got => if got ≠ new then some (s.goto c .done) else some (s.callMigrate c cur new)
  | .migrate cur new => some ((s.goto c (.putCfg new false)).record (.migrated cur new))
  | .putCfg new _ => some ((s.exec ⟨.cfg, new, new.num - 1⟩).1.goto c .done)
  | .done => none

/-- The system after an action, if it can be taken. -/
def next (s : System) : Action → Option System
  | .query => (query s.kv).map fun cfg => s.record (.queried cfg)
  | .initController => some { s with ctrl := s.ctrl ++ [.initCfg] }
  | .changeConfigTo cfg change =>
      if .queried cfg ∈ s.hist then
        (change.apply cfg).map fun new => { s with ctrl := s.ctrl ++ [.changeQuery new] }
      else none
  | .step c => do
      let pc ← s.ctrl[c]?
      s.turn c pc
  | .lose c executed => do
      let pc ← s.ctrl[c]?
      let args ← pc.put
      some ((if executed then (s.exec args).1 else s).goto c pc.resent)

/-- Runs whose steps all meet a condition. -/
def Run (cond : System → Action → Prop) : System → System → Prop :=
  ReflTransGen fun s s' => ∃ act, cond s act ∧ s.next act = some s'

end System

/-! ## 3. What a controller can do -/

/-- What a turn can come to; where a register is not as it should be, the controller gives up. -/
inductive Turned (s : System) (c : ℕ) : Pc → System → Prop where
  | seedCfg (cfg resend) :
      Turned s c (.initConfigCfg cfg resend)
        ((s.exec ⟨.cfg, cfg, 0⟩).1.goto c (.initConfigNext cfg false))
  | seedNext (cfg resend) :
      Turned s c (.initConfigNext cfg resend) ((s.exec ⟨.next, cfg, 0⟩).1.goto c .done)
  | look : Turned s c .initCfg (s.goto c (.initNext (readCfg s.kv .cfg).1))
  | recover (cur next) (hnext : (readCfg s.kv .next).1 = some next) (hlt : cur.num < next.num) :
      Turned s c (.initNext (some cur)) (s.callMigrate c cur next)
  | giveUp (pc) : Turned s c pc (s.goto c .done)
  | late (new cur) (hquery : query s.kv = some cur) :
      Turned s c (.changeQuery new) ((s.record (.queried cur)).goto c .done)
  | propose (new cur) (hquery : query s.kv = some cur) (hlt : cur.num < new.num) :
      Turned s c (.changeQuery new) ((s.record (.queried cur)).goto c (.putNext cur new false))
  | unsure (cur new resend) :
      Turned s c (.putNext cur new resend)
        ((s.exec ⟨.next, new, new.num - 1⟩).1.goto c (.rereadNext cur new))
  | won (cur new resend) (hok : putResult resend (s.exec ⟨.next, new, new.num - 1⟩).2 = .ok) :
      Turned s c (.putNext cur new resend)
        ((s.exec ⟨.next, new, new.num - 1⟩).1.callMigrate c cur new)
  | found (cur new) (hnext : (readCfg s.kv .next).1 = some new) :
      Turned s c (.rereadNext cur new) (s.callMigrate c cur new)
  | migrated (cur new) :
      Turned s c (.migrate cur new) ((s.goto c (.putCfg new false)).record (.migrated cur new))
  | publish (new resend) :
      Turned s c (.putCfg new resend) ((s.exec ⟨.cfg, new, new.num - 1⟩).1.goto c .done)

/-- **What a step of a controller can do.** -/
theorem turned {s s' : System} {c : ℕ} {pc : Pc} (ht : s.turn c pc = some s') :
    Turned s c pc s' := by
  cases pc with
  | initConfigCfg cfg resend =>
      cases ht
      exact .seedCfg cfg resend
  | initConfigNext cfg resend =>
      cases ht
      exact .seedNext cfg resend
  | initCfg =>
      cases ht
      exact .look
  | initNext cur =>
      simp only [System.turn] at ht
      split at ht
      next cur nx hnext =>
        split at ht
        next hlt =>
          cases ht
          exact .recover cur nx hnext hlt
        next =>
          cases ht
          exact .giveUp _
      next =>
        cases ht
        exact .giveUp _
  | changeQuery new =>
      simp only [System.turn] at ht
      split at ht
      next =>
        cases ht
        exact .giveUp _
      next cur hquery =>
        split at ht
        next =>
          cases ht
          exact .late new cur hquery
        next hlt =>
          cases ht
          exact .propose new cur hquery (Nat.lt_of_not_le hlt)
  | putNext cur new resend =>
      simp only [System.turn] at ht
      split at ht
      next =>
        cases ht
        exact .unsure cur new resend
      next hok =>
        cases ht
        exact .won cur new resend (Decidable.not_not.mp hok)
  | rereadNext cur new =>
      simp only [System.turn] at ht
      split at ht
      next =>
        cases ht
        exact .giveUp _
      next got hnext =>
        split at ht
        next =>
          cases ht
          exact .giveUp _
        next hsame =>
          cases ht
          obtain rfl : got = new := Decidable.not_not.mp hsame
          exact .found cur got hnext
  | migrate cur new =>
      cases ht
      exact .migrated cur new
  | putCfg new resend =>
      cases ht
      exact .publish new resend
  | done => cases ht

end RaftLab.Shardkv1.Shardctrler

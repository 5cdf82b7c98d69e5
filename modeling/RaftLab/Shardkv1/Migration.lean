/-
  File:      RaftLab/Shardkv1/Migration.lean
  Subject:   Controllers that migrate shards, the shard groups, and clients.

  `migrate` of `src/shardkv1/shardctrler/shardctrler.go` walks over the shards; for each one that
  changes owner it calls `Freeze` at the old owner, `Install` at the new one with the state that
  came back, and `Delete` at the old one. A call sends a request and returns with the answer of
  one execution of it; the request stays in the network and may be executed again at any time. Any
  number of controllers run, each at its own pace or not at all, and a migration to configuration N
  begins only after one to N-1 has ended. `cfg N` is the configuration of number N. Clients send
  `Get` and `Put` to any group.

  A step is an `Action` that can be computed (`next`). `acked` records the Puts answered OK, `top`
  the highest number a migration was begun for.
-/
import RaftLab.Shardkv1.Group
import RaftLab.Lib.Runs
import Mathlib.Data.List.FinRange
import Mathlib.Logic.Relation

namespace RaftLab.Shardkv1

open RaftLab.Lib RaftLab.Kvsrv1
open RaftLab.Raft1 (Bytes)

/-! ## 1. Requests -/

/-- The requests of a shard group. -/
inductive Req (Value : Type) where
  | get (args : GetArgs Bytes)
  | put (args : PutArgs Bytes Value)
  | freezeShard (args : FreezeShardArgs)
  | installShard (args : InstallShardArgs Value)
  | deleteShard (args : DeleteShardArgs)

inductive Reply (Value : Type) where
  | get (reply : GetReply Value)
  | put (reply : PutReply)
  | freezeShard (reply : FreezeShardReply Value)
  | installShard (reply : InstallShardReply)
  | deleteShard (reply : DeleteShardReply)

variable {Value : Type} [Inhabited Value]

/-- `DoOp` -/
def KVServer.doOp (kv : KVServer Value) : Req Value → KVServer Value × Reply Value
  | .get args => (kv, .get (kv.doGet args))
  | .put args => ((kv.doPut args).1, .put (kv.doPut args).2)
  | .freezeShard args => ((kv.doFreezeShard args).1, .freezeShard (kv.doFreezeShard args).2)
  | .installShard args => ((kv.doInstallShard args).1, .installShard (kv.doInstallShard args).2)
  | .deleteShard args => ((kv.doDeleteShard args).1, .deleteShard (kv.doDeleteShard args).2)

/-! ## 2. The system -/

/-- Where `migrate` stands: at the head of the loop with the shards still to come, or in a call
    for a shard, with the place of its request in the network. -/
inductive Pc where
  | loop (todo : List Tshid)
  | freezing (i : ℕ) (sh : Tshid) (todo : List Tshid)
  | installing (i : ℕ) (sh : Tshid) (todo : List Tshid)
  | deleting (i : ℕ) (sh : Tshid) (todo : List Tshid)
  deriving DecidableEq

/-- One run of `migrate(cfg_{num-1}, cfg_num)`. -/
structure Ctrl where
  num : ℕ
  pc : Pc
  deriving DecidableEq

/-- One configuration for each number; the first gives every shard to `gid1`. -/
structure Plan where
  cfg : ℕ → ShardConfig
  num : ∀ N, (cfg N).num = N
  first : ∀ sh, (cfg 1).shards sh = gid1

/-- The owner of a shard in configuration `N`. -/
def Plan.own (plan : Plan) (sh : Tshid) (N : ℕ) : Tgid := (plan.cfg N).shards sh

structure World (Value : Type) where
  grp : Tgid → KVServer Value
  ctrl : List Ctrl
  net : List (Tgid × Req Value)
  /-- Executions: which request, and the answer. -/
  replies : List (ℕ × Reply Value)
  acked : List (PutArgs Bytes Value)
  top : ℕ

def World.init : World Value := ⟨startServerShardGrp, [], [], [], [], 1⟩

/-- The table that the acknowledged Puts lead to. -/
def applyPuts (acked : List (PutArgs Bytes Value)) : Table Bytes Value :=
  acked.foldl (fun m args => (putEntry m args).1) .empty

omit [Inhabited Value] in
theorem applyPuts_concat (acked : List (PutArgs Bytes Value)) (args : PutArgs Bytes Value) :
    applyPuts (acked ++ [args]) = (putEntry (applyPuts acked) args).1 := by
  simp [applyPuts]

inductive Action (Value : Type) where
  /-- A controller starts to migrate to configuration `N`. -/
  | begin (N : ℕ)
  /-- Controller `c` goes on; in a call it returns with the answer at place `r`. -/
  | advance (c r : ℕ)
  /-- The group executes request `i`. -/
  | execute (i : ℕ)
  | get (g : Tgid) (args : GetArgs Bytes)
  | put (g : Tgid) (args : PutArgs Bytes Value)

namespace World

/-- Some migration to configuration `N` has run to its end. -/
def Ended (w : World Value) (N : ℕ) : Prop := ⟨N, .loop []⟩ ∈ w.ctrl

instance (w : World Value) (N : ℕ) : Decidable (w.Ended N) :=
  inferInstanceAs (Decidable (_ ∈ w.ctrl))

/-- Controller `c` sends a request and waits. -/
def call (w : World Value) (c : ℕ) (N : ℕ) (g : Tgid) (req : Req Value) (pc : ℕ → Pc) :
    World Value :=
  { w with ctrl := w.ctrl.set c ⟨N, pc w.net.length⟩, net := w.net ++ [(g, req)] }

/-- One turn of controller `c`, which runs `x`. -/
def turn (plan : Plan) (w : World Value) (c r : ℕ) (x : Ctrl) : Option (World Value) :=
  match x.pc with
  | .loop [] => none
  | .loop (sh :: todo) =>
      let oldGid := plan.own sh (x.num - 1)
      let newGid := plan.own sh x.num
      if oldGid = newGid then
        some { w with ctrl := w.ctrl.set c ⟨x.num, .loop todo⟩ }
      else
        some (w.call c x.num oldGid (.freezeShard ⟨sh, (plan.cfg x.num).num⟩) (.freezing · sh todo))
  | .freezing i sh todo =>
      match w.replies[r]? with
      | some (j, .freezeShard reply) =>
          if j = i then
            some (w.call c x.num (plan.own sh x.num)
              (.installShard ⟨sh, reply.state, (plan.cfg x.num).num⟩) (.installing · sh todo))
          else none
      | _ => none
  | .installing i sh todo =>
      match w.replies[r]? with
      | some (j, .installShard _) =>
          if j = i then
            some (w.call c x.num (plan.own sh (x.num - 1))
              (.deleteShard ⟨sh, (plan.cfg x.num).num⟩) (.deleting · sh todo))
          else none
      | _ => none
  | .deleting i _ todo =>
      match w.replies[r]? with
      | some (j, .deleteShard _) =>
          if j = i then some { w with ctrl := w.ctrl.set c ⟨x.num, .loop todo⟩ } else none
      | _ => none

/-- The system after an action, if it can be taken. -/
def next (plan : Plan) (w : World Value) : Action Value → Option (World Value)
  | .begin N =>
      if 1 < N ∧ (N = 2 ∨ w.Ended (N - 1)) then
        some { w with ctrl := w.ctrl ++ [⟨N, .loop (List.finRange nShards)⟩], top := max w.top N }
      else none
  | .advance c r => do
      let x ← w.ctrl[c]?
      w.turn plan c r x
  | .execute i => do
      let (g, req) ← w.net[i]?
      let (kv, reply) := (w.grp g).doOp req
      some { w with grp := Function.update w.grp g kv, replies := w.replies ++ [(i, reply)] }
  | .get _ _ => some w
  | .put g args =>
      let (kv, reply) := (w.grp g).doPut args
      some { w with
        grp := Function.update w.grp g kv
        acked := if reply.err = .ok then w.acked ++ [args] else w.acked }

/-- The branches of `turn` in which the controller goes on. -/
inductive Turned (plan : Plan) (w : World Value) (c r : ℕ) : Ctrl → World Value → Prop where
  | keep {N sh todo} (hown : plan.own sh (N - 1) = plan.own sh N) :
      Turned plan w c r ⟨N, .loop (sh :: todo)⟩ { w with ctrl := w.ctrl.set c ⟨N, .loop todo⟩ }
  | freeze {N sh todo} (hown : plan.own sh (N - 1) ≠ plan.own sh N) :
      Turned plan w c r ⟨N, .loop (sh :: todo)⟩
        (w.call c N (plan.own sh (N - 1)) (.freezeShard ⟨sh, (plan.cfg N).num⟩)
          (.freezing · sh todo))
  | install {N i sh todo reply} (hr : w.replies[r]? = some (i, .freezeShard reply)) :
      Turned plan w c r ⟨N, .freezing i sh todo⟩
        (w.call c N (plan.own sh N) (.installShard ⟨sh, reply.state, (plan.cfg N).num⟩)
          (.installing · sh todo))
  | delete {N i sh todo reply} (hr : w.replies[r]? = some (i, .installShard reply)) :
      Turned plan w c r ⟨N, .installing i sh todo⟩
        (w.call c N (plan.own sh (N - 1)) (.deleteShard ⟨sh, (plan.cfg N).num⟩)
          (.deleting · sh todo))
  | done {N i sh todo reply} (hr : w.replies[r]? = some (i, .deleteShard reply)) :
      Turned plan w c r ⟨N, .deleting i sh todo⟩ { w with ctrl := w.ctrl.set c ⟨N, .loop todo⟩ }

omit [Inhabited Value] in
/-- **What a turn of a controller can do.** -/
theorem turned {plan : Plan} {w w' : World Value} {c r : ℕ} {x : Ctrl}
    (h : w.turn plan c r x = some w') : w.Turned plan c r x w' := by
  obtain ⟨N, pc⟩ := x
  cases pc with
  | loop todo =>
      cases todo with
      | nil => cases h
      | cons sh todo =>
          simp only [turn] at h
          split at h
          next hown =>
            cases h
            exact .keep hown
          next hown =>
            cases h
            exact .freeze hown
  | freezing i sh todo =>
      simp only [turn] at h
      split at h
      next j reply hr =>
        split at h
        next e =>
          subst e
          cases h
          exact .install hr
        next => cases h
      next => cases h
  | installing i sh todo =>
      simp only [turn] at h
      split at h
      next j reply hr =>
        split at h
        next e =>
          subst e
          cases h
          exact .delete hr
        next => cases h
      next => cases h
  | deleting i sh todo =>
      simp only [turn] at h
      split at h
      next j reply hr =>
        split at h
        next e =>
          subst e
          cases h
          exact .done hr
        next => cases h
      next => cases h

omit [Inhabited Value] in
/-- A turn of a controller does not write keys. -/
theorem acked_turn {plan : Plan} {w w' : World Value} {c r : ℕ} {x : Ctrl}
    (h : w.turn plan c r x = some w') : w'.acked = w.acked := by
  cases turned h with
  | keep | freeze | install | delete | done => rfl

/-- A step acknowledges at most one Put. -/
theorem acked_next {plan : Plan} {w w' : World Value} {act : Action Value}
    (h : w.next plan act = some w') :
    w'.acked = w.acked ∨ ∃ args, w'.acked = w.acked ++ [args] := by
  cases act with
  | begin N =>
      simp only [next] at h
      split at h
      · cases h
        exact .inl rfl
      · cases h
  | advance c r =>
      obtain ⟨x, _, hx⟩ := Option.bind_eq_some_iff.mp h
      exact .inl (acked_turn hx)
  | execute i =>
      obtain ⟨x, _, hx⟩ := Option.bind_eq_some_iff.mp h
      cases hx
      exact .inl rfl
  | get g args =>
      cases h
      exact .inl rfl
  | put g args =>
      cases h
      by_cases hok : ((w.grp g).doPut args).2.err = .ok
      · exact .inr ⟨args, if_pos hok⟩
      · exact .inl (if_neg hok)

/-- A run. -/
def Run (plan : Plan) : World Value → World Value → Prop :=
  Relation.ReflTransGen (fun w w' => ∃ act, w.next plan act = some w')

/-- **Reachable states.** -/
def Reachable (plan : Plan) (w : World Value) : Prop := Run plan .init w

end World

end RaftLab.Shardkv1

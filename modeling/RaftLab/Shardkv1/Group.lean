/-
  File:      RaftLab/Shardkv1/Group.lean
  Subject:   `src/shardkv1/shardgrp/server.go`: the replicated state of a shard group.

  The operations are what `DoOp` runs, one at a time, on every replica. A shard's exported state
  is the table `dumpShard` encodes; `none` is the nil slice a stale `Freeze` answers with, on which
  `loadShard` does nothing.

  `slot kv sh` is the server seen from one shard. Each operation changes the slot of its own
  shard, by the operation of Lib/Handover.lean of the same name, and no other slot.
-/
import RaftLab.Lib.Handover
import RaftLab.Kvsrv1.Server
import RaftLab.Shardkv1.Config

namespace RaftLab.Shardkv1

open RaftLab.Lib RaftLab.Kvsrv1
open RaftLab.Raft1 (Bytes)

/-! ## 1. The server -/

/-- `ShardState`: `away` is `NotOwned`. -/
abbrev ShardState := Phase

/-- What `dumpShard` encodes. -/
abbrev State (Value : Type) := Option (Table Bytes Value)

structure FreezeShardArgs where
  shard : Tshid
  num : ℕ

structure FreezeShardReply (Value : Type) where
  state : State Value
  num : ℕ
  err : Err

structure InstallShardArgs (Value : Type) where
  shard : Tshid
  state : State Value
  num : ℕ

structure InstallShardReply where
  err : Err

structure DeleteShardArgs where
  shard : Tshid
  num : ℕ

structure DeleteShardReply where
  err : Err

structure KVServer (Value : Type) where
  kvMap : Table Bytes Value
  shardState : Tshid → ShardState
  cfgNum : Tshid → ℕ

section Server

variable {Value : Type}

/-- The entries of one shard. -/
def restrict (sh : Tshid) (m : Table Bytes Value) : Table Bytes Value :=
  fun key => if key2Shard key = sh then m key else none

theorem restrict_of_eq {sh : Tshid} (m : Table Bytes Value) {key : Bytes} (h : key2Shard key = sh) :
    restrict sh m key = m key := if_pos h

theorem restrict_of_ne {sh : Tshid} (m : Table Bytes Value) {key : Bytes} (h : key2Shard key ≠ sh) :
    restrict sh m key = none := if_neg h

theorem restrict_congr {sh : Tshid} {m m' : Table Bytes Value}
    (h : ∀ key, key2Shard key = sh → m key = m' key) : restrict sh m = restrict sh m' := by
  funext key
  by_cases hk : key2Shard key = sh
  · rw [restrict_of_eq m hk, restrict_of_eq m' hk, h key hk]
  · rw [restrict_of_ne m hk, restrict_of_ne m' hk]

/-- `StartServerShardGrp` on no snapshot. -/
def startServerShardGrp (gid : Tgid) : KVServer Value where
  kvMap := .empty
  shardState _ := if gid = gid1 then .ready else .away
  cfgNum _ := 1

namespace KVServer

variable (kv : KVServer Value)

def doGet [Inhabited Value] (args : GetArgs Bytes) : GetReply Value :=
  if kv.shardState (key2Shard args.key) ≠ .ready then
    { value := default, version := 0, err := .errWrongGroup }
  else
    getEntry kv.kvMap args

def doPut (args : PutArgs Bytes Value) : KVServer Value × PutReply :=
  if kv.shardState (key2Shard args.key) ≠ .ready then
    (kv, { err := .errWrongGroup })
  else
    let (kvMap, reply) := putEntry kv.kvMap args
    ({ kv with kvMap := kvMap }, reply)

def dumpShard (shard : Tshid) : Table Bytes Value := restrict shard kv.kvMap

def loadShard (state : State Value) : KVServer Value :=
  { kv with kvMap := Slot.load state kv.kvMap }

def deleteShardData (shard : Tshid) : KVServer Value :=
  { kv with kvMap := fun key => if key2Shard key = shard then none else kv.kvMap key }

def doFreezeShard (args : FreezeShardArgs) : KVServer Value × FreezeShardReply Value :=
  if args.num < kv.cfgNum args.shard then
    (kv, { state := none, num := args.num, err := .ok })
  else
    let kv := { kv with
      shardState := Function.update kv.shardState args.shard .frozen
      cfgNum := Function.update kv.cfgNum args.shard args.num }
    (kv, { state := some (kv.dumpShard args.shard), num := args.num, err := .ok })

def doInstallShard (args : InstallShardArgs Value) : KVServer Value × InstallShardReply :=
  if args.num ≤ kv.cfgNum args.shard then
    (kv, { err := .ok })
  else
    let kv := kv.loadShard args.state
    ({ kv with
      shardState := Function.update kv.shardState args.shard .ready
      cfgNum := Function.update kv.cfgNum args.shard args.num }, { err := .ok })

def doDeleteShard (args : DeleteShardArgs) : KVServer Value × DeleteShardReply :=
  if args.num < kv.cfgNum args.shard then
    (kv, { err := .ok })
  else
    let kv := kv.deleteShardData args.shard
    ({ kv with
      shardState := Function.update kv.shardState args.shard .away
      cfgNum := Function.update kv.cfgNum args.shard args.num }, { err := .ok })

/-! ## 2. One shard of a server -/

/-- The server as the shard sees it. -/
def slot (sh : Tshid) : Slot Bytes (KvEntry Value) :=
  ⟨kv.shardState sh, kv.cfgNum sh, restrict sh kv.kvMap⟩

/-- A table with keys of one shard only. -/
def Within (sh : Tshid) (m : Table Bytes Value) : Prop := ∀ key, key2Shard key ≠ sh → m key = none

theorem within_restrict (sh : Tshid) (m : Table Bytes Value) : Within sh (restrict sh m) :=
  fun _ h => restrict_of_ne m h

variable {kv} {sh : Tshid}

/-- Two servers with the same entries in a shard, and the same fields, look the same from it. -/
theorem slot_congr {kv' : KVServer Value} (h1 : kv'.shardState sh = kv.shardState sh)
    (h2 : kv'.cfgNum sh = kv.cfgNum sh)
    (h3 : ∀ key, key2Shard key = sh → kv'.kvMap key = kv.kvMap key) : kv'.slot sh = kv.slot sh :=
  Slot.ext h1 h2 (restrict_congr h3)

theorem slot_doFreezeShard (args : FreezeShardArgs) :
    (kv.doFreezeShard args).1.slot sh =
      if sh = args.shard then (kv.slot sh).freeze args.num else kv.slot sh := by
  by_cases hnum : args.num < kv.cfgNum args.shard
  · by_cases e : sh = args.shard
    · subst e
      simp [doFreezeShard, Slot.freeze, slot, hnum]
    · simp [doFreezeShard, hnum, e]
  · by_cases e : sh = args.shard
    · subst e
      simp [doFreezeShard, Slot.freeze, slot, hnum]
    · simp only [doFreezeShard, if_neg hnum, if_neg e]
      exact slot_congr (Function.update_of_ne e _ _) (Function.update_of_ne e _ _) fun _ _ => rfl

theorem state_doFreezeShard (args : FreezeShardArgs) :
    (kv.doFreezeShard args).2.state = (kv.slot args.shard).answer args.num := by
  by_cases hnum : args.num < kv.cfgNum args.shard <;>
    simp [doFreezeShard, Slot.answer, slot, hnum, dumpShard]

/-- `loadShard` of keys of one shard, seen from any shard. -/
theorem restrict_load {sh' : Tshid} {state : State Value} (m : Table Bytes Value)
    (hw : ∀ sub, state = some sub → Within sh' sub) :
    restrict sh (Slot.load state m) =
      if sh = sh' then Slot.load state (restrict sh m) else restrict sh m := by
  cases state with
  | none => simp [Slot.load]
  | some sub =>
      have hsub := hw sub rfl
      by_cases e : sh = sh'
      · subst e
        rw [if_pos rfl]
        funext key
        by_cases hk : key2Shard key = sh
        · simp [Slot.load, restrict_of_eq _ hk]
        · simp [Slot.load, restrict_of_ne _ hk, hsub key hk]
      · rw [if_neg e]
        refine restrict_congr fun key hk => ?_
        simp [Slot.load, hsub key fun e' => e (hk.symm.trans e')]

/-- `Install` of keys of the shard itself. -/
theorem slot_doInstallShard {args : InstallShardArgs Value}
    (hw : ∀ sub, args.state = some sub → Within args.shard sub) :
    (kv.doInstallShard args).1.slot sh =
      if sh = args.shard then (kv.slot sh).install args.num args.state else kv.slot sh := by
  by_cases hnum : args.num ≤ kv.cfgNum args.shard
  · by_cases e : sh = args.shard
    · subst e
      simp [doInstallShard, Slot.install, slot, hnum]
    · simp [doInstallShard, hnum, e]
  · by_cases e : sh = args.shard
    · subst e
      simp [doInstallShard, Slot.install, slot, hnum, loadShard, restrict_load kv.kvMap hw]
    · simp [doInstallShard, slot, hnum, e, loadShard, restrict_load kv.kvMap hw]

theorem restrict_deleteShardData (shard : Tshid) :
    restrict sh (kv.deleteShardData shard).kvMap =
      if sh = shard then Slot.nothing else restrict sh kv.kvMap := by
  by_cases e : sh = shard
  · subst e
    rw [if_pos rfl]
    funext key
    by_cases hk : key2Shard key = sh
    · simp [restrict_of_eq _ hk, deleteShardData, Slot.nothing, hk]
    · simp [restrict_of_ne _ hk, Slot.nothing]
  · rw [if_neg e]
    refine restrict_congr fun key hk => ?_
    simp [deleteShardData, show key2Shard key ≠ shard from fun e' => e (hk.symm.trans e')]

theorem slot_doDeleteShard (args : DeleteShardArgs) :
    (kv.doDeleteShard args).1.slot sh =
      if sh = args.shard then (kv.slot sh).delete args.num else kv.slot sh := by
  by_cases hnum : args.num < kv.cfgNum args.shard
  · by_cases e : sh = args.shard
    · subst e
      simp [doDeleteShard, Slot.delete, slot, hnum]
    · simp [doDeleteShard, hnum, e]
  · have hd : restrict sh (kv.deleteShardData args.shard).kvMap = _ :=
      restrict_deleteShardData args.shard
    by_cases e : sh = args.shard
    · subst e
      rw [if_pos rfl] at hd
      simp [doDeleteShard, Slot.delete, slot, hnum, hd]
    · rw [if_neg e] at hd
      simp [doDeleteShard, slot, hnum, e, hd]
      exact ⟨rfl, rfl⟩

/-- `Put` on the whole table and on the key's shard. -/
theorem restrict_putEntry (m : Table Bytes Value) (args : PutArgs Bytes Value) :
    restrict sh (putEntry m args).1 =
      if sh = key2Shard args.key then (putEntry (restrict sh m) args).1 else restrict sh m := by
  by_cases e : sh = key2Shard args.key
  · rw [if_pos e]
    have hc := (putEntry_congr (restrict_of_eq m e.symm)).2
    funext key
    by_cases hk : key2Shard key = sh
    · rw [restrict_of_eq _ hk, hc key (restrict_of_eq m hk)]
    · have hne : key ≠ args.key := fun e' => hk (e' ▸ e.symm)
      rw [restrict_of_ne _ hk, putEntry_of_ne _ _ hne, restrict_of_ne _ hk]
  · rw [if_neg e]
    refine restrict_congr fun key hk => putEntry_of_ne m args ?_
    exact fun e' => e (e' ▸ hk.symm)

/-- A `Put` that the server does not refuse writes to its key's shard. -/
theorem slot_doPut {args : PutArgs Bytes Value} (hr : kv.shardState (key2Shard args.key) = .ready) :
    (kv.doPut args).1.slot sh =
      if sh = key2Shard args.key then (kv.slot sh).write (fun m => (putEntry m args).1)
      else kv.slot sh := by
  have hp : restrict sh (putEntry kv.kvMap args).1 = _ := restrict_putEntry kv.kvMap args
  by_cases e : sh = key2Shard args.key
  · rw [if_pos e] at hp ⊢
    simp [doPut, hr, slot, Slot.write, hp]
  · rw [if_neg e] at hp ⊢
    simp [doPut, hr, slot, hp]

/-- The answer of such a `Put` is that of the table. -/
theorem reply_doPut {args : PutArgs Bytes Value} (hr : kv.shardState (key2Shard args.key) = .ready) :
    (kv.doPut args).2 = (putEntry kv.kvMap args).2 := by
  simp [doPut, hr]

/-- A `Put` answered `OK` was not refused. -/
theorem ready_of_doPut_ok {args : PutArgs Bytes Value} (h : (kv.doPut args).2.err = .ok) :
    kv.shardState (key2Shard args.key) = .ready := by
  by_contra hr
  simp [doPut, hr] at h

/-- A `Put` not answered `OK` changes nothing. -/
theorem doPut_of_not_ok {args : PutArgs Bytes Value} (h : (kv.doPut args).2.err ≠ .ok) :
    (kv.doPut args).1 = kv := by
  by_cases hr : kv.shardState (key2Shard args.key) = .ready
  · rw [reply_doPut hr] at h
    simp [doPut, hr, putEntry_of_not_ok h]
  · simp [doPut, hr]

end KVServer

end Server

end RaftLab.Shardkv1

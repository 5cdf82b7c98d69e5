/-
  File:      RaftLab/Kvraft1/Server.lean
  Subject:   `src/kvraft1/server.go`, `kvstore.go` and `pebblestore`: the key/value state machine
             over a store that may be durable.

  `doGet`, `doPut` and `doOp` are written over the `KVStore` interface; `MapStore` is the store in
  memory, `Store` the pebble one, whose batch writes an entry and the applied index together. Keys
  and values are type parameters, versions are natural numbers.

  `replay ops i` is the state the committed operations 1..i lead to, computed in memory. `UpTo ops
  d s` says that store `s` holds the state at `d`, or at its own applied index if that is further;
  `doOp` of entry d+1 takes it to d+1, whether it skips the entry or not (`UpTo.doOp`).
-/
import RaftLab.Kvsrv1.Rpc
import RaftLab.Raft1.Types

namespace RaftLab.Kvraft1

open RaftLab.Kvsrv1
open RaftLab.Raft1 (Bytes)

/-! ## 1. Requests -/

/-- The requests `Submit` is called with. -/
inductive Req (Key Value : Type) where
  | get (args : GetArgs Key)
  | put (args : PutArgs Key Value)
  deriving DecidableEq

inductive Reply (Value : Type) where
  | get (reply : GetReply Value)
  | put (reply : PutReply)
  deriving DecidableEq

/-! ## 2. Stores -/

section Stores

variable {Key Value : Type} [DecidableEq Key]

/-- A finite map in the order of first insertion. -/
abbrev KvMap (Key Value : Type) := List (Key × KvEntry Value)

def KvMap.set : KvMap Key Value → Key → KvEntry Value → KvMap Key Value
  | [], key, e => [(key, e)]
  | x :: m, key, e => if x.1 = key then (key, e) :: m else x :: KvMap.set m key e

/-- The `KVStore` interface without `Snapshot` and `Restore`. -/
class KVStore (σ : Type) (Key Value : outParam Type) where
  get : σ → Key → Option (KvEntry Value)
  put : σ → ℕ → Key → Value → ℕ → σ
  appliedIndex : σ → Int

/-- `mapStore` -/
structure MapStore (Key Value : Type) where
  m : KvMap Key Value
  deriving DecidableEq

def newMapStore : MapStore Key Value := ⟨[]⟩

instance : KVStore (MapStore Key Value) Key Value where
  get s key := s.m.lookup key
  put s _ key value version := ⟨s.m.set key ⟨value, version⟩⟩
  appliedIndex _ := -1

/-- `pebblestore.Store`: the user keys and the applied index. -/
structure Store (Key Value : Type) where
  kv : KvMap Key Value
  applied : ℕ
  deriving DecidableEq

/-- A new database: `AppliedIndex` finds no key and returns 0. -/
def Store.empty : Store Key Value := ⟨[], 0⟩

instance : KVStore (Store Key Value) Key Value where
  get s key := s.kv.lookup key
  put s index key value version := ⟨s.kv.set key ⟨value, version⟩, index⟩
  appliedIndex s := s.applied

/-- `Snapshot` and `Restore`: the checkpoint of a database as a byte string, and back. -/
structure Tar (Key Value : Type) where
  pack : Store Key Value → Bytes
  unpack : Bytes → Store Key Value
  unpack_pack : ∀ s, unpack (pack s) = s

end Stores

/-! ## 3. The operations -/

section Operations

variable {σ Key Value : Type} [KVStore σ Key Value] [Inhabited Value]

def doGet (s : σ) (args : GetArgs Key) : GetReply Value :=
  match KVStore.get s args.key with
  | some e => { value := e.value, version := e.version, err := .ok }
  | none => { value := default, version := 0, err := .errNoKey }

omit [Inhabited Value] in
def doPut (s : σ) (index : ℕ) (args : PutArgs Key Value) : σ × PutReply :=
  match KVStore.get s args.key with
  | some e =>
      if args.version = e.version then
        (KVStore.put s index args.key args.value (e.version + 1), { err := .ok })
      else
        (s, { err := .errVersion })
  | none =>
      if args.version = 0 then
        (KVStore.put s index args.key args.value 1, { err := .ok })
      else
        (s, { err := .errNoKey })

/-- `DoOp`: an entry the store has durably applied is skipped; the reply `none` is nil. -/
def doOp (s : σ) (index : ℕ) (req : Req Key Value) : σ × Option (Reply Value) :=
  if (index : Int) ≤ KVStore.appliedIndex s then
    (s, none)
  else
    match req with
    | .get args => (s, some (.get (doGet s args)))
    | .put args =>
        let (s, reply) := doPut s index args
        (s, some (.put reply))

end Operations

/-! ## 4. What the committed operations lead to -/

section Replay

variable {Key Value : Type} [DecidableEq Key] [Inhabited Value] (ops : List (Req Key Value))

/-- The state after the committed entries 1..i. -/
def replay : ℕ → MapStore Key Value
  | 0 => newMapStore
  | i + 1 =>
      match ops[i]? with
      | some op => (doOp (replay i) (i + 1) op).1
      | none => replay i

/-- The store has everything up to `d`, and up to its applied index if that is further. -/
def UpTo (d : ℕ) (s : Store Key Value) : Prop :=
  ∀ i, s.applied ≤ i → i ≤ max d s.applied → s.kv = (replay ops i).m

variable {ops} {s : Store Key Value} {d : ℕ}

theorem UpTo.eq_replay (h : UpTo ops d s) : s.kv = (replay ops (max d s.applied)).m :=
  h _ (Nat.le_max_right _ _) (Nat.le_refl _)

theorem upTo_empty : UpTo ops 0 (Store.empty : Store Key Value) := by
  intro i _ hi
  have : i = 0 := by simpa [Store.empty] using hi
  subst this
  rfl

/-- A store is up to every earlier index, and up to a later one below its own. -/
theorem UpTo.mono (h : UpTo ops d s) {d' : ℕ} (hd : d' ≤ max d s.applied) : UpTo ops d' s :=
  fun i h1 h2 => h i h1 (by omega)

/-- An entry at or below the applied index is skipped. -/
theorem doOp_skip (op : Req Key Value) {index : ℕ} (hidx : index ≤ s.applied) :
    doOp s index op = (s, none) := by
  unfold doOp
  rw [if_pos]
  show (index : Int) ≤ (s.applied : Int)
  omega

/-- Above its applied index the durable store computes and answers what the one in memory does, and
    its applied index is the entry's if anything was written. -/
theorem doOp_store (op : Req Key Value) {index : ℕ} (hidx : s.applied < index) :
    (doOp s index op).1.kv = (doOp (⟨s.kv⟩ : MapStore Key Value) index op).1.m ∧
      (doOp s index op).2 = (doOp (⟨s.kv⟩ : MapStore Key Value) index op).2 ∧
      ((doOp s index op).1 = s ∨ (doOp s index op).1.applied = index) := by
  have h1 : ¬ (index : Int) ≤ KVStore.appliedIndex s := by
    show ¬ (index : Int) ≤ (s.applied : Int)
    omega
  have h2 : ¬ (index : Int) ≤ KVStore.appliedIndex (⟨s.kv⟩ : MapStore Key Value) := by
    show ¬ (index : Int) ≤ -1
    omega
  unfold doOp
  rw [if_neg h1, if_neg h2]
  cases op with
  | get args => exact ⟨rfl, rfl, Or.inl rfl⟩
  | put args =>
      simp only [doPut, KVStore.get]
      cases s.kv.lookup args.key with
      | none => by_cases hv : args.version = 0 <;> simp [hv, KVStore.put]
      | some e => by_cases hv : args.version = e.version <;> simp [hv, KVStore.put]

/-- The applied index stays, or becomes the entry's. -/
theorem doOp_applied (s : Store Key Value) (index : ℕ) (op : Req Key Value) :
    (doOp s index op).1 = s ∨ (doOp s index op).1.applied = index := by
  rcases Nat.lt_or_ge s.applied index with h | h
  · exact (doOp_store op h).2.2
  · exact .inl (congrArg Prod.fst (doOp_skip op h))

/-- **Entry d+1 is applied**, or skipped because the store has it. -/
theorem UpTo.doOp (h : UpTo ops d s) {op : Req Key Value} (hop : ops[d]? = some op) :
    UpTo ops (d + 1) (doOp s (d + 1) op).1 := by
  by_cases hidx : s.applied < d + 1
  · obtain ⟨hkv, _, hcase⟩ := doOp_store op hidx
    have hd : s.kv = (replay ops d).m := h d (by omega) (by omega)
    have hnext : (Kvraft1.doOp s (d + 1) op).1.kv = (replay ops (d + 1)).m := by
      rw [hkv, hd, replay, hop]
    rcases hcase with he | he
    · intro i h1 h2
      rw [he] at h1 h2 hnext ⊢
      by_cases hi : i = d + 1
      · rw [hi]
        exact hnext
      · exact h i h1 (by omega)
    · intro i h1 h2
      rw [he] at h1 h2
      have : i = d + 1 := by omega
      rw [this]
      exact hnext
  · rw [doOp_skip op (Nat.le_of_not_lt hidx)]
    exact h.mono (by omega)

end Replay

end RaftLab.Kvraft1

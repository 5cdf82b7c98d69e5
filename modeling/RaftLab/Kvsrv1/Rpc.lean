/-
  File:      RaftLab/Kvsrv1/Rpc.lean
  Subject:   `src/kvsrv1/rpc/rpc.go`: what the key/value services are asked and answer.

  Keys and values are type parameters. A version counts the writes of a key; `Tversion` has 64
  bits, versions here are natural numbers. `KvEntry` is the `kvEntry` of every server.
-/
import Mathlib.Data.List.Basic

namespace RaftLab.Kvsrv1

/-- `rpc.Err` -/
inductive Err where
  | ok
  | errNoKey
  | errVersion
  | errMaybe
  | errWrongLeader
  | errWrongGroup
  deriving DecidableEq, Repr

structure PutArgs (Key Value : Type) where
  key : Key
  value : Value
  version : ℕ
  deriving DecidableEq

structure PutReply where
  err : Err
  deriving DecidableEq

structure GetArgs (Key : Type) where
  key : Key
  deriving DecidableEq

structure GetReply (Value : Type) where
  value : Value
  version : ℕ
  err : Err
  deriving DecidableEq

structure KvEntry (Value : Type) where
  value : Value
  version : ℕ
  deriving DecidableEq

end RaftLab.Kvsrv1

/-
  File:      RaftLab/Kvsrv1/Lock.lean
  Subject:   `src/kvsrv1/lock/lock.go`: a lock that is a key of a `KVServer`.

  The `Lock` objects of one name run over clerks (Clerk.lean): their Gets and Puts are calls of
  `Retry.System`, which sends an RPC again until it is answered, and executes every RPC that was
  sent once or never, at any time, also when its call has long returned. Other clients may use the
  other keys. An object is used by one goroutine at a time, and released only by its holder.
-/
import RaftLab.Kvsrv1.Clerk

namespace RaftLab.Kvsrv1

open RaftLab.Lib RaftLab.Kvraft1 Relation

/-! ## 1. The objects and their runs -/

/-- The `Lock` objects that `MakeLock` has made for a name. An id is `RandValue(8)`: it is not
    empty, and taken to be unique. -/
structure Locks (Key Value : Type) [Inhabited Value] where
  lockname : Key
  id : ℕ → Value
  distinct : Function.Injective id
  nonempty : ∀ i, id i ≠ default

namespace Lock

/-- Where an object stands; the number is that of the call on its clerk. -/
inductive Pc where
  | idle
  | acquireGet (c : ℕ)
  | acquirePut (c : ℕ)
  /-- The `Get` after `ErrMaybe`. -/
  | acquireReread (c : ℕ)
  /-- `Acquire` has returned, and `Release` was not called. -/
  | held
  | releaseGet (c : ℕ)
  | releasePut (c : ℕ)
  deriving DecidableEq

structure System (Key Value : Type) where
  kv : Retry.System Unit (Table Key Value) (Req Key Value) (Reply Value) (Reply Value)
  pc : ℕ → Pc

inductive Action (Key Value : Type) where
  | acquire (i : ℕ)
  | release (i : ℕ)
  /-- Object `i` goes on; its call has returned. -/
  | resume (i : ℕ)
  /-- A step of the clerks, the network or the server. -/
  | rpc (act : Retry.Action (Req Key Value))

variable {Key Value : Type}

namespace System

def goto (s : System Key Value) (i : ℕ) (pc : Pc) : System Key Value :=
  { s with pc := Function.update s.pc i pc }

/-- What call `c` has returned. -/
def returned (s : System Key Value) (c : ℕ) : Option (Reply Value) :=
  s.kv.calls[c]?.bind fun x =>
    match x.pc with
    | .returned out => some out
    | _ => none

variable [DecidableEq Key] [Inhabited Value]

def init : System Key Value := ⟨.init (service Key Value) fun _ => (), fun _ => .idle⟩

/-- Object `i` makes a call. -/
def call (s : System Key Value) (i : ℕ) (req : Req Key Value) (pc : ℕ → Pc) :
    Option (System Key Value) :=
  (s.kv.next (service Key Value) (.call i req)).map fun kv =>
    ⟨kv, Function.update s.pc i (pc s.kv.calls.length)⟩

variable [DecidableEq Value] (L : Locks Key Value)

/-- `Acquire` and `Release`, from the return of a call to the next one. -/
def resume (s : System Key Value) (i : ℕ) : Pc → Option (System Key Value)
  | .acquireGet c =>
      match s.returned c with
      | some (.get reply) =>
          if reply.err = .errNoKey ∨ (reply.err = .ok ∧ reply.value = default) then
            s.call i (.put ⟨L.lockname, L.id i, reply.version⟩) .acquirePut
          else
            s.call i (.get ⟨L.lockname⟩) .acquireGet
      | _ => none
  | .acquirePut c =>
      match s.returned c with
      | some (.put reply) =>
          if reply.err = .ok then
            some (s.goto i .held)
          else if reply.err = .errMaybe then
            s.call i (.get ⟨L.lockname⟩) .acquireReread
          else
            s.call i (.get ⟨L.lockname⟩) .acquireGet
      | _ => none
  | .acquireReread c =>
      match s.returned c with
      | some (.get reply) =>
          if reply.err = .ok ∧ reply.value = L.id i then
            some (s.goto i .held)
          else
            s.call i (.get ⟨L.lockname⟩) .acquireGet
      | _ => none
  | .releaseGet c =>
      match s.returned c with
      | some (.get reply) =>
          if reply.err = .ok ∧ reply.value = L.id i then
            s.call i (.put ⟨L.lockname, default, reply.version⟩) .releasePut
          else
            some (s.goto i .idle)
      | _ => none
  | .releasePut c =>
      match s.returned c with
      | some _ => some (s.goto i .idle)
      | none => none
  | .idle => none
  | .held => none

/-- Who is not a `Lock` object does not write the key. -/
def ByOthers : Retry.Action (Req Key Value) → Prop
  | .call _ (.put args) => args.key ≠ L.lockname
  | _ => True

instance : DecidablePred (ByOthers L)
  | .call _ (.put args) => inferInstanceAs (Decidable (args.key ≠ L.lockname))
  | .call _ (.get _) => isTrue trivial
  | .send _ => isTrue trivial
  | .execute _ _ => isTrue trivial
  | .answer _ => isTrue trivial
  | .refuse _ => isTrue trivial
  | .fail _ => isTrue trivial

def next (s : System Key Value) : Action Key Value → Option (System Key Value)
  | .acquire i => if s.pc i = .idle then s.call i (.get ⟨L.lockname⟩) .acquireGet else none
  | .release i => if s.pc i = .held then s.call i (.get ⟨L.lockname⟩) .releaseGet else none
  | .resume i => s.resume L i (s.pc i)
  | .rpc act =>
      if ByOthers L act then
        (s.kv.next (service Key Value) act).map fun kv => { s with kv := kv }
      else
        none

def Run : System Key Value → System Key Value → Prop :=
  ReflTransGen fun s s' => ∃ act, s.next L act = some s'

end System

end Lock

end RaftLab.Kvsrv1

/-
  File:      RaftLab/Kvsrv1/Server.lean
  Subject:   `src/kvsrv1/server.go`: one key/value server whose `Put` is a compare-and-swap on the
             version; and what `Clerk.Put` of `client.go` makes of its answer.

  `getEntry` and `putEntry` are `Get` and `Put` on a table; the sharded servers make the same
  checks on theirs. `putEntry_ok` and `putEntry_of_not_ok` say what a `Put` found and left, by its
  answer.
-/
import RaftLab.Kvsrv1.Rpc
import Mathlib.Logic.Function.Basic

namespace RaftLab.Kvsrv1

variable {Key Value : Type}

/-- A `map[string]kvEntry`. -/
abbrev Table (Key Value : Type) := Key → Option (KvEntry Value)

def Table.empty : Table Key Value := fun _ => none

def getEntry [Inhabited Value] (m : Table Key Value) (args : GetArgs Key) : GetReply Value :=
  match m args.key with
  | some e => { value := e.value, version := e.version, err := .ok }
  | none => { value := default, version := 0, err := .errNoKey }

variable [DecidableEq Key]

def putEntry (m : Table Key Value) (args : PutArgs Key Value) : Table Key Value × PutReply :=
  match m args.key with
  | some e =>
      if args.version = e.version then
        (Function.update m args.key (some ⟨args.value, e.version + 1⟩), { err := .ok })
      else
        (m, { err := .errVersion })
  | none =>
      if args.version = 0 then
        (Function.update m args.key (some ⟨args.value, 1⟩), { err := .ok })
      else
        (m, { err := .errNoKey })

/-- What `Clerk.Put` returns for an answer to the first RPC, or to one that it sent again. -/
def putResult (resend : Bool) (reply : PutReply) : Err :=
  if resend ∧ reply.err = .errVersion then .errMaybe else reply.err

theorem putResult_ok {resend : Bool} {reply : PutReply} (h : putResult resend reply = .ok) :
    reply.err = .ok := by
  unfold putResult at h
  split at h
  · cases h
  · exact h

/-- `ErrVersion` is what an RPC that was sent once has got. -/
theorem putResult_errVersion {resend : Bool} {reply : PutReply}
    (h : putResult resend reply = .errVersion) : resend = false ∧ reply.err = .errVersion := by
  unfold putResult at h
  split at h
  · cases h
  next hno =>
    refine ⟨?_, h⟩
    cases resend with
    | false => rfl
    | true => exact absurd ⟨rfl, h⟩ hno

theorem putResult_errWrongGroup {resend : Bool} {reply : PutReply}
    (h : putResult resend reply = .errWrongGroup) : reply.err = .errWrongGroup := by
  unfold putResult at h
  split at h
  · cases h
  · exact h

/-- The version of a key, 0 if there is none. -/
def Table.version (m : Table Key Value) (key : Key) : ℕ := (m key).elim 0 KvEntry.version

/-- A `Put` is answered `OK` or changes nothing. -/
theorem putEntry_of_not_ok {m : Table Key Value} {args : PutArgs Key Value}
    (h : (putEntry m args).2.err ≠ .ok) : (putEntry m args).1 = m := by
  cases hm : m args.key with
  | some e =>
      by_cases hv : args.version = e.version
      · simp [putEntry, hm, hv] at h
      · simp [putEntry, hm, hv]
  | none =>
      by_cases hv : args.version = 0
      · simp [putEntry, hm, hv] at h
      · simp [putEntry, hm, hv]

/-- A `Put` answered `OK` found the version it named and has left the next one. -/
theorem putEntry_ok {m : Table Key Value} {args : PutArgs Key Value}
    (h : (putEntry m args).2.err = .ok) :
    m.version args.key = args.version ∧
      (putEntry m args).1 = Function.update m args.key (some ⟨args.value, args.version + 1⟩) := by
  unfold putEntry at h ⊢
  unfold Table.version
  cases hm : m args.key with
  | some e =>
      simp only [hm] at h ⊢
      by_cases hv : args.version = e.version
      · simp [hv]
      · simp [hv] at h
  | none =>
      simp only [hm] at h ⊢
      by_cases hv : args.version = 0
      · simp [hv]
      · simp [hv] at h

theorem putEntry_of_ne (m : Table Key Value) (args : PutArgs Key Value) {key : Key}
    (h : key ≠ args.key) : (putEntry m args).1 key = m key := by
  by_cases hok : (putEntry m args).2.err = .ok
  · rw [(putEntry_ok hok).2, Function.update_of_ne h]
  · rw [putEntry_of_not_ok hok]

theorem version_putEntry_ok {m : Table Key Value} {args : PutArgs Key Value}
    (h : (putEntry m args).2.err = .ok) :
    (putEntry m args).1.version args.key = args.version + 1 := by
  rw [(putEntry_ok h).2, Table.version, Function.update_self]
  rfl

/-- Versions never fall. -/
theorem version_le_putEntry (m : Table Key Value) (args : PutArgs Key Value) (key : Key) :
    m.version key ≤ (putEntry m args).1.version key := by
  by_cases hok : (putEntry m args).2.err = .ok
  · by_cases hk : key = args.key
    · rw [hk, version_putEntry_ok hok, (putEntry_ok hok).1]
      exact Nat.le_succ _
    · exact Nat.le_of_eq (by unfold Table.version; rw [putEntry_of_ne m args hk])
  · exact Nat.le_of_eq (by rw [putEntry_of_not_ok hok])

/-- `putEntry` looks at its key only. -/
theorem putEntry_congr {m m' : Table Key Value} {args : PutArgs Key Value}
    (h : m args.key = m' args.key) : (putEntry m args).2 = (putEntry m' args).2 ∧
      ∀ key, m key = m' key → (putEntry m args).1 key = (putEntry m' args).1 key := by
  have hupd : ∀ (e : KvEntry Value) (key : Key), m key = m' key →
      Function.update m args.key (some e) key = Function.update m' args.key (some e) key := by
    intro e key hk
    by_cases hkey : key = args.key
    · rw [hkey, Function.update_self, Function.update_self]
    · rw [Function.update_of_ne hkey, Function.update_of_ne hkey, hk]
  unfold putEntry
  rw [← h]
  split
  · split
    · exact ⟨rfl, hupd _⟩
    · exact ⟨rfl, fun _ hk => hk⟩
  · split
    · exact ⟨rfl, hupd _⟩
    · exact ⟨rfl, fun _ hk => hk⟩

end RaftLab.Kvsrv1

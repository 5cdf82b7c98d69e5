/-
  File:      RaftLab/Kvraft1/Clerk.lean
  Subject:   `src/kvraft1/client.go`: `Clerk.Get` and `Clerk.Put` of the replicated service, and the
             histories of both kinds of clerks.

  A clerk remembers the server that answered last; with no answer, or with `ErrWrongLeader`, it goes
  on to the next one. `ErrWrongLeader` says nothing about the operation: a server that was leader may
  have started it. The replicated servers are taken as one linearizable object; `doOp_kvStep` says
  that the object is what `DoOp` computes in memory.

  **`clerk_histories_linearizable`** is about both clerks: what any number of clients see is
  linearizable by `MapSpec`, with any loss and any refusal of RPCs.
-/
import RaftLab.Kvsrv1.Clerk

namespace RaftLab.Kvraft1

open RaftLab.Lib RaftLab.Kvsrv1

variable {Key Value : Type}

/-! ## 1. The clerk -/

/-- `servers` is the number of servers, `leader` the one that answered last. -/
structure Clerk where
  servers : ℕ
  leader : ℕ
  deriving DecidableEq

namespace Clerk

def nextServer (ck : Clerk) : Clerk := { ck with leader := (ck.leader + 1) % ck.servers }

/-- A round of the loop of `Get`; the answer is `none` where `ok` is false. -/
def get (ck : Clerk) (reply : Option (GetReply Value)) : Clerk × Option (GetReply Value) :=
  match reply with
  | some reply =>
      if reply.err ≠ .errWrongLeader then (ck, some reply) else (ck.nextServer, none)
  | none => (ck.nextServer, none)

/-- The first RPC of `Put`, or a round of its loop. -/
def put (ck : Clerk) (resend : Bool) (reply : Option PutReply) : Clerk × Option Err :=
  match resend, reply with
  | false, some reply =>
      if reply.err ≠ .errWrongLeader then (ck, some reply.err) else (ck.nextServer, none)
  | true, some reply =>
      if reply.err = .errVersion then (ck, some .errMaybe)
      else if reply.err ≠ .errWrongLeader then (ck, some reply.err)
      else (ck.nextServer, none)
  | _, none => (ck.nextServer, none)

def handle (ck : Clerk) (req : Req Key Value) (resend : Bool) :
    Option (Reply Value) → Clerk × Option (Reply Value)
  | some (.get reply) => ((ck.get (some reply)).1, (ck.get (some reply)).2.map .get)
  | some (.put reply) =>
      ((ck.put resend (some reply)).1, (ck.put resend (some reply)).2.map fun err => .put ⟨err⟩)
  | none =>
      match req with
      | .get _ => ((ck.get (none : Option (GetReply Value))).1, (ck.get none).2.map .get)
      | .put _ => ((ck.put resend none).1, (ck.put resend none).2.map fun err => .put ⟨err⟩)

end Clerk

/-- The reply that `Get` or `Put` of a server fills in when `Submit` says `ErrWrongLeader`. -/
def wrongLeader [Inhabited Value] : Req Key Value → Reply Value
  | .get _ => .get ⟨default, 0, .errWrongLeader⟩
  | .put _ => .put ⟨.errWrongLeader⟩

variable [DecidableEq Key] [Inhabited Value]

/-- The clerks of this package with a linearizable `KVServer`. -/
def service (Key Value : Type) [DecidableEq Key] [Inhabited Value] :
    Service Clerk (Table Key Value) (Req Key Value) (Reply Value) (Reply Value) where
  toObject := kvObject Key Value
  handle := Clerk.handle
  refusal req := some (wrongLeader req)
  handle_none ck req resend := by cases req <;> cases resend <;> rfl
  handle_refusal ck req resend r h := by
    cases h
    cases req <;> cases resend <;> rfl

omit [DecidableEq Key] [Inhabited Value] in
/-- What a clerk returns is the server's answer, with `ErrVersion` on a resend as `ErrMaybe`. -/
theorem Clerk.handle_eq {ck : Clerk} {req : Req Key Value} {resend : Bool} {res out : Reply Value}
    (h : (ck.handle req resend (some res)).2 = some out) : out = clerkReply resend res := by
  cases res with
  | get reply =>
      obtain ⟨r, hr, rfl⟩ := Option.map_eq_some_iff.mp h
      simp only [Clerk.get] at hr
      split at hr
      · cases hr
        rfl
      · cases hr
  | put reply =>
      obtain ⟨err, herr, rfl⟩ := Option.map_eq_some_iff.mp h
      cases resend with
      | false =>
          simp only [Clerk.put] at herr
          split at herr
          · cases herr
            rfl
          · cases herr
      | true =>
          simp only [Clerk.put] at herr
          split at herr
          next hv =>
            cases herr
            simp [clerkReply, putResult, hv]
          next hv =>
            split at herr
            · cases herr
              simp [clerkReply, putResult, hv]
            · cases herr

/-! ## 2. The servers -/

omit [Inhabited Value] in
theorem KvMap.lookup_cons (m : KvMap Key Value) (key key' : Key) (e : KvEntry Value) :
    List.lookup key' ((key, e) :: m) = if key' = key then some e else m.lookup key' := by
  rw [List.lookup_cons]
  by_cases hk : key' = key
  · simp [hk]
  · simp [hk, beq_eq_false_iff_ne.mpr hk]

omit [Inhabited Value] in
theorem KvMap.lookup_set (m : KvMap Key Value) (key key' : Key) (e : KvEntry Value) :
    (m.set key e).lookup key' = if key' = key then some e else m.lookup key' := by
  induction m with
  | nil => exact KvMap.lookup_cons [] key key' e
  | cons x m ih =>
      obtain ⟨k, e'⟩ := x
      by_cases hk : k = key
      · rw [KvMap.set, if_pos hk, KvMap.lookup_cons, KvMap.lookup_cons, hk]
        by_cases hk' : key' = key
        · rw [if_pos hk', if_pos hk']
        · rw [if_neg hk', if_neg hk', if_neg hk']
      · rw [KvMap.set, if_neg hk, KvMap.lookup_cons, KvMap.lookup_cons, ih]
        by_cases hk' : key' = k
        · have hne : key' ≠ key := fun h => hk (hk'.symm.trans h)
          rw [if_pos hk', if_neg hne, if_pos hk']
        · rw [if_neg hk', if_neg hk']

/-- The table that a `mapStore` holds. -/
def MapStore.table (s : MapStore Key Value) : Table Key Value := fun key => KVStore.get s key

omit [Inhabited Value] in
theorem MapStore.table_put (s : MapStore Key Value) (index : ℕ) (key : Key) (value : Value)
    (version : ℕ) : MapStore.table (KVStore.put s index key value version) =
      Function.update s.table key (some ⟨value, version⟩) := by
  funext key'
  simp only [MapStore.table, KVStore.get, KVStore.put, KvMap.lookup_set]
  by_cases hk : key' = key
  · simp [hk]
  · simp [hk, MapStore.table, KVStore.get]

/-- **`DoOp` in memory is a step of the object.** -/
theorem doOp_kvStep (s : MapStore Key Value) (index : ℕ) (req : Req Key Value) :
    (doOp s index req).1.table = (kvStep s.table req).1 ∧
      (doOp s index req).2 = some (kvStep s.table req).2 := by
  have hidx : ¬ (index : Int) ≤ KVStore.appliedIndex s := by
    show ¬ (index : Int) ≤ -1
    omega
  unfold doOp
  rw [if_neg hidx]
  cases req with
  | get args => exact ⟨rfl, rfl⟩
  | put args =>
      have hget : KVStore.get s args.key = s.table args.key := rfl
      simp only [doPut, kvStep, putEntry, hget]
      cases s.table args.key with
      | some e =>
          by_cases hv : args.version = e.version
          · simp [hv, MapStore.table_put]
          · simp [hv]
      | none =>
          by_cases hv : args.version = 0
          · simp [hv, MapStore.table_put]
          · simp [hv]

/-! ## 3. Histories -/

/-- **Both kinds of clerks** have linearizable histories. -/
theorem clerk_histories_linearizable :
    (∀ (callers : ℕ → Unit) s, Retry.System.Run (Kvsrv1.service Key Value) Retry.InOrder
      (Retry.System.init (Kvsrv1.service Key Value) callers) s → Linearizable s) ∧
    ∀ (callers : ℕ → Clerk) s, Retry.System.Run (Kvraft1.service Key Value) Retry.InOrder
      (Retry.System.init (Kvraft1.service Key Value) callers) s → Linearizable s := by
  refine ⟨fun callers s h => ?_, fun callers s h => ?_⟩
  · refine linearizable_of_inv rfl (fun _ req resend res out hout => ?_) (Retry.inv_run h)
    cases res <;> cases hout <;> rfl
  · exact linearizable_of_inv rfl (fun _ _ _ _ _ hout => Clerk.handle_eq hout) (Retry.inv_run h)

/-- A `Put` whose answer is lost and that is sent again, between a `Put` of another client and a
    `Get` of a third. -/
def lostPut : List (Retry.Action (Req ℕ ℕ)) :=
  [.call 0 (.put ⟨5, 70, 0⟩), .send 0, .execute 0 0, .call 1 (.put ⟨5, 71, 1⟩), .send 1, .fail 0,
    .execute 1 0, .send 0, .execute 0 1, .answer 0, .answer 1, .call 2 (.get ⟨5⟩), .send 2,
    .execute 2 0, .answer 2]

/-- The same with a server that is no longer leader. -/
def refusedPut : List (Retry.Action (Req ℕ ℕ)) :=
  [.call 0 (.put ⟨5, 70, 0⟩), .send 0, .refuse 0, .send 0, .execute 0 0, .execute 0 1, .answer 0,
    .call 1 (.get ⟨5⟩), .send 1, .execute 1 0, .answer 1]

/-- Both clerks report `ErrMaybe`, and the `Put` has taken effect once. -/
theorem clerk_histories_linearizable_sample :
    (∃ s : Retry.System Unit (Table ℕ ℕ) (Req ℕ ℕ) (Reply ℕ) (Reply ℕ),
      visible s.hist = [.call 0 (.put ⟨5, 70, 0⟩), .call 1 (.put ⟨5, 71, 1⟩),
        .ret 0 (.put ⟨.errMaybe⟩), .ret 1 (.put ⟨.ok⟩), .call 2 (.get ⟨5⟩),
        .ret 2 (.get ⟨71, 2, .ok⟩)] ∧ Linearizable s) ∧
    ∃ s : Retry.System Clerk (Table ℕ ℕ) (Req ℕ ℕ) (Reply ℕ) (Reply ℕ),
      visible s.hist = [.call 0 (.put ⟨5, 70, 0⟩), .ret 0 (.put ⟨.errMaybe⟩), .call 1 (.get ⟨5⟩),
        .ret 1 (.get ⟨70, 1, .ok⟩)] ∧ Linearizable s := by
  have hplay1 : ((play (guarded Retry.InOrder (Retry.System.next (Kvsrv1.service ℕ ℕ)))
      (Retry.System.init (Kvsrv1.service ℕ ℕ) fun _ => ()) lostPut).map fun s => visible s.hist) =
      some [.call 0 (.put ⟨5, 70, 0⟩), .call 1 (.put ⟨5, 71, 1⟩), .ret 0 (.put ⟨.errMaybe⟩),
        .ret 1 (.put ⟨.ok⟩), .call 2 (.get ⟨5⟩), .ret 2 (.get ⟨71, 2, .ok⟩)] := by
    decide +kernel
  have hplay2 : ((play (guarded Retry.InOrder (Retry.System.next (Kvraft1.service ℕ ℕ)))
      (Retry.System.init (Kvraft1.service ℕ ℕ) fun _ => ⟨3, 0⟩) refusedPut).map
        fun s => visible s.hist) =
      some [.call 0 (.put ⟨5, 70, 0⟩), .ret 0 (.put ⟨.errMaybe⟩), .call 1 (.get ⟨5⟩),
        .ret 1 (.get ⟨70, 1, .ok⟩)] := by
    decide +kernel
  obtain ⟨s1, h1, hv1⟩ := Option.map_eq_some_iff.mp hplay1
  obtain ⟨s2, h2, hv2⟩ := Option.map_eq_some_iff.mp hplay2
  exact ⟨⟨s1, hv1, clerk_histories_linearizable.1 _ s1 (play_guarded_run h1)⟩,
    s2, hv2, clerk_histories_linearizable.2 _ s2 (play_guarded_run h2)⟩

end RaftLab.Kvraft1

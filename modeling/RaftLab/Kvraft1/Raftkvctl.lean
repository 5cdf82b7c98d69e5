/-
  File:      RaftLab/Kvraft1/Raftkvctl.lean
  Subject:   `src/cmd/raftkvctl/main.go`: `doPut`, and what its answer says; with `KVService.Put`
             and `errToPB` of `src/transport/grpc/kv_service.go`.

  `doPut` sends one and the same `Put` to the servers in turn, round after round, until an answer
  other than `ERR_WRONG_LEADER` comes or its time is over. One call of it runs beside the servers of
  Rsm.lean, each a `KVServer` over pebble, and beside any other clients, whose Submits are steps of
  the servers. An RPC may reach its server at any time after it was sent, also when `doPut` waits
  for it no longer, or never; `doPut` may give up on it at any time. How long things take is open.

  * `printed_executed` -- what is printed is the answer to the last RPC, whose entry is in the log;
  * **`put_ok_definite`**: `OK` means that this RPC took effect, and no other;
  * **`put_failure_definite`**: `ERR_VERSION` and `ERR_NO_KEY` mean that none did, if no other RPC
    of the call is executed before the last one where that found a higher version than the given
    one, or after it where it found a lower one;
  * **`put_failure_ambiguous`**: otherwise both can be printed although an RPC takes effect.
-/
import RaftLab.Kvraft1.Clerk
import RaftLab.Kvraft1.Raftkvd
import RaftLab.Kvraft1.RsmSafety

namespace RaftLab.Kvraft1

open RaftLab.Lib RaftLab.Kvsrv1 Relation

variable {Srv Key Value : Type}

/-! ## 1. The answer of a server -/

/-- `proto.Err` -/
inductive Proto.Err where
  | errUnspecified
  | ok
  | errNoKey
  | errVersion
  | errMaybe
  | errWrongLeader
  | errWrongGroup
  deriving DecidableEq

def errToPB : Err → Proto.Err
  | .ok => .ok
  | .errNoKey => .errNoKey
  | .errVersion => .errVersion
  | .errWrongLeader => .errWrongLeader
  | .errMaybe => .errMaybe
  | .errWrongGroup => .errUnspecified

/-- `KVService.Put`, once `Submit` has returned; `none` is the panic of the handler. -/
def KVService.put (err : Err) (res : Option (Result Value)) : Option Proto.Err :=
  (KVServer.put err res).map fun reply => errToPB reply.err

/-! ## 2. Versions of the store -/

section Stores

variable [DecidableEq Key]

/-- The version of a key, 0 if there is none. -/
def Store.version (s : Store Key Value) (key : Key) : ℕ :=
  (KVStore.get s key).elim 0 KvEntry.version

theorem Store.version_put (s : Store Key Value) (index : ℕ) (key key' : Key) (value : Value)
    (version : ℕ) : Store.version (KVStore.put s index key value version) key' =
      if key' = key then version else s.version key' := by
  unfold Store.version
  rw [show KVStore.get (KVStore.put s index key value version) key' =
    (s.kv.set key ⟨value, version⟩).lookup key' from rfl, KvMap.lookup_set]
  split
  · rfl
  · rfl

/-- **`doPut` takes effect exactly where it finds the version it names.** -/
theorem doPut_cases (s : Store Key Value) (index : ℕ) (args : PutArgs Key Value) :
    (s.version args.key = args.version ∧ doPut s index args =
      (KVStore.put s index args.key args.value (args.version + 1), { err := .ok })) ∨
    (s.version args.key ≠ args.version ∧ (doPut s index args).1 = s ∧
      (doPut s index args).2.err ≠ .ok) := by
  unfold doPut Store.version
  cases KVStore.get s args.key with
  | none =>
      by_cases hv : args.version = 0
      · exact Or.inl (by simp [hv])
      · exact Or.inr (by simp [hv, Ne.symm hv])
  | some e =>
      by_cases hv : args.version = e.version
      · exact Or.inl (by simp [hv])
      · exact Or.inr (by simp [hv, Ne.symm hv])

variable [Inhabited Value]

/-- Versions do not fall. -/
theorem version_le_doOp (s : Store Key Value) (index : ℕ) (req : Req Key Value) (key : Key) :
    s.version key ≤ (doOp s index req).1.version key := by
  unfold doOp
  split
  · exact Nat.le_refl _
  · cases req with
    | get args => exact Nat.le_refl _
    | put args =>
        show s.version key ≤ (doPut s index args).1.version key
        rcases doPut_cases s index args with ⟨hfound, he⟩ | ⟨_, he, _⟩
        · rw [he, Store.version_put]
          split
          next hk =>
            rw [hk, hfound]
            exact Nat.le_succ _
          next => exact Nat.le_refl _
        · rw [he]

variable {ops : List (Req Key Value)} {k k' : ℕ} {args : PutArgs Key Value}

theorem version_le_after (h : k ≤ k') (key : Key) :
    (Raftkvd.machine.after ops k).version key ≤ (Raftkvd.machine.after ops k').version key := by
  induction h with
  | refl => exact Nat.le_refl _
  | @step n _ ih =>
      refine Nat.le_trans ih ?_
      cases hop : ops[n]? with
      | none => simp only [Machine.after, hop, Nat.le_refl]
      | some op =>
          rw [Machine.after_succ hop]
          exact version_le_doOp _ _ op key

/-- **A `Put` in the log.** -/
theorem put_at (hop : ops[k]? = some (.put args)) :
    ((Raftkvd.machine.after ops k).version args.key = args.version ∧
      Raftkvd.machine.resultAt ops k = some (some (.put ⟨.ok⟩)) ∧
      Raftkvd.machine.after ops (k + 1) ≠ Raftkvd.machine.after ops k ∧
      (Raftkvd.machine.after ops (k + 1)).version args.key = args.version + 1) ∨
    ((Raftkvd.machine.after ops k).version args.key ≠ args.version ∧
      Raftkvd.machine.after ops (k + 1) = Raftkvd.machine.after ops k ∧
      ∃ reply : PutReply, reply.err ≠ .ok ∧
        Raftkvd.machine.resultAt ops k = some (some (.put reply))) := by
  rw [Machine.after_succ hop, Machine.resultAt_eq hop]
  have hidx := Raftkvd.after_applied_le ops k
  generalize Raftkvd.machine.after ops k = s at hidx
  have hdo : (Raftkvd.machine.step (k + 1) s (.put args) : Store Key Value × Result Value) =
      ((doPut s (k + 1) args).1, some (.put (doPut s (k + 1) args).2)) := by
    have hnot : ¬ ((k + 1 : ℕ) : Int) ≤ KVStore.appliedIndex s := by
      show ¬ ((k + 1 : ℕ) : Int) ≤ (s.applied : Int)
      omega
    show doOp s (k + 1) (.put args) = _
    unfold doOp
    rw [if_neg hnot]
  rw [hdo]
  rcases doPut_cases s (k + 1) args with ⟨hfound, he⟩ | ⟨hfound, he, herr⟩
  · rw [he]
    refine Or.inl ⟨hfound, rfl, fun h => ?_, ?_⟩
    · have : k + 1 = s.applied := congrArg Store.applied h
      omega
    · rw [Store.version_put, if_pos rfl]
  · exact Or.inr ⟨hfound, he, _, herr, rfl⟩

end Stores

namespace Raftkvctl

/-! ## 3. A call of `doPut` -/

/-- A `Put` RPC; `submit` is the Submit it has become at its server, if it has arrived. -/
structure Rpc (Srv : Type) where
  srv : Srv
  submit : Option ℕ
  deriving DecidableEq

inductive Pc where
  /-- The loop looks at the deadline. -/
  | check
  /-- Client `k` of the round is next. -/
  | next (k : ℕ)
  | waiting (k : ℕ)
  | printed (err : Proto.Err)
  | failed
  deriving DecidableEq

structure System (Srv Key Value : Type) where
  servers : Rsm.System (Store Key Value) Srv (Req Key Value) (Result Value)
  /-- The RPCs that were sent, in order. -/
  rpcs : List (Rpc Srv)
  pc : Pc

inductive Action (Srv Key Value : Type) where
  /-- The servers go on, and other clients call them. -/
  | others (act : Rsm.Action Srv (Req Key Value))
  | check (before : Bool)
  | send
  | sleep
  /-- RPC `j` reaches its server. -/
  | arrive (j : ℕ)
  /-- The last RPC comes back with what its Submit has returned. -/
  | reply (err : Err) (res : Option (Result Value))
  /-- The last RPC comes back with an error, or its second is over. -/
  | fail

namespace System

variable [DecidableEq Key] [Inhabited Value]

def init : System Srv Key Value := ⟨.init Raftkvd.machine, [], .check⟩

variable [DecidableEq Srv] [DecidableEq Value] (clients : List Srv) (args : PutArgs Key Value)

/-- `doPut(clients, key, value, version)` -/
def next (s : System Srv Key Value) : Action Srv Key Value → Option (System Srv Key Value)
  | .others act => do
      let servers ← s.servers.next Raftkvd.machine act
      some { s with servers := servers }
  | .check before =>
      match s.pc with
      | .check => some { s with pc := if before then .next 0 else .failed }
      | _ => none
  | .send =>
      match s.pc with
      | .next k => do
          let srv ← clients[k]?
          some { s with rpcs := s.rpcs ++ [⟨srv, none⟩], pc := .waiting k }
      | _ => none
  | .sleep =>
      match s.pc with
      | .next k => if clients.length ≤ k then some { s with pc := .check } else none
      | _ => none
  | .arrive j =>
      match s.rpcs[j]? with
      | some ⟨srv, none⟩ => do
          let servers ← s.servers.next Raftkvd.machine (.submit srv (.put args))
          some { s with
            servers := servers
            rpcs := s.rpcs.set j ⟨srv, some s.servers.submits.length⟩ }
      | _ => none
  | .reply err res =>
      match s.pc, s.rpcs.getLast? with
      | .waiting k, some ⟨_, some c⟩ =>
          if .returned c err res ∈ s.servers.hist then do
            let rep ← KVService.put err res
            if rep = .errWrongLeader then some { s with pc := .next (k + 1) }
            else some { s with pc := .printed rep }
          else none
      | _, _ => none
  | .fail =>
      match s.pc with
      | .waiting k => some { s with pc := .next (k + 1) }
      | _ => none

/-- The states of runs with one call of `doPut`. -/
def Reachable (s : System Srv Key Value) : Prop :=
  ReflTransGen (fun s s' => ∃ act, s.next clients args act = some s') .init s

end System

/-! ## 4. What the RPCs have done -/

namespace System

/-- The committed requests. -/
def ops (s : System Srv Key Value) : List (Req Key Value) := s.servers.log.map Rsm.Op.opcommad

/-- The indexes in the log at which RPC `j` is executed. -/
def executions (s : System Srv Key Value) (j : ℕ) : List ℕ :=
  match s.rpcs[j]? with
  | some ⟨_, some c⟩ => s.servers.hist.filterMap fun e =>
      match e with
      | .committed c' index _ => if c' = c then some index else none
      | _ => none
  | _ => []

variable [DecidableEq Key] [Inhabited Value]

/-- The store after `k` entries. -/
def store (s : System Srv Key Value) (k : ℕ) : Store Key Value := Raftkvd.machine.after s.ops k

/-- RPC `j` has changed the store. -/
def TookEffect (s : System Srv Key Value) (j : ℕ) : Prop :=
  ∃ index ∈ s.executions j, s.store index ≠ s.store (index - 1)

/-- No RPC is executed before the last one if that found a higher version than the given one, nor
    after it if it found a lower one. -/
def Unambiguous (args : PutArgs Key Value) (s : System Srv Key Value) : Prop :=
  ∀ index ∈ s.executions (s.rpcs.length - 1), ∀ j ∈ List.range s.rpcs.length,
    ∀ index' ∈ s.executions j,
      (args.version < (s.store (index - 1)).version args.key → index ≤ index') ∧
      ((s.store (index - 1)).version args.key < args.version → index' ≤ index)

instance [DecidableEq Value] (s : System Srv Key Value) (j : ℕ) : Decidable (s.TookEffect j) :=
  inferInstanceAs (Decidable (∃ index ∈ s.executions j, s.store index ≠ s.store (index - 1)))

instance (args : PutArgs Key Value) (s : System Srv Key Value) : Decidable (s.Unambiguous args) :=
  inferInstanceAs (Decidable (∀ index ∈ s.executions (s.rpcs.length - 1),
    ∀ j ∈ List.range s.rpcs.length, ∀ index' ∈ s.executions j,
      (args.version < (s.store (index - 1)).version args.key → index ≤ index') ∧
      ((s.store (index - 1)).version args.key < args.version → index' ≤ index)))

omit [DecidableEq Key] [Inhabited Value] in
theorem mem_executions {s : System Srv Key Value} {j index : ℕ} :
    index ∈ s.executions j ↔ ∃ srv c op, s.rpcs[j]? = some ⟨srv, some c⟩ ∧
      .committed c index op ∈ s.servers.hist := by
  unfold executions
  constructor
  · intro h
    split at h
    next srv c hj =>
      obtain ⟨e, he, hindex⟩ := List.mem_filterMap.mp h
      cases e with
      | committed c' i op =>
          dsimp only at hindex
          split at hindex
          next hc =>
            cases hindex
            exact ⟨srv, c, op, hj, hc ▸ he⟩
          next => cases hindex
      | called | started | applied | returned => cases hindex
    next => exact absurd h List.not_mem_nil
  · intro h
    obtain ⟨srv, c, op, hj, he⟩ := h
    rw [hj]
    exact List.mem_filterMap.mpr ⟨_, he, if_pos rfl⟩

end System

/-! ## 5. The invariant -/

section Invariant

variable [DecidableEq Key] [Inhabited Value]

structure Inv [DecidableEq Srv] (args : PutArgs Key Value) (s : System Srv Key Value) : Prop where
  servers : s.servers.Reachable Raftkvd.machine
  codes : ∀ e ∈ s.servers.hist, e.CodeOk
  called : ∀ (j : ℕ) srv c, s.rpcs[j]? = some ⟨srv, some c⟩ →
    .called c srv (.put args) ∈ s.servers.hist
  /-- RPCs are different Submits. -/
  apart : ∀ (j j' : ℕ) srv srv' c, s.rpcs[j]? = some ⟨srv, some c⟩ →
    s.rpcs[j']? = some ⟨srv', some c⟩ → j = j'
  /-- What was printed is the answer to the last RPC. -/
  printed : ∀ rep, s.pc = .printed rep → rep ≠ .errWrongLeader ∧
    ∃ srv c err res, s.rpcs.getLast? = some ⟨srv, some c⟩ ∧
      .returned c err res ∈ s.servers.hist ∧ KVService.put err res = some rep

variable [DecidableEq Srv] {clients : List Srv} {args : PutArgs Key Value}
  {s s' : System Srv Key Value}

/-- The servers go on. -/
theorem Inv.others (h : Inv args s) {act : Rsm.Action Srv (Req Key Value)}
    {servers : Rsm.System (Store Key Value) Srv (Req Key Value) (Result Value)}
    (hn : s.servers.next Raftkvd.machine act = some servers) :
    Inv args { s with servers := servers } := by
  have hsub : s.servers.hist ⊆ servers.hist := by
    rcases Rsm.next_hist hn with he | ⟨e, he, _⟩
    · rw [he]
      exact List.Subset.refl _
    · rw [he]
      exact List.subset_append_left _ _
  refine ⟨h.servers.tail ⟨act, hn⟩, fun e he => ?_, fun j srv c hj => hsub (h.called j srv c hj),
    h.apart, fun rep hrep => ?_⟩
  · rcases Rsm.next_hist hn with heq | ⟨e', heq, hcode⟩
    · have he' : e ∈ servers.hist := he
      rw [heq] at he'
      exact h.codes e he'
    · have he' : e ∈ servers.hist := he
      rw [heq] at he'
      rcases List.mem_append.mp he' with he' | he'
      · exact h.codes e he'
      · cases List.mem_singleton.mp he'
        exact hcode
  · obtain ⟨hne, srv, c, err, res, hlast, hret, hput⟩ := h.printed rep hrep
    exact ⟨hne, srv, c, err, res, hlast, hsub hret, hput⟩

/-- `doPut` goes on without a word. -/
theorem Inv.goto (h : Inv args s) {pc : Pc} (hpc : ∀ rep, pc ≠ .printed rep) :
    Inv args { s with pc := pc } :=
  ⟨h.servers, h.codes, h.called, h.apart, fun rep hrep => absurd hrep (hpc rep)⟩

/-- One more RPC. -/
theorem Inv.send (h : Inv args s) (srv : Srv) (k : ℕ) :
    Inv args { s with rpcs := s.rpcs ++ [⟨srv, none⟩], pc := .waiting k } := by
  have hold : ∀ {j : ℕ} {srv' c}, (s.rpcs ++ [⟨srv, none⟩])[j]? = some ⟨srv', some c⟩ →
      s.rpcs[j]? = some ⟨srv', some c⟩ := by
    intro j srv' c hj
    by_cases hlt : j < s.rpcs.length
    · rwa [List.getElem?_append_left hlt] at hj
    · rw [List.getElem?_append_right (Nat.le_of_not_lt hlt)] at hj
      cases List.mem_singleton.mp (List.mem_of_getElem? hj)
  exact ⟨h.servers, h.codes, fun j srv' c hj => h.called j srv' c (hold hj),
    fun j j' _ _ c hj hj' => h.apart j j' _ _ c (hold hj) (hold hj'), fun rep hrep => by cases hrep⟩

/-- The RPC becomes a new Submit. -/
theorem Inv.arrive (h : Inv args s) {j : ℕ} {srv : Srv} (hj : s.rpcs[j]? = some ⟨srv, none⟩)
    {servers : Rsm.System (Store Key Value) Srv (Req Key Value) (Result Value)}
    (hn : s.servers.next Raftkvd.machine (.submit srv (.put args)) = some servers) :
    Inv args { s with
      servers := servers, rpcs := s.rpcs.set j ⟨srv, some s.servers.submits.length⟩ } := by
  have h' := h.others hn
  have hnew : .called s.servers.submits.length srv (.put args) ∈ servers.hist := by
    cases hn
    exact List.mem_append_right _ List.mem_cons_self
  have hlt := (Rsm.inv_reachable h.servers).submits.called
  -- an RPC that has a Submit is this one with the new Submit, or another one with an older Submit
  have hcases : ∀ {i : ℕ} {srv' c}, (s.rpcs.set j ⟨srv, some s.servers.submits.length⟩)[i]? =
      some ⟨srv', some c⟩ → i = j ∧ srv' = srv ∧ c = s.servers.submits.length ∨
        s.rpcs[i]? = some ⟨srv', some c⟩ ∧ c < s.servers.submits.length := by
    intro i srv' c hi
    by_cases hij : j = i
    · subst hij
      rw [List.getElem?_set_self (List.getElem?_eq_some_iff.mp hj).1] at hi
      cases hi
      exact Or.inl ⟨rfl, rfl, rfl⟩
    · rw [List.getElem?_set_ne hij] at hi
      exact Or.inr ⟨hi, hlt c srv' _ (h.called i srv' c hi)⟩
  refine ⟨h'.servers, h'.codes, fun i srv' c hi => ?_, fun i i' srv1 srv2 c hi hi' => ?_,
    fun rep hrep => ?_⟩
  · rcases hcases hi with ⟨_, rfl, rfl⟩ | ⟨hi, _⟩
    · exact hnew
    · exact h'.called i srv' c hi
  · rcases hcases hi with ⟨e1, _, ec⟩ | ⟨hi, hc⟩
    · rcases hcases hi' with ⟨e2, _, _⟩ | ⟨_, hc'⟩
      · rw [e1, e2]
      · omega
    · rcases hcases hi' with ⟨_, _, ec'⟩ | ⟨hi', _⟩
      · omega
      · exact h.apart i i' _ _ c hi hi'
  · obtain ⟨hne, srv', c, err, res, hlast, hret⟩ := h'.printed rep hrep
    refine ⟨hne, srv', c, err, res, ?_, hret⟩
    have hlast' : s.rpcs[s.rpcs.length - 1]? = some ⟨srv', some c⟩ := by
      rw [← List.getLast?_eq_getElem?]
      exact hlast
    have hij : j ≠ s.rpcs.length - 1 := by
      intro e
      rw [← e, hj] at hlast'
      cases hlast'
    show (s.rpcs.set j _).getLast? = _
    rw [List.getLast?_eq_getElem?, List.length_set, List.getElem?_set_ne hij]
    exact hlast'

variable [DecidableEq Value]

theorem inv_next {act : Action Srv Key Value} (h : Inv args s)
    (hn : s.next clients args act = some s') : Inv args s' := by
  cases act with
  | others act =>
      obtain ⟨servers, hs, e⟩ := Option.bind_eq_some_iff.mp hn
      cases e
      exact h.others hs
  | check before =>
      simp only [System.next] at hn
      split at hn
      · cases hn
        cases before with
        | true => exact h.goto nofun
        | false => exact h.goto nofun
      · cases hn
  | send =>
      simp only [System.next] at hn
      split at hn
      next k _ =>
        obtain ⟨srv, _, e⟩ := Option.bind_eq_some_iff.mp hn
        cases e
        exact h.send srv k
      next => cases hn
  | sleep =>
      simp only [System.next] at hn
      split at hn
      · split at hn
        · cases hn
          exact h.goto nofun
        · cases hn
      · cases hn
  | arrive j =>
      simp only [System.next] at hn
      split at hn
      next srv hj =>
        obtain ⟨servers, hs, e⟩ := Option.bind_eq_some_iff.mp hn
        cases e
        exact h.arrive hj hs
      next => cases hn
  | reply err res =>
      simp only [System.next] at hn
      split at hn
      next k srv c _ hlast =>
        split at hn
        next hret =>
          obtain ⟨rep, hput, hn⟩ := Option.bind_eq_some_iff.mp hn
          split at hn
          next =>
            cases hn
            exact h.goto nofun
          next hne =>
            cases hn
            refine ⟨h.servers, h.codes, h.called, h.apart, fun rep' e => ?_⟩
            cases e
            exact ⟨hne, srv, c, err, res, hlast, hret, hput⟩
        next => cases hn
      next => cases hn
  | fail =>
      simp only [System.next] at hn
      split at hn
      · cases hn
        exact h.goto nofun
      · cases hn

theorem inv_reachable (h : s.Reachable clients args) : Inv args s := by
  refine run_inv (I := Inv args) (fun s s' hs hi => ?_) h ?_
  · obtain ⟨act, hn⟩ := hs
    exact inv_next hi hn
  · exact ⟨.refl, fun e he => absurd he List.not_mem_nil, fun j srv c hj => (by cases hj),
      fun j j' _ _ c hj => (by cases hj), fun rep hrep => (by cases hrep)⟩

end Invariant

/-! ## 6. What the answer says -/

section Answers

variable [DecidableEq Srv] [DecidableEq Key] [Inhabited Value] {clients : List Srv}
  {args : PutArgs Key Value} {s : System Srv Key Value} {rep : Proto.Err} {j index : ℕ}

/-- An executed RPC is the `Put` of the call in the log. -/
theorem Inv.executed (h : Inv args s) (hx : index ∈ s.executions j) :
    ∃ k, index = k + 1 ∧ s.ops[k]? = some (.put args) := by
  obtain ⟨srv, c, op, hj, hc⟩ := System.mem_executions.mp hx
  have hraft := (Rsm.inv_reachable h.servers).raft
  obtain ⟨hs, h1, hent⟩ := Rsm.committed_at hraft.just hc
  obtain ⟨pre, post, e, ⟨srv', hcall⟩, _⟩ := hraft.just.of_mem hs
  have hcall' : .called c srv' op.opcommad ∈ s.servers.hist := by
    rw [e]
    exact List.mem_append_left _ hcall
  obtain ⟨_, hreq⟩ := Rsm.called_unique hraft.just hcall' (h.called j srv c hj)
  refine ⟨index - 1, by omega, ?_⟩
  rw [System.ops, hraft.log_eq, List.getElem?_map, hent, ← hreq]
  rfl

omit [Inhabited Value] in
/-- What `Put` answers with `OK` from `Submit` is what `DoOp` has answered. -/
theorem put_eq_some {res : Option (Result Value)} (h : KVService.put .ok res = some rep) :
    ∃ reply, res = some (some (.put reply)) ∧ errToPB reply.err = rep := by
  obtain ⟨reply, hreply, e⟩ := Option.map_eq_some_iff.mp h
  refine ⟨reply, ?_, e⟩
  simp only [KVServer.put, ne_eq, not_true_eq_false, if_false] at hreply
  split at hreply
  · cases hreply
    rfl
  · cases hreply

/-- **What is printed is the answer to the last RPC**, which is in the log. -/
theorem Inv.printed_executed (h : Inv args s) (hp : s.pc = .printed rep) :
    ∃ k reply, k + 1 ∈ s.executions (s.rpcs.length - 1) ∧ s.ops[k]? = some (.put args) ∧
      Raftkvd.machine.resultAt s.ops k = some (some (.put reply)) ∧ errToPB reply.err = rep := by
  obtain ⟨hne, srv, c, err, res, hlast, hret, hput⟩ := h.printed rep hp
  have hraft := (Rsm.inv_reachable h.servers).raft
  -- a Submit that did not return `OK` would have made `doPut` go on
  obtain rfl : err = .ok := by
    rcases h.codes _ hret with herr | herr
    · exact herr
    · subst herr
      cases hput
      exact absurd rfl hne
  obtain ⟨reply, rfl, hreply⟩ := put_eq_some hput
  obtain ⟨pre, post, e, hw⟩ := hraft.just.of_mem hret
  obtain ⟨srv', req, i, op, r, hr, _, hs, ha⟩ := hw rfl
  cases hr
  have hsub : pre ⊆ s.servers.hist := by
    rw [e]
    exact List.subset_append_left _ _
  obtain ⟨p, q, c', e', hc, hs', h1, _, hresult⟩ := Rsm.applied_at hraft.just (hsub ha)
  have hsub' : p ⊆ s.servers.hist := by
    rw [e']
    exact List.subset_append_left _ _
  obtain ⟨rfl, _⟩ := Rsm.started_unique hraft.just (hsub hs) (hsub' hs') rfl
  have hx : i ∈ s.executions (s.rpcs.length - 1) :=
    System.mem_executions.mpr ⟨srv, c, op, by rw [← List.getLast?_eq_getElem?, hlast], hsub' hc⟩
  obtain ⟨k, rfl, hop⟩ := h.executed hx
  refine ⟨k, reply, hx, hop, ?_, hreply⟩
  rw [System.ops, hraft.log_eq]
  exact hresult

/-- An RPC that takes effect finds the given version and leaves the next one. -/
theorem Inv.took_effect (h : Inv args s) (ht : s.TookEffect j) :
    ∃ k, k + 1 ∈ s.executions j ∧ (s.store k).version args.key = args.version ∧
      (s.store (k + 1)).version args.key = args.version + 1 := by
  obtain ⟨index, hx, hne⟩ := ht
  obtain ⟨k, rfl, hop⟩ := h.executed hx
  rcases put_at hop with ⟨hfound, _, _, hleft⟩ | ⟨_, hsame, _⟩
  · exact ⟨k, hx, hfound, hleft⟩
  · exact absurd hsame hne

omit [DecidableEq Srv] in
theorem System.version_le (s : System Srv Key Value) {k k' : ℕ} (h : k ≤ k') (key : Key) :
    (s.store k).version key ≤ (s.store k').version key := version_le_after h key

/-- **At most one RPC of the call takes effect.** -/
theorem Inv.effect_unique (h : Inv args s) {j' : ℕ} (ht : s.TookEffect j) (ht' : s.TookEffect j') :
    j = j' := by
  obtain ⟨k, hx, hfound, hleft⟩ := h.took_effect ht
  obtain ⟨k', hx', hfound', hleft'⟩ := h.took_effect ht'
  -- the later one would have found a version that has been passed
  obtain rfl : k = k' := by
    rcases Nat.lt_trichotomy k k' with hlt | he | hlt
    · have := s.version_le hlt args.key
      rw [Nat.succ_eq_add_one, hleft, hfound'] at this
      omega
    · exact he
    · have := s.version_le hlt args.key
      rw [Nat.succ_eq_add_one, hleft', hfound] at this
      omega
  obtain ⟨srv, c, op, hj, hc⟩ := System.mem_executions.mp hx
  obtain ⟨srv', c', op', hj', hc'⟩ := System.mem_executions.mp hx'
  have hjust := (Rsm.inv_reachable h.servers).raft.just
  obtain ⟨hs, _, hent⟩ := Rsm.committed_at hjust hc
  obtain ⟨hs', _, hent'⟩ := Rsm.committed_at hjust hc'
  cases hent.symm.trans hent'
  obtain ⟨rfl, _⟩ := Rsm.started_unique hjust hs hs' rfl
  exact h.apart j j' srv srv' c hj hj'

theorem errToPB_eq_ok {err : Err} (h : errToPB err = .ok) : err = .ok := by
  cases err with
  | ok => rfl
  | _ => cases h

variable [DecidableEq Value]

/-- **`OK`: the last RPC took effect, and no other.** -/
theorem put_ok_definite (h : s.Reachable clients args) (hp : s.pc = .printed .ok) (j : ℕ) :
    s.TookEffect j ↔ j = s.rpcs.length - 1 := by
  have hi := inv_reachable h
  obtain ⟨k, reply, hx, hop, hresult, hcode⟩ := hi.printed_executed hp
  have hlast : s.TookEffect (s.rpcs.length - 1) := by
    rcases put_at hop with ⟨_, _, hne, _⟩ | ⟨_, _, reply', herr, hresult'⟩
    · exact ⟨k + 1, hx, hne⟩
    · cases hresult.symm.trans hresult'
      exact absurd (errToPB_eq_ok hcode) herr
  refine ⟨fun ht => hi.effect_unique ht hlast, fun e => ?_⟩
  rw [e]
  exact hlast

/-- **`ERR_VERSION` and `ERR_NO_KEY`: no RPC took effect**, where no other one can have. -/
theorem put_failure_definite (h : s.Reachable clients args) (hp : s.pc = .printed rep)
    (hrep : rep = .errVersion ∨ rep = .errNoKey) (hwhen : s.Unambiguous args) (j : ℕ) :
    ¬ s.TookEffect j := by
  intro ht
  have hi := inv_reachable h
  obtain ⟨k, reply, hx, hop, hresult, hcode⟩ := hi.printed_executed hp
  have hmissed : (s.store k).version args.key ≠ args.version := by
    rcases put_at hop with ⟨_, hresult', _⟩ | ⟨hfound, _⟩
    · cases hresult.symm.trans hresult'
      rw [← hcode] at hrep
      rcases hrep with e | e
      · cases e
      · cases e
    · exact hfound
  obtain ⟨k', hx', hfound, hleft⟩ := hi.took_effect ht
  obtain ⟨_, _, _, hj, _⟩ := System.mem_executions.mp hx'
  have hj' : j ∈ List.range s.rpcs.length :=
    List.mem_range.mpr (List.getElem?_eq_some_iff.mp hj).1
  obtain ⟨hhigh, hlow⟩ := hwhen (k + 1) hx j hj' (k' + 1) hx'
  rcases Nat.lt_or_gt_of_ne hmissed with hlt | hgt
  · -- a lower version: it was not passed before, and nothing comes after
    rcases Nat.lt_or_eq_of_le (Nat.le_of_succ_le_succ (hlow hlt)) with hk | rfl
    · have := s.version_le hk args.key
      rw [Nat.succ_eq_add_one, hleft] at this
      omega
    · exact hmissed hfound
  · have := s.version_le (Nat.le_of_succ_le_succ (hhigh hgt)) args.key
    rw [hfound] at this
    omega

end Answers

/-! ## 7. Runs -/

section Runs

/-- Submit `c` is started at server 0, which leads, at the next index of the log. -/
def starts (c logId : ℕ) : List (Action ℕ ℕ ℕ) :=
  [.others (.turn c (.getState true)), .others (.turn c (.start c (some (logId, 1)))),
    .others (.turn c .register)]

/-- The entry that was started as number `k` is committed and run at server 0. -/
def runs (k : ℕ) : List (Action ℕ ℕ ℕ) :=
  [.others (.commit k), .others (.deliver 0), .others (.notify 0), .others (.snapshot 0 false)]

/-- The next RPC of `doPut` is sent, to the first server of the round, and becomes a Submit. -/
def sends (j : ℕ) : List (Action ℕ ℕ ℕ) := [.check true, .send, .arrive j]

/-- The answer to the first RPC is lost, the second one finds the version that it has left. -/
def answerLost : List (Action ℕ ℕ ℕ) :=
  sends 0 ++ starts 0 1 ++ runs 0 ++ [.fail, .sleep] ++ sends 1 ++ starts 1 2 ++ runs 1 ++
    [.others (.turn 1 .receive), .reply .ok (some (some (.put ⟨.errVersion⟩)))]

/-- The handler of the first RPC is late: the second one finds no key, another client creates it,
    and then the first one goes on. -/
def handlerLate : List (Action ℕ ℕ ℕ) :=
  sends 0 ++ [.fail, .sleep] ++ sends 1 ++ starts 1 1 ++ runs 0 ++
    [.others (.turn 1 .receive), .reply .ok (some (some (.put ⟨.errNoKey⟩))),
      .others (.submit 0 (.put ⟨5, 71, 0⟩))] ++ starts 2 2 ++ runs 1 ++ starts 0 3 ++ runs 2

/-- **Both answers are printed although the first RPC takes effect.** -/
theorem put_failure_ambiguous :
    (∃ s : System ℕ ℕ ℕ, s.Reachable [0] ⟨5, 70, 0⟩ ∧ s.pc = .printed .errVersion ∧
      s.TookEffect 0) ∧
    ∃ s : System ℕ ℕ ℕ, s.Reachable [0] ⟨5, 70, 1⟩ ∧ s.pc = .printed .errNoKey ∧
      s.TookEffect 0 := by
  have hplay1 : ((play (System.next [0] ⟨5, 70, 0⟩) .init answerLost).map fun s =>
      decide (s.pc = .printed .errVersion ∧ s.TookEffect 0)) = some true := by
    decide +kernel
  have hplay2 : ((play (System.next [0] ⟨5, 70, 1⟩) .init handlerLate).map fun s =>
      decide (s.pc = .printed .errNoKey ∧ s.TookEffect 0)) = some true := by
    decide +kernel
  obtain ⟨s1, hs1, hd1⟩ := Option.map_eq_some_iff.mp hplay1
  obtain ⟨s2, hs2, hd2⟩ := Option.map_eq_some_iff.mp hplay2
  exact ⟨⟨s1, play_run hs1, of_decide_eq_true hd1⟩, s2, play_run hs2, of_decide_eq_true hd2⟩

/-- Another client has written the key; the first server that is asked does not lead, the second one
    refuses. -/
def passedVersion : List (Action ℕ ℕ ℕ) :=
  [.others (.submit 0 (.put ⟨5, 71, 0⟩))] ++ starts 0 1 ++ runs 0 ++ sends 0 ++
    [.others (.turn 1 (.getState false)), .reply .errWrongLeader none, .send, .arrive 1] ++
    starts 2 2 ++ runs 1 ++
    [.others (.turn 2 .receive), .reply .ok (some (some (.put ⟨.errVersion⟩)))]

theorem put_failure_definite_passed : ∃ s : System ℕ ℕ ℕ, s.Reachable [1, 0] ⟨5, 70, 0⟩ ∧
    s.pc = .printed .errVersion ∧ s.Unambiguous ⟨5, 70, 0⟩ ∧ ∀ j, ¬ s.TookEffect j := by
  have hplay : ((play (System.next [1, 0] ⟨5, 70, 0⟩) .init passedVersion).map fun s =>
      decide (s.pc = .printed .errVersion ∧ s.Unambiguous ⟨5, 70, 0⟩)) = some true := by
    decide +kernel
  obtain ⟨s, hs, hd⟩ := Option.map_eq_some_iff.mp hplay
  obtain ⟨hp, hwhen⟩ := of_decide_eq_true hd
  exact ⟨s, play_run hs, hp, hwhen,
    put_failure_definite (play_run hs) hp (Or.inl rfl) hwhen⟩

end Runs

end Raftkvctl

end RaftLab.Kvraft1

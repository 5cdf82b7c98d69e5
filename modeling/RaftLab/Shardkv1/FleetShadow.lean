/-
  File:      RaftLab/Shardkv1/FleetShadow.lean
  Subject:   The sharded service (Fleet.lean) with atomic groups, and the world that it shadows.

  Controllers and clerks run with groups that execute a command in one step (Lib/Substitution.lean):
  `Calm`. The whole is then the world of Migration.lean together with a history of the clerks' RPCs
  (`Shadow`); FleetSteps.lean shows it for every step. The reason that the history is one of a single
  table is `rpc_executed`: an execution that a group does not refuse is one of the table that the
  acknowledged Puts lead to, by the invariant of the migrations.
-/
import RaftLab.Kvsrv1.AnyOrder
import RaftLab.Shardkv1.Fleet
import RaftLab.Shardkv1.MigrationSafety

namespace RaftLab.Shardkv1.Fleet

open RaftLab.Lib RaftLab.Kvsrv1 Relation
open RaftLab.Raft1 (Bytes Config)

variable {Value : Type} [Inhabited Value]

/-! ## 1. What is assumed of gob -/

/-- gob round-trips on the requests and on the states they lead to. -/
structure Gob.Sound (gob : Gob Value) (allowed : Req Value → Prop) : Prop where
  op : ∀ req, allowed req → gob.decodeOp (gob.encodeOp req) = req
  state : ∀ gid log, (∀ req ∈ log, allowed req) →
    gob.decode (gob.encode ((startServerShardGrp gid).foldOps log)) =
      (startServerShardGrp gid).foldOps log
  ne : ∀ kv, gob.encode kv ≠ []

/-- The requests of the controllers are allowed, with any state that a `Freeze` answers. -/
structure Closed (allowed : Req Value → Prop) : Prop where
  freeze : ∀ sh num, allowed (.freezeShard ⟨sh, num⟩)
  delete : ∀ sh num, allowed (.deleteShard ⟨sh, num⟩)
  install : ∀ gid log args, (∀ req ∈ log, allowed req) → ∀ sh num,
    allowed (.installShard ⟨sh, (((startServerShardGrp gid).foldOps log).doFreezeShard args).2.state,
      num⟩)

/-- The commands that the allowed requests are encoded as. -/
def Gob.Cmd (gob : Gob Value) (allowed : Req Value → Prop) (cmd : Bytes) : Prop :=
  ∃ req, allowed req ∧ cmd = gob.encodeOp req

section Gob

variable {gob : Gob Value} {allowed : Req Value → Prop}

theorem after_app (gob : Gob Value) (gid : Tgid) (log : List Bytes) (k : ℕ) :
    (gob.app gid).after log k =
      (startServerShardGrp gid).foldOps ((log.take k).map gob.decodeOp) := by
  rw [Machine.after_eq_foldl (fun _ => rfl), KVServer.foldOps, List.foldl_map]
  rfl

theorem Gob.Sound.decoded (h : gob.Sound allowed) {log : List Bytes}
    (hlog : ∀ cmd ∈ log, gob.Cmd allowed cmd) : ∀ req ∈ log.map gob.decodeOp, allowed req := by
  intro req hreq
  obtain ⟨cmd, hcmd, rfl⟩ := List.mem_map.mp hreq
  obtain ⟨req, hallowed, rfl⟩ := hlog cmd hcmd
  rw [h.op req hallowed]
  exact hallowed

theorem Gob.Sound.roundTrips (h : gob.Sound allowed) (gid : Tgid) :
    (gob.app gid).RoundTrips (gob.Cmd allowed) where
  restore_snapshot log hlog k := by
    rw [after_app]
    exact h.state _ _ (h.decoded fun cmd hcmd => hlog cmd (List.mem_of_mem_take hcmd))
  snapshot_ne := h.ne

end Gob

/-! ## 2. The groups are taken for atomic -/

/-- The steps of the controllers and clerks, as they are seen by the groups. -/
def UserStep (plan : Plan) (gob : Gob Value) (allowed : Req Value → Prop) (u : Users Value) :
    Label Tgid Bytes (Reply Value) → Users Value → Prop
  | .tau, u' => ∃ a : Own Value, a.Allowed allowed ∧ u.Governed plan a ∧ u.own a = some u'
  | .send g k cmd, u' => ∃ a users, u.post gob a = some (g, cmd, users) ∧ users k = u'
  | .recv g k res, u' => ∃ a, u.take g k res a = some u'

def usersEnv (plan : Plan) (gob : Gob Value) (allowed : Req Value → Prop) :
    Env (Users Value) Tgid Bytes (Reply Value) := ⟨.init, UserStep plan gob allowed⟩

/-- The controllers and clerks with atomic groups. -/
abbrev Calm (Value : Type) := Atomic (Users Value) Tgid Bytes

def Calm.Reachable (plan : Plan) (gob : Gob Value) (allowed : Req Value → Prop)
    (a : Calm Value) : Prop :=
  Atomic.Reachable (usersEnv plan gob allowed) (fun g => (gob.app g).toMachine) a

/-! ## 3. An RPC of a clerk is one of the table -/

section World

variable {plan : Plan} {w : World Value}

/-- **An execution that a group does not refuse** is one of the table that the acknowledged Puts have
    led to. -/
theorem rpc_executed (hr : w.Reachable plan) (g : Tgid) (op : Op Value) :
    ∃ (w' : World Value) (ans : Answer Value), w'.Reachable plan ∧
      w'.grp = Function.update w.grp g ((w.grp g).doOp (request op)).1 ∧
      w'.ctrl = w.ctrl ∧ w'.net = w.net ∧ w'.replies = w.replies ∧
      asAnswer ((w.grp g).doOp (request op)).2 = some ans ∧
      (answerErr ans = .errWrongGroup ∧ applyPuts w'.acked = applyPuts w.acked ∨
        answerErr ans ≠ .errWrongGroup ∧ ans = (kvStep (applyPuts w.acked) op).2 ∧
          applyPuts w'.acked = (kvStep (applyPuts w.acked) op).1) := by
  have hi := inv_reachable hr
  -- a group that serves the key has what the acknowledged Puts say of it
  have hkey : ∀ key, (w.grp g).shardState (key2Shard key) = .ready →
      (w.grp g).kvMap key = applyPuts w.acked key := by
    intro key hready
    have := congrFun (hi.data_of_ready hready) key
    rwa [KVServer.dumpShard, restrict_of_eq _ rfl, restrict_of_eq _ rfl] at this
  cases op with
  | get args =>
      refine ⟨w, .get ((w.grp g).doGet args), hr, (Function.update_eq_self _ _).symm, rfl, rfl, rfl,
        rfl, ?_⟩
      by_cases hready : (w.grp g).shardState (key2Shard args.key) = .ready
      · right
        have hget : (w.grp g).doGet args = getEntry (applyPuts w.acked) args := by
          rw [KVServer.doGet, if_neg (not_not.mpr hready), getEntry, getEntry, hkey _ hready]
        rw [hget]
        refine ⟨?_, rfl, rfl⟩
        simp only [answerErr, getEntry]
        split <;> exact fun e => Err.noConfusion e
      · left
        rw [KVServer.doGet, if_pos hready]
        exact ⟨rfl, rfl⟩
  | put args =>
      refine ⟨_, .put ((w.grp g).doPut args).2, hr.tail ⟨.put g args, rfl⟩, rfl, rfl, rfl, rfl, rfl,
        ?_⟩
      by_cases hready : (w.grp g).shardState (key2Shard args.key) = .ready
      · right
        have hcongr := putEntry_congr (hkey _ hready)
        have hreply : ((w.grp g).doPut args).2 = (putEntry (applyPuts w.acked) args).2 := by
          rw [KVServer.reply_doPut hready]
          exact hcongr.1
        refine ⟨?_, congrArg _ hreply, ?_⟩
        · rw [hreply]
          rcases putEntry_cases (applyPuts w.acked) args with ⟨h, _⟩ | ⟨h, _⟩ | ⟨h, _⟩ <;>
            rw [h] <;> exact fun e => Err.noConfusion e
        · show applyPuts (if ((w.grp g).doPut args).2.err = .ok then _ else _) = _
          rw [hreply]
          by_cases hok : (putEntry (applyPuts w.acked) args).2.err = .ok
          · rw [if_pos hok, applyPuts_concat]
            rfl
          · rw [if_neg hok]
            exact (putEntry_of_not_ok hok).symm
      · left
        have hreply : ((w.grp g).doPut args).2 = ⟨.errWrongGroup⟩ := by
          rw [KVServer.doPut, if_pos hready]
        refine ⟨?_, ?_⟩
        · rw [hreply]
          rfl
        · show applyPuts (if ((w.grp g).doPut args).2.err = .ok then _ else _) = _
          rw [hreply, if_neg fun e => Err.noConfusion e]

end World

/-! ## 4. What has come to the groups -/

theorem getElem?_concat_iff {α : Type} {l : List α} {x y : α} {p : ℕ} :
    (l ++ [x])[p]? = some y ↔ l[p]? = some y ∨ p = l.length ∧ x = y := by
  rcases Nat.lt_trichotomy p l.length with hlt | rfl | hgt
  · rw [List.getElem?_append_left hlt]
    exact ⟨.inl, fun h => h.resolve_right fun e => absurd e.1 (Nat.ne_of_lt hlt)⟩
  · rw [List.getElem?_concat_length, List.getElem?_eq_none (Nat.le_refl _)]
    simp
  · have h1 : (l ++ [x])[p]? = none :=
      List.getElem?_eq_none (by rw [List.length_append, List.length_singleton]; omega)
    rw [h1, List.getElem?_eq_none (Nat.le_of_lt hgt)]
    simp
    omega

/-- The operation of call `x`. -/
def HasOp (u : Users Value) (x : ℕ) (op : Op Value) : Prop :=
  ∃ y, u.calls[x]? = some y ∧ y.op = op

/-- The request that a sender has sent. -/
def Users.sent (u : Users Value) : Sender → Option (Req Value)
  | .request i => u.net[i]?.map Prod.snd
  | .rpc x _ => u.calls[x]?.map fun y => request y.op

/-- RPC `j` of call `x` has become Submit `k` of group `g`. -/
def Became (u : Users Value) (x j : ℕ) (g : Tgid) (k : ℕ) : Prop :=
  ∃ y, u.calls[x]? = some y ∧ y.rpcs[j]? = some ⟨g, some k⟩

/-- Call `x` has returned. -/
def Returned (u : Users Value) (x : ℕ) (out : Answer Value) : Prop :=
  ∃ y, u.calls[x]? = some y ∧ y.pc = .returned out

/-- To the groups, the users look the same. -/
structure Looks (u u' : Users Value) : Prop where
  net : ∀ (i : ℕ) x, u.net[i]? = some x → u'.net[i]? = some x
  op : ∀ x op, HasOp u x op → HasOp u' x op
  became : ∀ x j g k, Became u' x j g k ↔ Became u x j g k
  senders : u'.senders = u.senders

structure Arrived (gob : Gob Value) (u : Users Value) (calls : Tgid → List Bytes) : Prop where
  length : ∀ g, (u.senders g).length = (calls g).length
  asked : ∀ g (k : ℕ) i, (u.senders g)[k]? = some (.request i) →
    ∃ req, u.net[i]? = some (g, req) ∧ (calls g)[k]? = some (gob.encodeOp req)
  rpc : ∀ g (k : ℕ) x j, (u.senders g)[k]? = some (.rpc x j) → Became u x j g k ∧
    ∃ op, HasOp u x op ∧ (calls g)[k]? = some (gob.encodeOp (request op))
  sub : ∀ x j g (k : ℕ), Became u x j g k → (u.senders g)[k]? = some (.rpc x j)

/-- What the users ask for is allowed. -/
structure Allows (allowed : Req Value → Prop) (u : Users Value) : Prop where
  net : ∀ x ∈ u.net, allowed x.2
  call : ∀ x op, HasOp u x op → allowed (request op)

/-- The history has the calls, the executions that a group did not refuse, and the returns. -/
structure Told (u : Users Value) (log : Tgid → List (ℕ × Bytes))
    (hist : List (Ev (Op Value) (Answer Value) (Answer Value))) : Prop where
  call : ∀ x op, .call x op ∈ hist ↔ HasOp u x op
  exec : ∀ x j op res, .exec x j op res ∈ hist →
    ∃ g k, Became u x j g k ∧ k ∈ (log g).map Prod.fst
  ret : ∀ x j out, .ret x j out ∈ hist → Returned u x out
  visible : visible hist = u.hist

/-- What the executions have answered. -/
structure Answers (gob : Gob Value) (u : Users Value) (w : World Value)
    (log : Tgid → List (ℕ × Bytes))
    (hist : List (Ev (Op Value) (Answer Value) (Answer Value))) : Prop where
  asked : ∀ g (p : ℕ) k cmd i res, (log g)[p]? = some (k, cmd) →
    (u.senders g)[k]? = some (.request i) →
    (gob.app g).resultAt ((log g).map Prod.snd) p = some res → (i, res) ∈ w.replies
  rpc : ∀ g (p : ℕ) k cmd x j res, (log g)[p]? = some (k, cmd) →
    (u.senders g)[k]? = some (.rpc x j) →
    (gob.app g).resultAt ((log g).map Prod.snd) p = some res → ∃ ans, asAnswer res = some ans ∧
      (answerErr ans ≠ .errWrongGroup → ∃ op, HasOp u x op ∧ .exec x j op ans ∈ hist)

/-- **With atomic groups the whole is a world with a history.** -/
structure Shadow (plan : Plan) (gob : Gob Value) (allowed : Req Value → Prop) (a : Calm Value)
    (w : World Value) (hist : List (Ev (Op Value) (Answer Value) (Answer Value))) : Prop where
  reach : w.Reachable plan
  grp : w.grp = a.obj fun g => (gob.app g).toMachine
  ctrl : w.ctrl = a.env.ctrl.map Job.ctrl
  planned : ∀ x ∈ a.env.ctrl, x.Follows plan
  net : w.net = a.env.net
  logged : ∀ g, ∀ x ∈ a.log g, (a.calls g)[x.1]? = some x.2
  arrived : Arrived gob a.env a.calls
  allows : Allows allowed a.env
  told : Told a.env a.log hist
  answers : Answers gob a.env w a.log hist
  table : (kvObject Bytes Value).after hist = applyPuts w.acked
  just : Justified (Loose (kvObject Bytes Value) Honest) hist

section Looks

variable {gob : Gob Value} {allowed : Req Value → Prop} {u u' : Users Value}
  {calls : Tgid → List Bytes} {log : Tgid → List (ℕ × Bytes)} {w w' : World Value}
  {hist hist' : List (Ev (Op Value) (Answer Value) (Answer Value))} {x : ℕ} {y y' : Call Value}

omit [Inhabited Value] in
theorem Arrived.looks (h : Arrived gob u calls) (hl : Looks u u') : Arrived gob u' calls where
  length g := by
    rw [hl.senders]
    exact h.length g
  asked g k i hk := by
    rw [hl.senders] at hk
    obtain ⟨req, hreq, hcmd⟩ := h.asked g k i hk
    exact ⟨req, hl.net _ _ hreq, hcmd⟩
  rpc g k x j hk := by
    rw [hl.senders] at hk
    obtain ⟨hb, op, hop, hcmd⟩ := h.rpc g k x j hk
    exact ⟨(hl.became x j g k).mpr hb, op, hl.op x op hop, hcmd⟩
  sub x j g k hb := by
    rw [hl.senders]
    exact h.sub x j g k ((hl.became x j g k).mp hb)

theorem Answers.looks (h : Answers gob u w log hist) (hl : Looks u u')
    (hw : w.replies ⊆ w'.replies) (hh : hist ⊆ hist') : Answers gob u' w' log hist' where
  asked g p k cmd i res hp hk hres := by
    rw [hl.senders] at hk
    exact hw (h.asked g p k cmd i res hp hk hres)
  rpc g p k cmd x j res hp hk hres := by
    rw [hl.senders] at hk
    obtain ⟨ans, hans, hex⟩ := h.rpc g p k cmd x j res hp hk hres
    refine ⟨ans, hans, fun hne => ?_⟩
    obtain ⟨op, hop, hmem⟩ := hex hne
    exact ⟨op, hl.op x op hop, hh hmem⟩

omit [Inhabited Value] in
/-- The controllers go on. -/
theorem looks_of_ctrl (hnet : ∀ (i : ℕ) x, u.net[i]? = some x → u'.net[i]? = some x)
    (hcalls : u'.calls = u.calls) (hsenders : u'.senders = u.senders) : Looks u u' where
  net := hnet
  op x op h := by
    unfold HasOp
    rw [hcalls]
    exact h
  became x j g k := by
    unfold Became
    rw [hcalls]
  senders := hsenders

/-- A call goes on: its operation and the RPCs that have arrived are the same. -/
structure GoesOn (y y' : Call Value) : Prop where
  op : y'.op = y.op
  rpcs : ∀ (j : ℕ) g k, y'.rpcs[j]? = some ⟨g, some k⟩ ↔ y.rpcs[j]? = some ⟨g, some k⟩

omit [Inhabited Value] in
theorem hasOp_set (hy : u.calls[x]? = some y) (hgo : GoesOn y y')
    (hist : List (Mark ℕ (Op Value) (Answer Value))) (x' : ℕ) (op : Op Value) :
    HasOp { u with calls := u.calls.set x y', hist := hist } x' op ↔ HasOp u x' op :=
  Retry.exists_set_iff hy fun _ => by rw [hgo.op]

omit [Inhabited Value] in
theorem looks_of_set (hy : u.calls[x]? = some y) (hgo : GoesOn y y')
    (hist : List (Mark ℕ (Op Value) (Answer Value))) :
    Looks u { u with calls := u.calls.set x y', hist := hist } where
  net _ _ h := h
  op _ op := (hasOp_set hy hgo hist _ op).mpr
  became _ j g k := Retry.exists_set_iff hy fun _ => hgo.rpcs j g k
  senders := rfl

omit [Inhabited Value] in
/-- The controllers go on. -/
theorem Told.ctrl (h : Told u log hist) (hl : Looks u u') (hcalls : u'.calls = u.calls)
    (hhist : u'.hist = u.hist) : Told u' log hist where
  call x op := by
    unfold HasOp
    rw [hcalls]
    exact h.call x op
  exec x j op res hmem := by
    obtain ⟨g, k, hb, hk⟩ := h.exec x j op res hmem
    exact ⟨g, k, (hl.became x j g k).mpr hb, hk⟩
  ret x j out hmem := by
    unfold Returned
    rw [hcalls]
    exact h.ret x j out hmem
  visible := h.visible.trans hhist.symm

omit [Inhabited Value] in
/-- A call that has not returned goes on. -/
theorem Told.set (h : Told u log hist) (hy : u.calls[x]? = some y) (hgo : GoesOn y y')
    (hpc : ∀ out, y.pc ≠ .returned out) :
    Told { u with calls := u.calls.set x y' } log hist where
  call x' op := (h.call x' op).trans (hasOp_set hy hgo u.hist x' op).symm
  exec x' j op res hmem := by
    obtain ⟨g, k, hb, hk⟩ := h.exec x' j op res hmem
    exact ⟨g, k, ((looks_of_set hy hgo u.hist).became x' j g k).mpr hb, hk⟩
  ret x' j out hmem := by
    obtain ⟨z, hz, hret⟩ := h.ret x' j out hmem
    have hne : x' ≠ x := by
      rintro rfl
      rw [hy] at hz
      cases hz
      exact hpc out hret
    exact ⟨z, by rw [List.getElem?_set_ne hne.symm]; exact hz, hret⟩
  visible := h.visible

end Looks

end RaftLab.Shardkv1.Fleet

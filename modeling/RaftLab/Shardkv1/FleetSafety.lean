/-
  File:      RaftLab/Shardkv1/FleetSafety.lean
  Subject:   The sharded service is linearizable (Fleet.lean).

  The groups are linearized as they run (`service_linearized`), so the controllers and clerks may
  take them for atomic state machines (`composed_refines`), and with atomic groups the whole is the
  world of Migration.lean with a history (`shadow_reachable`): **`fleet_refines`**.

  * **`fleet_linearizable`** -- if the controllers keep to a plan (`Governed`), what the clients see
    is linearizable, in the sense of Kvsrv1/AnyOrder.lean, whatever shards move, servers die and RPCs
    are late; every server is at a beginning of the log of its group, and at most one group serves a
    shard. That the controllers of the code do is in ControlSafety.lean;
  * **`handlers_answer`** -- the type assertion of a handler never fails.
-/
import RaftLab.Shardkv1.FleetSteps
import Mathlib.Logic.Encodable.Pi

namespace RaftLab.Shardkv1.Fleet

open RaftLab.Lib RaftLab.Kvsrv1 Relation
open RaftLab.Raft1 (Bytes Config Event)
open RaftLab.Kvraft1.Service (service_linearized of_answerTo)

variable {Value : Type} [Inhabited Value] {NodeID : Type} [DecidableEq NodeID]

/-! ## 1. The groups are taken for atomic -/

section Runs

variable {plan : Plan} {gob : Gob Value} {allowed : Req Value → Prop} {cfg : Tgid → Config NodeID}
  {s : System Value NodeID}

theorem composed_of_reachable (h : s.Reachable plan gob cfg allowed) :
    Composed.Reachable (usersEnv plan gob allowed)
      (fun g => Kvraft1.Service.System.impl (gob.app g) (cfg g)) (s.users, s.grp) := by
  induction h with
  | refl => exact .refl
  | tail _ hstep ih =>
      refine ih.tail ?_
      obtain ⟨act, hact, hgov, hs⟩ := hstep
      cases act with
      | own a =>
          obtain ⟨u, hu, rfl⟩ := Option.map_eq_some_iff.mp hs
          exact .tau ⟨a, hact, hgov, hu⟩
      | post a n =>
          obtain ⟨⟨g, cmd, users⟩, hp, hs⟩ := Option.bind_eq_some_iff.mp hs
          obtain ⟨grp, hg, hs⟩ := Option.bind_eq_some_iff.mp hs
          cases hs
          exact .send g cmd ⟨n, hg⟩ ⟨a, users, hp, rfl⟩
      | group g act =>
          simp only [System.next] at hs
          split at hs
          next hsub =>
            obtain ⟨grp, hg, hs⟩ := Option.bind_eq_some_iff.mp hs
            cases hs
            exact .step g ⟨act, hsub, hg⟩
          next => cases hs
      | take a g k =>
          obtain ⟨res, hres, hs⟩ := Option.bind_eq_some_iff.mp hs
          obtain ⟨u, hu, hs⟩ := Option.bind_eq_some_iff.mp hs
          cases hs
          exact .recv g k res (of_answerTo hres) ⟨a, hu⟩

omit [DecidableEq NodeID] in
/-- What comes to a group is allowed. -/
theorem post_cmd (hc : Closed allowed) (hgob : gob.Sound allowed) {a : Calm Value}
    (h : a.Reachable plan gob allowed) {g : Tgid} {k : ℕ} {cmd : Bytes} {u' : Users Value}
    (hu : UserStep plan gob allowed a.env (.send g k cmd) u') : gob.Cmd allowed cmd := by
  obtain ⟨w, hist, hs⟩ := shadow_reachable hc hgob h
  obtain ⟨s, users, hp, rfl⟩ := hu
  cases s with
  | request i =>
      obtain ⟨req, hreq, rfl⟩ := (posts hp).asked i rfl
      exact ⟨req, hs.allows.net _ (List.mem_of_getElem? hreq), rfl⟩
  | rpc x j =>
      obtain ⟨op, hop, rfl⟩ := (posts hp).rpc x j rfl
      exact ⟨request op, hs.allows.call x op hop, rfl⟩

/-- **Every run is one with atomic groups**, and so one of Migration.lean: the order of a group is
    the committed log of its Raft. -/
theorem fleet_refines (hc : Closed allowed) (hgob : gob.Sound allowed)
    (h : s.Reachable plan gob cfg allowed) : ∃ (a : Calm Value) (w : World Value)
      (hist : List (Ev (Op Value) (Answer Value) (Answer Value))),
      a.env = s.users ∧ (∀ g, a.calls g = (s.grp g).calls) ∧ Shadow plan gob allowed a w hist ∧
      ∀ g, Kvraft1.Service.Ordered (gob.app g) (cfg g) (gob.Cmd allowed) (s.grp g) (a.log g) := by
  have hlin : ∀ g, Linearized (gob.app g).toMachine (Kvraft1.Service.System.impl (gob.app g) (cfg g))
      (gob.Cmd allowed) (Kvraft1.Service.Ordered (gob.app g) (cfg g) (gob.Cmd allowed)) :=
    fun g => service_linearized (hgob.roundTrips g)
  obtain ⟨a, ha, href⟩ := composed_refines hlin
    (fun a ha g k cmd u' hu => post_cmd hc hgob ha hu) (composed_of_reachable h)
  obtain ⟨w, hist, hshadow⟩ := shadow_reachable hc hgob ha
  exact ⟨a, w, hist, href.env, href.calls, hshadow, href.log⟩

/-! ## 2. The results -/

/-- `log g` is what group `g` has committed, and `m` the table that the groups hold together: every
    server is at a beginning of the log of its group; at most one group serves a shard, and it has
    what the table has there. -/
structure Serving (s : System Value NodeID) (log : Tgid → List (Req Value))
    (m : Table Bytes Value) : Prop where
  server : ∀ g n, ((s.grp g).cluster.node n).delivered ≤ (log g).length ∧
    ((s.grp g).rsms.rsm (n, (s.grp g).current n)).sm =
      (startServerShardGrp g).foldOps ((log g).take ((s.grp g).cluster.node n).delivered)
  owner : ∀ sh g g', ((startServerShardGrp g).foldOps (log g)).shardState sh = .ready →
    ((startServerShardGrp g').foldOps (log g')).shardState sh = .ready → g = g'
  data : ∀ sh g, ((startServerShardGrp g).foldOps (log g)).shardState sh = .ready →
    ((startServerShardGrp g).foldOps (log g)).dumpShard sh = restrict sh m

/-- **Controllers that keep to a plan do not show.** Whatever shards they move, servers die and RPCs
    are late: what the clients see is that of one map, if a `Put` that did not return `OK` is taken as
    open; and the groups hold the map that the sequence ends with. -/
theorem fleet_linearizable (hc : Closed allowed) (hgob : gob.Sound allowed)
    (h : s.Reachable plan gob cfg allowed) :
    ∃ lin state log, LinearizesBy MapSpec (settled s.users.hist) lin state ∧
      state 0 = Table.empty ∧ Serving s log (state lin.length) := by
  obtain ⟨a, w, hist, henv, _, hshadow, hlog⟩ := fleet_refines hc hgob h
  obtain ⟨lin, state, hlin, h0, hlast⟩ := settled_linearizable hshadow.just
  rw [hshadow.told.visible, henv] at hlin
  have hi := inv_reachable hshadow.reach
  have hgrp : ∀ g, w.grp g =
      (startServerShardGrp g).foldOps (((a.log g).map Prod.snd).map gob.decodeOp) := by
    intro g
    rw [hshadow.grp, Atomic.obj, after_app, ← List.length_map Prod.snd, List.take_length]
  refine ⟨lin, state, fun g => ((a.log g).map Prod.snd).map gob.decodeOp, hlin, h0, ⟨?_, ?_, ?_⟩⟩
  · intro g n
    obtain ⟨R, hR, hlin⟩ := hlog g
    obtain ⟨hle, hsm⟩ := hR.beginning n
    rw [← hlin, after_app] at hsm
    rw [← hlin] at hle
    rw [List.length_map, List.length_map, ← List.map_take]
    exact ⟨hle, hsm⟩
  · intro sh g g' hg hg'
    rw [← hgrp] at hg hg'
    obtain ⟨H, hH⟩ := hi.holds sh
    exact (hH.eq_of_ready hg).trans (hH.eq_of_ready hg').symm
  · intro sh g hg
    rw [← hgrp] at hg ⊢
    rw [hlast, hshadow.table]
    exact hi.data_of_ready hg

end Runs

/-! ## 3. The handlers -/

section Handlers

variable {gob : Gob Value} {allowed : Req Value → Prop}

/-- The servers of one group. -/
abbrev Group (Value NodeID : Type) := Kvraft1.Service.System (KVServer Value) NodeID Bytes (Reply Value)

/-- A Submit that returns `OK` returns an answer to its own request. -/
theorem serve_ordered (hgob : gob.Sound allowed) {g : Tgid} {cfg : Config NodeID}
    {s : Group Value NodeID} {lin : List (ℕ × Bytes)}
    (h : Kvraft1.Service.Ordered (gob.app g) cfg (gob.Cmd allowed) s lin) {k : ℕ} {req : Req Value}
    {res : Reply Value} (hreq : allowed req) (hcall : s.calls[k]? = some (gob.encodeOp req))
    (hret : .returned k .ok (some res) ∈ s.rsms.hist) : serve req .ok (some res) = some res := by
  have hobj : Linearized (gob.app g).toMachine (Kvraft1.Service.System.impl (gob.app g) cfg)
      (gob.Cmd allowed) (Kvraft1.Service.Ordered (gob.app g) cfg (gob.Cmd allowed)) :=
    service_linearized (hgob.roundTrips g)
  obtain ⟨p, cmd, hp, hresult⟩ := hobj.answered _ _ h k res hret
  obtain ⟨cmd', hcmd, rfl⟩ := result_app hresult
  rw [List.getElem?_map, hp] at hcmd
  cases hcmd
  cases (hobj.called _ _ h _ (List.mem_of_getElem? hp)).symm.trans hcall
  rw [hgob.op req hreq]
  cases req <;> rfl

/-- **The type assertion of a handler never fails**, whoever calls the handlers of a group and
    whatever they ask for: what a Submit returns with `OK` is an answer to the request that the
    handler was called with, also if other requests have been committed where its `Start` announced
    it. The handler gets to its end, and an answer is handed back as it is. -/
theorem handlers_answer (hgob : gob.Sound allowed) {g : Tgid} {cfg : Config NodeID}
    {s : Group Value NodeID} (h : s.Reachable (gob.app g) cfg (gob.Cmd allowed)) {k : ℕ}
    {req : Req Value} {err : Err} {res : Option (Reply Value)} (hreq : allowed req)
    (hcall : s.calls[k]? = some (gob.encodeOp req)) (hret : .returned k err res ∈ s.rsms.hist) :
    ∃ reply, serve req err res = some reply ∧ (err = .ok → res = some reply) := by
  obtain ⟨R, hR⟩ := Kvraft1.Service.tracks_reachable (hgob.roundTrips g) h
  by_cases herr : err = .ok
  · subst herr
    obtain ⟨r, rfl⟩ := hR.returned_ok hret
    exact ⟨r, serve_ordered hgob ⟨R, hR, rfl⟩ hreq hcall hret, fun _ => rfl⟩
  · exact ⟨_, if_pos herr, fun e => absurd e herr⟩

/-- The handlers that the controllers and the clerks call hand them the answers to what they have
    sent. -/
theorem fleet_handlers_answer {plan : Plan} {cfg : Tgid → Config NodeID} {s : System Value NodeID}
    (hc : Closed allowed) (hgob : gob.Sound allowed) (h : s.Reachable plan gob cfg allowed) {g : Tgid}
    {k : ℕ} {res : Reply Value} (hres : (s.grp g).answerTo k = some res) :
    ∃ sender req, (s.users.senders g)[k]? = some sender ∧ s.users.sent sender = some req ∧
      serve req .ok (some res) = some res := by
  obtain ⟨a, w, hist, henv, hcalls, hshadow, hlog⟩ := fleet_refines hc hgob h
  have hret := of_answerTo hres
  obtain ⟨p, cmd, hp, _⟩ :=
    (service_linearized (hgob.roundTrips g)).answered _ _ (hlog g) k res hret
  have hcall := hshadow.logged g _ (List.mem_of_getElem? hp)
  obtain ⟨sender, req, hs, hsent, hallowed, rfl⟩ := hshadow.sent hcall
  rw [hcalls] at hcall
  exact ⟨sender, req, henv ▸ hs, henv ▸ hsent, serve_ordered hgob (hlog g) hallowed hcall hret⟩

end Handlers

/-! ### A gob for one key -/

section Sample

/-- The table with one entry, that of the key `a`. -/
def oneEntry : Table Bytes ℕ := fun key => if key = [97] then some ⟨7, 1⟩ else none

/-- The tables that a `Put` of 7 under the key `a` leads to. -/
def Small (m : Table Bytes ℕ) : Prop := m = .empty ∨ m = oneEntry

theorem small_of {m : Table Bytes ℕ} (h : ∀ key, key ≠ [97] → m key = none)
    (ha : m [97] = none ∨ m [97] = some ⟨7, 1⟩) : Small m := by
  rcases ha with ha | ha
  · left
    funext key
    by_cases e : key = [97]
    · rw [e, ha]
      rfl
    · exact h key e
  · right
    funext key
    by_cases e : key = [97]
    · rw [e, ha]
      rfl
    · rw [h key e, oneEntry, if_neg e]

/-- Some entries of a small table. -/
theorem small_of_le {m m' : Table Bytes ℕ} (h : Small m) (hle : ∀ key, m' key = m key ∨ m' key = none) :
    Small m' := by
  refine small_of (fun key hkey => ?_) ?_
  · rcases hle key with e | e
    · rw [e]
      rcases h with rfl | rfl
      · rfl
      · exact if_neg hkey
    · exact e
  · rcases hle [97] with e | e
    · rw [e]
      rcases h with rfl | rfl
      · exact .inl rfl
      · exact .inr rfl
    · exact .inl e

/-- The requests of the sample: `Get` of the key, the first `Put`, and what controllers ask for. -/
def SampleReq : Req ℕ → Prop
  | .get args => args = ⟨[97]⟩
  | .put args => args = ⟨[97], 7, 0⟩
  | .freezeShard _ | .deleteShard _ => True
  | .installShard args => ∀ m, args.state = some m → Small m

theorem small_doOp {kv : KVServer ℕ} {req : Req ℕ} (h : Small kv.kvMap) (hreq : SampleReq req) :
    Small (kv.doOp req).1.kvMap := by
  cases req with
  | get args => exact h
  | put args =>
      cases hreq
      simp only [KVServer.doOp, KVServer.doPut]
      split
      · exact h
      · rcases h with e | e
        · right
          show (putEntry kv.kvMap _).1 = oneEntry
          rw [e]
          funext key
          by_cases hk : key = [97]
          · rw [hk]
            decide
          · simp [putEntry, Table.empty, oneEntry, hk]
        · right
          show (putEntry kv.kvMap _).1 = oneEntry
          rw [e]
          rfl
  | freezeShard args =>
      simp only [KVServer.doOp, KVServer.doFreezeShard]
      split <;> exact h
  | installShard args =>
      simp only [KVServer.doOp, KVServer.doInstallShard]
      split
      · exact h
      · show Small (Slot.load args.state kv.kvMap)
        cases hst : args.state with
        | none => exact h
        | some m =>
            rcases hreq m hst with rfl | rfl
            · exact h
            · right
              rcases h with e | e
              · rw [e]
                funext key
                show (oneEntry key).or none = _
                exact Option.or_none
              · rw [e]
                funext key
                exact Option.or_self
  | deleteShard args =>
      simp only [KVServer.doOp, KVServer.doDeleteShard]
      split
      · exact h
      · refine small_of_le h fun key => ?_
        by_cases hk : key2Shard key = args.shard
        · exact .inr (if_pos hk)
        · exact .inl (if_neg hk)

theorem small_foldOps (gid : Tgid) (log : List (Req ℕ)) (h : ∀ req ∈ log, SampleReq req) :
    Small ((startServerShardGrp gid).foldOps log).kvMap := by
  induction log using List.reverseRecOn with
  | nil => exact .inl rfl
  | append_singleton l req ih =>
      rw [KVServer.foldOps, List.foldl_append]
      exact small_doOp (ih fun r hr => h r (List.mem_append_left _ hr))
        (h req (List.mem_append_right _ (List.mem_singleton_self req)))

theorem closed_sampleReq : Closed SampleReq where
  freeze _ _ := trivial
  delete _ _ := trivial
  install gid log args hlog sh num := by
    intro m hm
    simp only [KVServer.doFreezeShard] at hm
    split at hm
    · cases hm
    · cases hm
      refine small_of_le (small_foldOps gid log hlog) fun key => ?_
      by_cases hk : key2Shard key = args.shard
      · exact .inl (restrict_of_eq _ hk)
      · exact .inr (restrict_of_ne _ hk)

def shardOf (b : UInt8) : Tshid := ⟨b.toNat % nShards, Nat.mod_lt _ (by decide)⟩

/-- The shard as a byte, the number in unary. -/
def shardCmd (tag : UInt8) (sh : Tshid) (num : ℕ) : Bytes :=
  tag :: UInt8.ofNat sh.val :: List.replicate num 0

def hasEntry (m : Table Bytes ℕ) : Bool := (m [97]).isSome

def phaseNum : Phase → Fin 3
  | .away => 0
  | .ready => 1
  | .frozen => 2

def numPhase (k : Fin 3) : Phase := if k = 0 then .away else if k = 1 then .ready else .frozen

/-- What a snapshot has of a server with a small table. -/
def serverCode (kv : KVServer ℕ) : Bool × (Tshid → Fin 3) × (Tshid → ℕ) :=
  (hasEntry kv.kvMap, fun sh => phaseNum (kv.shardState sh), kv.cfgNum)

def ofServerCode (x : Bool × (Tshid → Fin 3) × (Tshid → ℕ)) : KVServer ℕ where
  kvMap := if x.1 then oneEntry else .empty
  shardState sh := numPhase (x.2.1 sh)
  cfgNum := x.2.2

def sampleGob : Gob ℕ where
  encodeOp
    | .get _ => [0]
    | .put _ => [1]
    | .freezeShard args => shardCmd 2 args.shard args.num
    | .deleteShard args => shardCmd 3 args.shard args.num
    | .installShard args =>
        let tag :=
          match args.state with
          | none => 4
          | some m => if hasEntry m then 6 else 5
        shardCmd tag args.shard args.num
  decodeOp
    | [1] => .put ⟨[97], 7, 0⟩
    | 2 :: b :: l => .freezeShard ⟨shardOf b, l.length⟩
    | 3 :: b :: l => .deleteShard ⟨shardOf b, l.length⟩
    | 4 :: b :: l => .installShard ⟨shardOf b, none, l.length⟩
    | 5 :: b :: l => .installShard ⟨shardOf b, some .empty, l.length⟩
    | 6 :: b :: l => .installShard ⟨shardOf b, some oneEntry, l.length⟩
    | _ => .get ⟨[97]⟩
  encode kv := 1 :: List.replicate (Encodable.encode (serverCode kv)) 0
  decode data :=
    match Encodable.decode (data.length - 1) with
    | some x => ofServerCode x
    | none => startServerShardGrp 0

theorem shardOf_ofNat : ∀ sh : Tshid, shardOf (UInt8.ofNat sh.val) = sh := by decide

theorem Small.eq {m : Table Bytes ℕ} (h : Small m) :
    m = if hasEntry m then oneEntry else .empty := by
  rcases h with rfl | rfl <;> rfl

theorem ofServerCode_serverCode {kv : KVServer ℕ} (h : Small kv.kvMap) :
    ofServerCode (serverCode kv) = kv := by
  obtain ⟨kvMap, shardState, cfgNum⟩ := kv
  have hmap : (if hasEntry kvMap then oneEntry else .empty) = kvMap := h.eq.symm
  have hphase : (fun sh => numPhase (phaseNum (shardState sh))) = shardState := by
    funext sh
    cases shardState sh <;> rfl
  show KVServer.mk (if hasEntry kvMap then oneEntry else .empty)
    (fun sh => numPhase (phaseNum (shardState sh))) cfgNum = _
  rw [hmap, hphase]

theorem sampleGob_sound : sampleGob.Sound SampleReq where
  op req h := by
    cases req with
    | get args =>
        cases h
        rfl
    | put args =>
        cases h
        rfl
    | freezeShard args =>
        show Req.freezeShard ⟨shardOf _, (List.replicate _ _).length⟩ = _
        rw [shardOf_ofNat, List.length_replicate]
    | deleteShard args =>
        show Req.deleteShard ⟨shardOf _, (List.replicate _ _).length⟩ = _
        rw [shardOf_ofNat, List.length_replicate]
    | installShard args =>
        obtain ⟨sh, state, num⟩ := args
        cases state with
        | none =>
            show Req.installShard ⟨shardOf _, none, (List.replicate _ _).length⟩ = _
            rw [shardOf_ofNat, List.length_replicate]
        | some m =>
            rcases h m rfl with rfl | rfl
            · show Req.installShard ⟨shardOf _, some .empty, (List.replicate _ _).length⟩ = _
              rw [shardOf_ofNat, List.length_replicate]
            · show Req.installShard ⟨shardOf _, some oneEntry, (List.replicate _ _).length⟩ = _
              rw [shardOf_ofNat, List.length_replicate]
  state gid log hlog := by
    show (match Encodable.decode ((1 :: List.replicate _ (0 : UInt8)).length - 1) with
      | some x => ofServerCode x
      | none => startServerShardGrp 0) = _
    rw [List.length_cons, List.length_replicate, Nat.add_sub_cancel, Encodable.encodek]
    exact ofServerCode_serverCode (small_foldOps gid log hlog)
  ne _ := by exact nofun

/-! ### Two leaders and one index -/

def samplePut : Req ℕ := .put ⟨[97], 7, 0⟩

def sampleGet : Req ℕ := .get ⟨[97]⟩

abbrev GroupScript := List (Group ℕ ℕ → Kvraft1.Service.Action ℕ Bytes)

def ownAt (n : ℕ) (ev : Event ℕ (Kvraft1.Rsm.Op Bytes)) :
    Group ℕ ℕ → Kvraft1.Service.Action ℕ Bytes :=
  fun _ => .run (.own n ev)

def hearAt (n k : ℕ) (s : Group ℕ ℕ) : Kvraft1.Service.Action ℕ Bytes :=
  .run (.own n (match s.cluster.net[k]? with
    | some m => .deliver m
    | none => .tickerArm))

/-- The `j`-th reply arrives, at the `k`-th open call of the server. -/
def getAt (n k j : ℕ) (s : Group ℕ ℕ) : Kvraft1.Service.Action ℕ Bytes :=
  .run (.own n (match s.cluster.replies[j]? with
    | some x => .reply k x.2
    | none => .tickerArm))

/-- A handler of server `n` calls Submit `c`, which waits. -/
def handlerAt (n c : ℕ) (req : Req ℕ) : GroupScript :=
  [fun _ => .submit n (sampleGob.encodeOp req), fun _ => .turn c (.getState true),
    fun _ => .run (.start c (11 + c)), fun _ => .turn c .register]

/-- Server `n` takes an entry, and Submit `c` hears of it. -/
def appliedAt (n c : ℕ) : GroupScript :=
  [ownAt n .applyBatch, fun _ => .run (.handle n), fun _ => .notify n, fun _ => .turn c .receive]

/-- Server 0 leads and is told index 1 for a `Put`, which it does not send. Server 1 wins the next
    term; a `Get` there is committed at index 1 with server 0, and both run it. -/
def putThenGet : GroupScript :=
  [ownAt 0 .tickerArm, ownAt 0 .tickerFire, hearAt 1 0, getAt 0 0 0] ++
  handlerAt 0 0 samplePut ++
  [ownAt 1 .tickerArm, ownAt 1 .tickerFire, hearAt 2 3, getAt 1 1 1] ++
  handlerAt 1 1 sampleGet ++
  [ownAt 1 .heartbeat, hearAt 0 4, getAt 1 1 2] ++ appliedAt 1 1 ++
  [ownAt 1 .heartbeat, hearAt 0 6] ++ appliedAt 0 0

/-- The commands of the sample. -/
def sampleSubmit : Kvraft1.Service.Action ℕ Bytes → Bool
  | .submit _ cmd => cmd = sampleGob.encodeOp samplePut ∨ cmd = sampleGob.encodeOp sampleGet
  | _ => true

theorem allowed_of_sampleSubmit {act : Kvraft1.Service.Action ℕ Bytes}
    (h : sampleSubmit act = true) : act.Allowed (sampleGob.Cmd SampleReq) := by
  cases act with
  | submit n cmd =>
      rcases of_decide_eq_true h with e | e
      · exact ⟨samplePut, rfl, e⟩
      · exact ⟨sampleGet, rfl, e⟩
  | turn | run | crash | restart | notify | skip => trivial

/-- What Submit `c` has returned, as a clerk reads it. -/
def outcomeOf (s : Group ℕ ℕ) (c : ℕ) : Option (Err × Option (Answer ℕ)) :=
  s.rsms.hist.findSome? fun e =>
    match e with
    | .returned c' err res => if c' = c then some (err, res.bind asAnswer) else none
    | _ => none

theorem of_outcomeOf {s : Group ℕ ℕ} {c : ℕ} {err : Err} {ans : Option (Answer ℕ)}
    (h : outcomeOf s c = some (err, ans)) :
    ∃ res, .returned c err res ∈ s.rsms.hist ∧ res.bind asAnswer = ans := by
  obtain ⟨e, he, h⟩ := List.exists_of_findSome?_eq_some h
  split at h
  next c' err' res =>
    split at h
    next e =>
      cases e
      cases h
      exact ⟨res, he, rfl⟩
    next => cases h
  next => cases h

/-- `readApplyCh` of server 0 meets the `Get` at the index that the `Put` waits for: the handler of
    the `Put` answers `ErrWrongLeader`, that of the `Get` its answer. -/
theorem handlers_answer_sample : ∃ s : Group ℕ ℕ,
    s.Reachable (sampleGob.app 1) Raft1.three (sampleGob.Cmd SampleReq) ∧
    s.calls = [sampleGob.encodeOp samplePut, sampleGob.encodeOp sampleGet] ∧
    (∃ res, .returned 0 .errWrongLeader res ∈ s.rsms.hist ∧
      ∃ reply, serve samplePut .errWrongLeader res = some reply) ∧
    ∃ reply, .returned 1 .ok (some reply) ∈ s.rsms.hist ∧
      asAnswer reply = some (.get ⟨0, 0, .errNoKey⟩) ∧
      serve sampleGet .ok (some reply) = some reply := by
  have hplay : ((play (guarded (fun s act => sampleSubmit (act s) = true)
      fun s act => Kvraft1.Service.System.next (sampleGob.app 1) Raft1.three s (act s))
        (.init (sampleGob.app 1)) putThenGet).map fun s => decide (
          s.calls = [sampleGob.encodeOp samplePut, sampleGob.encodeOp sampleGet] ∧
          outcomeOf s 0 = some (.errWrongLeader, none) ∧
          outcomeOf s 1 = some (.ok, some (.get ⟨0, 0, .errNoKey⟩)))) = some true := by
    decide +kernel
  obtain ⟨s, hs, hread⟩ := Option.map_eq_some_iff.mp hplay
  obtain ⟨hcalls, h0, h1⟩ := of_decide_eq_true hread
  obtain ⟨res0, hret0, _⟩ := of_outcomeOf h0
  obtain ⟨res1, hret1, hans⟩ := of_outcomeOf h1
  have hreach : s.Reachable (sampleGob.app 1) Raft1.three (sampleGob.Cmd SampleReq) :=
    (play_guarded_run hs).lift id fun s _ ⟨act, hact, hs⟩ => ⟨act s, allowed_of_sampleSubmit hact, hs⟩
  have hcall0 : s.calls[0]? = some (sampleGob.encodeOp samplePut) := congrArg (·[0]?) hcalls
  have hcall1 : s.calls[1]? = some (sampleGob.encodeOp sampleGet) := congrArg (·[1]?) hcalls
  have hput : SampleReq samplePut := rfl
  have hget : SampleReq sampleGet := rfl
  obtain ⟨reply0, hserve0, _⟩ := handlers_answer sampleGob_sound hreach hput hcall0 hret0
  obtain ⟨reply1, hserve1, hok⟩ := handlers_answer sampleGob_sound hreach hget hcall1 hret1
  cases hok rfl
  exact ⟨s, hreach, hcalls, ⟨res0, hret0, reply0, hserve0⟩, reply1, hret1, hans, hserve1⟩

end Sample

end RaftLab.Shardkv1.Fleet

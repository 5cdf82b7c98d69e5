/-
  File:      RaftLab/Kvraft1/Sections.lean
  Subject:   `src/kvraft1/rsm/rsm.go` over a Raft of its own: what a server does without a break.

  The servers are a Raft cluster (Raft1/Cluster.lean) and RSMs (Rsm.lean). What happens without a
  break is a critical section of Raft with what its caller does around it (`Entry`). `Start` is
  called with `mu` held and answered by the server's own Raft, and so is `GetState`; `readApplyCh`
  takes a message that its Raft sends and runs `DoOp` or `Restore`; `Snapshot` hands Raft the state
  of the server's own state machine. Whether the log is longer than `maxraftstate` is left open
  (`compact`, `skip`). A process may die at rest or inside any section, and what a crash leaves of
  Raft's writes is up to Raft1/Cluster.lean.

  * `Place` -- which RSM is whose;
  * `enter`, `step` -- the sections and the steps. A step in which a process dies says of which node
    (`Stepped.died`): what is left of its state machine and of its Submits is up to the service, and
    the services differ there (Service.lean, Raftkvd.lean);
  * `enter_iff`, `step_iff` -- **all that a section and a step can do**.
-/
import RaftLab.Kvraft1.Rsm
import RaftLab.Raft1.Cluster

namespace RaftLab.Kvraft1.Service

open RaftLab.Lib RaftLab.Raft1

variable {σ NodeID Srv Req Res : Type}

/-! ## 1. The servers -/

/-- `rsm.StateMachine`, with the state that a server is made with. -/
structure App (σ Req Res : Type) extends Machine σ Req Res where
  snapshot : σ → Bytes
  restore : Bytes → σ

/-- The RSM that a node runs, and the node that an RSM is at. -/
structure Place (NodeID Srv : Type) where
  proc : NodeID → Srv
  node : Srv → NodeID

/-- The RSM is the one that its node runs. -/
abbrev Place.Runs (place : Place NodeID Srv) (srv : Srv) : Prop :=
  srv = place.proc (place.node srv)

/-! ## 2. What is done -/

/-- A section of Raft, and who runs it. -/
inductive Entry (NodeID Req : Type) where
  /-- One of Raft's own goroutines or RPC handlers. -/
  | own (n : NodeID) (ev : Event NodeID (Rsm.Op Req))
  /-- `Start`, called by Submit `c` with the number it has drawn. -/
  | start (c hashNum : ℕ)
  /-- `readApplyCh` takes a message. -/
  | handle (n : NodeID)
  /-- `readApplyCh` calls `Snapshot`. -/
  | compact (n : NodeID)

inductive Action (NodeID Req : Type) where
  | submit (n : NodeID) (req : Req)
  /-- A step of Submit `c` other than `Start`. -/
  | turn (c : ℕ) (t : Rsm.Turn)
  | run (e : Entry NodeID Req)
  | crash (e : Entry NodeID Req) (k j : ℕ)
  | restart (n : NodeID)
  /-- `readApplyCh` looks for the Submit that waits. -/
  | notify (n : NodeID)
  /-- The log is short, or `maxraftstate` is -1: no `Snapshot`. -/
  | skip (n : NodeID)

/-- The requests that are submitted. -/
def Action.Allowed (allowed : Req → Prop) : Action NodeID Req → Prop
  | .submit _ req => allowed req
  | _ => True

/-- The events that are no call by the service. -/
def isOwn : Event NodeID (Rsm.Op Req) → Bool
  | .start _ | .apply | .snapshot _ _ => false
  | _ => true

/-- `Start` as the RSM reads its answer. -/
def startAnswer (rf : Raft NodeID (Rsm.Op Req)) (op : Rsm.Op Req) : Option (ℕ × ℕ) :=
  match rf.start op with
  | (_, index, term, ok) => if ok then some (index.toNat, term) else none

/-- Only a leader takes the command, and puts it behind its log. -/
theorem startAnswer_iff {rf : Raft NodeID (Rsm.Op Req)} {op : Rsm.Op Req} {i term : ℕ} :
    startAnswer rf op = some (i, term) ↔
      rf.customerId = .leader ∧ i = rf.lastLogIndex + 1 ∧ term = rf.term := by
  unfold startAnswer Raft.start
  by_cases hl : rf.customerId = .leader
  · simp only [hl, ne_eq, not_true_eq_false, if_false, if_true, Option.some.injEq, Prod.mk.injEq,
      true_and]
    omega
  · simp [hl]

/-- One turn of `readApplyCh`, up to the lock. -/
def readMsg (app : App σ Req Res) (r : Rsm.RSM σ Req Res) (msg : ApplyMsg (Rsm.Op Req)) :
    Rsm.RSM σ Req Res :=
  if msg.commandValid then
    let (sm, res) := app.step msg.commandIndex r.sm msg.command.opcommad
    { r with
      sm := sm
      applied := msg.commandIndex
      loop := .done msg.commandIndex msg.command res }
  else if msg.snapshotValid then
    { r with sm := app.restore (msg.snapshot.getD []), applied := msg.snapshotIndex }
  else
    r

section Messages

variable {app : App σ Req Res} {r : Rsm.RSM σ Req Res} {msg : ApplyMsg (Rsm.Op Req)}

theorem readMsg_command (hc : msg.commandValid = true) : readMsg app r msg = { r with
    sm := (app.step msg.commandIndex r.sm msg.command.opcommad).1
    applied := msg.commandIndex
    loop := .done msg.commandIndex msg.command
      (app.step msg.commandIndex r.sm msg.command.opcommad).2 } := by
  rw [readMsg, if_pos hc]

theorem readMsg_snapshot (hc : msg.commandValid = false) (hs : msg.snapshotValid = true) :
    readMsg app r msg = { r with
      sm := app.restore (msg.snapshot.getD [])
      applied := msg.snapshotIndex } := by
  rw [readMsg, if_neg (by rw [hc]; exact Bool.false_ne_true), if_pos hs]

end Messages

section Steps

variable [DecidableEq NodeID]

/-- `GetState` is answered by the server's Raft; `Start` is a section of its own. -/
def told (rf : Raft NodeID (Rsm.Op Req)) (me : NodeID) : Rsm.Turn → Bool
  | .getState isLeader => isLeader = (rf.getState me).2
  | .tick isLeader newTerm => (newTerm, isLeader) = rf.getState me
  | .start _ _ => false
  | _ => true

/-- Raft and the RSMs after a step, and the node whose process has died in it. -/
structure Stepped (σ NodeID Srv Req Res : Type) where
  cluster : Cluster NodeID (Rsm.Op Req)
  rsms : Rsm.System σ Srv Req Res
  died : Option NodeID

variable [DecidableEq Srv] (app : App σ Req Res) (place : Place NodeID Srv)

/-- The node of a section, its event, and the RSMs once its caller has gone on. -/
def enter (cluster : Cluster NodeID (Rsm.Op Req)) (rsms : Rsm.System σ Srv Req Res) :
    Entry NodeID Req → Option (NodeID × Event NodeID (Rsm.Op Req) × Rsm.System σ Srv Req Res)
  | .own n ev => if isOwn ev then some (n, ev, rsms) else none
  | .start c hashNum => do
      let x ← rsms.submits[c]?
      if place.Runs x.srv then
        let op : Rsm.Op Req := ⟨x.req, hashNum⟩
        let answer := startAnswer (cluster.node (place.node x.srv)).rf op
        let rsms ← rsms.turn c x (.start hashNum answer)
        some (place.node x.srv, .start op, rsms)
      else
        none
  | .handle n =>
      let r := rsms.rsm (place.proc n)
      match r.loop, (cluster.node n).applying with
      | .reading, msg :: _ => some (n, .apply, rsms.setRsm (place.proc n) (readMsg app r msg))
      | _, _ => none
  | .compact n =>
      let r := rsms.rsm (place.proc n)
      match r.loop with
      | .notified index =>
          some (n, .snapshot index (app.snapshot r.sm),
            rsms.setRsm (place.proc n) { r with loop := .reading })
      | _ => none

variable [DecidableEq Req] [Inhabited (Rsm.Op Req)] (cfg : Config NodeID)

/-- **One step of the servers.** -/
def step (cluster : Cluster NodeID (Rsm.Op Req)) (rsms : Rsm.System σ Srv Req Res) :
    Action NodeID Req → Option (Stepped σ NodeID Srv Req Res)
  | .submit n req => do
      let rsms ← rsms.next app.toMachine (.submit (place.proc n) req)
      some ⟨cluster, rsms, none⟩
  | .turn c t => do
      let x ← rsms.submits[c]?
      if place.Runs x.srv ∧ told (cluster.node (place.node x.srv)).rf (place.node x.srv) t then
        let rsms ← rsms.turn c x t
        some ⟨cluster, rsms, none⟩
      else
        none
  | .run e => do
      let (n, ev, rsms) ← enter app place cluster rsms e
      let cluster ← cluster.next cfg n (.run ev)
      some ⟨cluster, rsms, none⟩
  | .crash e k j => do
      let (n, ev, rsms) ← enter app place cluster rsms e
      let cluster ← cluster.next cfg n (.crash ev k j)
      some ⟨cluster, rsms, some n⟩
  | .restart n => do
      let cluster ← cluster.next cfg n .restart
      some ⟨cluster, rsms, some n⟩
  | .notify n => do
      let rsms ← rsms.notify (place.proc n)
      some ⟨cluster, rsms, none⟩
  | .skip n =>
      let r := rsms.rsm (place.proc n)
      match r.loop with
      | .notified _ =>
          some ⟨cluster, rsms.setRsm (place.proc n) { r with loop := .reading }, none⟩
      | _ => none

end Steps

/-! ## 3. What a step can do -/

section Cases

variable [DecidableEq Srv]

/-- What the caller of a section does. -/
inductive Enters (app : App σ Req Res) (place : Place NodeID Srv)
    (cluster : Cluster NodeID (Rsm.Op Req)) (rsms : Rsm.System σ Srv Req Res) :
    Entry NodeID Req → NodeID → Event NodeID (Rsm.Op Req) → Rsm.System σ Srv Req Res → Prop where
  | own {n : NodeID} {ev : Event NodeID (Rsm.Op Req)} (hown : isOwn ev = true) :
      Enters app place cluster rsms (.own n ev) n ev rsms
  | start {c hashNum : ℕ} {x : Rsm.Submit Srv Req Res} {rsms' : Rsm.System σ Srv Req Res}
      (hx : rsms.submits[c]? = some x) (hruns : place.Runs x.srv)
      (ht : rsms.turn c x (.start hashNum
        (startAnswer (cluster.node (place.node x.srv)).rf ⟨x.req, hashNum⟩)) = some rsms') :
      Enters app place cluster rsms (.start c hashNum) (place.node x.srv)
        (.start ⟨x.req, hashNum⟩) rsms'
  | handle {n : NodeID} {msg : ApplyMsg (Rsm.Op Req)} {rest : List (ApplyMsg (Rsm.Op Req))}
      (hloop : (rsms.rsm (place.proc n)).loop = .reading)
      (happ : (cluster.node n).applying = msg :: rest) :
      Enters app place cluster rsms (.handle n) n .apply
        (rsms.setRsm (place.proc n) (readMsg app (rsms.rsm (place.proc n)) msg))
  | compact {n : NodeID} {index : ℕ} (hloop : (rsms.rsm (place.proc n)).loop = .notified index) :
      Enters app place cluster rsms (.compact n) n
        (.snapshot index (app.snapshot (rsms.rsm (place.proc n)).sm))
        (rsms.setRsm (place.proc n) { rsms.rsm (place.proc n) with loop := .reading })

variable {app : App σ Req Res} {place : Place NodeID Srv}
  {cluster : Cluster NodeID (Rsm.Op Req)} {rsms rsms' : Rsm.System σ Srv Req Res} {n : NodeID}
  {ev : Event NodeID (Rsm.Op Req)}

theorem enter_iff {e : Entry NodeID Req} :
    enter app place cluster rsms e = some (n, ev, rsms') ↔
      Enters app place cluster rsms e n ev rsms' := by
  constructor
  · intro h
    cases e with
    | own m ev' =>
        simp only [enter] at h
        split at h
        next hown =>
          cases h
          exact .own hown
        next => cases h
    | start c hashNum =>
        obtain ⟨x, hx, h⟩ := Option.bind_eq_some_iff.mp h
        split at h
        next hruns =>
          obtain ⟨rsms', ht, h⟩ := Option.bind_eq_some_iff.mp h
          cases h
          exact .start hx hruns ht
        next => cases h
    | handle m =>
        simp only [enter] at h
        split at h
        next msg rest hloop happ =>
          cases h
          exact .handle hloop happ
        next => cases h
    | compact m =>
        simp only [enter] at h
        split at h
        next index hloop =>
          cases h
          exact .compact hloop
        next => cases h
  · intro h
    cases h with
    | own hown => rw [enter, if_pos hown]
    | start hx hruns ht =>
        refine Option.bind_eq_some_iff.mpr ⟨_, hx, ?_⟩
        rw [if_pos hruns]
        exact Option.bind_eq_some_iff.mpr ⟨_, ht, rfl⟩
    | handle hloop happ => simp only [enter, hloop, happ]
    | compact hloop => simp only [enter, hloop]

variable [DecidableEq NodeID] [DecidableEq Req] [Inhabited (Rsm.Op Req)] {cfg : Config NodeID}

/-- What the servers do. -/
inductive Steps (app : App σ Req Res) (place : Place NodeID Srv) (cfg : Config NodeID)
    (cluster : Cluster NodeID (Rsm.Op Req)) (rsms : Rsm.System σ Srv Req Res) :
    Action NodeID Req → Stepped σ NodeID Srv Req Res → Prop where
  | submit {n : NodeID} {req : Req} {rsms' : Rsm.System σ Srv Req Res}
      (hsubmit : rsms.next app.toMachine (.submit (place.proc n) req) = some rsms') :
      Steps app place cfg cluster rsms (.submit n req) ⟨cluster, rsms', none⟩
  | turn {c : ℕ} {t : Rsm.Turn} {x : Rsm.Submit Srv Req Res} {rsms' : Rsm.System σ Srv Req Res}
      (hx : rsms.submits[c]? = some x) (hruns : place.Runs x.srv)
      (htold : told (cluster.node (place.node x.srv)).rf (place.node x.srv) t = true)
      (ht : rsms.turn c x t = some rsms') :
      Steps app place cfg cluster rsms (.turn c t) ⟨cluster, rsms', none⟩
  | run {e : Entry NodeID Req} {n : NodeID} {ev : Event NodeID (Rsm.Op Req)}
      {rsms' : Rsm.System σ Srv Req Res} {cluster' : Cluster NodeID (Rsm.Op Req)}
      (he : Enters app place cluster rsms e n ev rsms')
      (hc : cluster.next cfg n (.run ev) = some cluster') :
      Steps app place cfg cluster rsms (.run e) ⟨cluster', rsms', none⟩
  | crash {e : Entry NodeID Req} {n : NodeID} {ev : Event NodeID (Rsm.Op Req)} {k j : ℕ}
      {rsms' : Rsm.System σ Srv Req Res} {cluster' : Cluster NodeID (Rsm.Op Req)}
      (he : Enters app place cluster rsms e n ev rsms')
      (hc : cluster.next cfg n (.crash ev k j) = some cluster') :
      Steps app place cfg cluster rsms (.crash e k j) ⟨cluster', rsms', some n⟩
  | restart {n : NodeID} {cluster' : Cluster NodeID (Rsm.Op Req)}
      (hc : cluster.next cfg n .restart = some cluster') :
      Steps app place cfg cluster rsms (.restart n) ⟨cluster', rsms, some n⟩
  | notify {n : NodeID} {rsms' : Rsm.System σ Srv Req Res}
      (ht : rsms.notify (place.proc n) = some rsms') :
      Steps app place cfg cluster rsms (.notify n) ⟨cluster, rsms', none⟩
  | skip {n : NodeID} {index : ℕ} (hloop : (rsms.rsm (place.proc n)).loop = .notified index) :
      Steps app place cfg cluster rsms (.skip n) ⟨cluster,
        rsms.setRsm (place.proc n) { rsms.rsm (place.proc n) with loop := .reading }, none⟩

theorem step_iff {act : Action NodeID Req} {o : Stepped σ NodeID Srv Req Res} :
    step app place cfg cluster rsms act = some o ↔ Steps app place cfg cluster rsms act o := by
  constructor
  · intro h
    cases act with
    | submit n req =>
        cases h
        exact .submit rfl
    | turn c t =>
        obtain ⟨x, hx, h⟩ := Option.bind_eq_some_iff.mp h
        split at h
        next hcond =>
          obtain ⟨rsms', ht, h⟩ := Option.bind_eq_some_iff.mp h
          cases h
          exact .turn hx hcond.1 hcond.2 ht
        next => cases h
    | run e =>
        obtain ⟨⟨n, ev, rsms'⟩, he, h⟩ := Option.bind_eq_some_iff.mp h
        obtain ⟨cluster', hc, h⟩ := Option.bind_eq_some_iff.mp h
        cases h
        exact .run (enter_iff.mp he) hc
    | crash e k j =>
        obtain ⟨⟨n, ev, rsms'⟩, he, h⟩ := Option.bind_eq_some_iff.mp h
        obtain ⟨cluster', hc, h⟩ := Option.bind_eq_some_iff.mp h
        cases h
        exact .crash (enter_iff.mp he) hc
    | restart n =>
        obtain ⟨cluster', hc, h⟩ := Option.bind_eq_some_iff.mp h
        cases h
        exact .restart hc
    | notify n =>
        obtain ⟨rsms', ht, h⟩ := Option.bind_eq_some_iff.mp h
        cases h
        exact .notify ht
    | skip n =>
        simp only [step] at h
        split at h
        next index hloop =>
          cases h
          exact .skip hloop
        next => cases h
  · intro h
    cases h with
    | submit hsubmit =>
        cases hsubmit
        rfl
    | turn hx hruns htold ht =>
        refine Option.bind_eq_some_iff.mpr ⟨_, hx, ?_⟩
        rw [if_pos ⟨hruns, htold⟩]
        exact Option.bind_eq_some_iff.mpr ⟨_, ht, rfl⟩
    | run he hc | crash he hc =>
        refine Option.bind_eq_some_iff.mpr ⟨_, enter_iff.mpr he, ?_⟩
        exact Option.bind_eq_some_iff.mpr ⟨_, hc, rfl⟩
    | restart hc => exact Option.bind_eq_some_iff.mpr ⟨_, hc, rfl⟩
    | notify ht => exact Option.bind_eq_some_iff.mpr ⟨_, ht, rfl⟩
    | skip hloop => simp only [step, hloop]

end Cases

end RaftLab.Kvraft1.Service

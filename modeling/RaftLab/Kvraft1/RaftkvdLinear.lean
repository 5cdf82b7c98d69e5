/-
  File:      RaftLab/Kvraft1/RaftkvdLinear.lean
  Subject:   A cluster of raftkvd nodes is linearizable (Raftkvd.lean).

  A node that is started again keeps its database and is handed the log again from Raft's snapshot
  on, so its store is ahead of what it is told. The run is compared with one of Service.lean, in
  which the new process restores Raft's snapshot and executes everything again: the Raft cluster is
  the same, the RSMs are alike (Processes.lean), and the store is where some later index of the same
  log leads to (`Executed`). It works because

  * an entry at or below the store's applied index is skipped, and nobody waits for it
    (RaftkvdSafety.lean);
  * between the applied index and what was executed before nothing was written, so the entry is
    executed on the state it was executed on before (`after_stable`);
  * a compaction that is not ahead packs the state of its own index.

  **`raftkvd_linearizable`**: the Submits of all nodes are linearized by one log, as operations of
  one map in memory, and every database holds what a beginning of that log leads to, in every run in
  which no node compacts ahead and none dies between the moment Raft has saved an installed snapshot
  and the end of `Restore`. Without the first condition a client may get nil (`skipped_for_waiter`),
  without the second entries are lost (`installed_snapshot_lost`).
-/
import RaftLab.Kvraft1.Processes
import RaftLab.Kvraft1.RaftkvdSafety
import RaftLab.Kvraft1.ServiceSafety

namespace RaftLab.Kvraft1.Raftkvd

open RaftLab.Lib RaftLab.Raft1 RaftLab.Kvsrv1 Relation

variable {NodeID Key Value : Type}

/-! ## 1. The store along a log -/

section Store

variable [DecidableEq Key] [Inhabited Value]

/-- `KVServer` over a `mapStore`: one map in memory. -/
def memory : Machine (MapStore Key Value) (Req Key Value) (Result Value) :=
  ⟨newMapStore, fun index s req => doOp s index req⟩

variable (log : List (Req Key Value))

/-- **Nothing is written above the applied index.** -/
theorem after_stable {i j : ℕ} (hj : (machine.after log i).applied ≤ j) (hji : j ≤ i) :
    machine.after log j = machine.after log i := by
  induction i with
  | zero => rw [Nat.le_zero.mp hji]
  | succ i ih =>
      rcases Nat.eq_or_lt_of_le hji with rfl | hlt
      · rfl
      · have hsame : machine.after log (i + 1) = machine.after log i := by
          cases hop : log[i]? with
          | none => simp only [Machine.after, hop]
          | some op =>
              rw [Machine.after_succ hop] at hj ⊢
              refine (doOp_applied (machine.after log i) (i + 1) op).resolve_right fun e => ?_
              have : (doOp (machine.after log i) (i + 1) op).1.applied ≤ j := hj
              omega
        rw [hsame] at hj ⊢
        exact ih hj (Nat.le_of_lt_succ hlt)

/-- The database holds what the map in memory holds. -/
theorem after_kv (i : ℕ) : (machine.after log i).kv = (memory.after log i).m := by
  induction i with
  | zero => rfl
  | succ i ih =>
      cases hop : log[i]? with
      | none =>
          simp only [Machine.after, hop]
          exact ih
      | some op =>
          rw [Machine.after_succ hop, Machine.after_succ hop]
          refine (doOp_store op (Nat.lt_succ_of_le (after_applied_le log i))).1.trans ?_
          rw [ih]
          rfl

/-- Nothing is skipped along a log, so the answers are those of the map in memory. -/
theorem memory_resultAt (k : ℕ) : memory.resultAt log k = machine.resultAt log k := by
  cases hop : log[k]? with
  | none => simp only [Machine.resultAt, hop, Option.map_none]
  | some op =>
      rw [Machine.resultAt_eq hop, Machine.resultAt_eq hop]
      refine congrArg some (Eq.symm ?_)
      refine (doOp_store op (Nat.lt_succ_of_le (after_applied_le log k))).2.1.trans ?_
      rw [after_kv]
      rfl

/-- **An entry that is handed over again.** The store is where a later index of the log leads to:
    the entry is skipped, or it is run on the state it belongs to. -/
theorem doOp_again {i d : ℕ} {op : Req Key Value} (hd : d ≤ i) (hi : i ≤ log.length)
    (hlen : d + 1 ≤ log.length)
    (hafter : machine.after log (d + 1) = (doOp (machine.after log d) (d + 1) op).1) :
    ((doOp (machine.after log i) (d + 1) op).2 = none ∨
      (doOp (machine.after log d) (d + 1) op).2 = (doOp (machine.after log i) (d + 1) op).2) ∧
    ∃ i', d + 1 ≤ i' ∧ i' ≤ log.length ∧
      (doOp (machine.after log i) (d + 1) op).1 = machine.after log i' := by
  rcases Nat.lt_or_ge d (machine.after log i).applied with hskip | hrun
  · rw [doOp_skip op hskip]
    exact ⟨.inl rfl, i, hskip.trans_le (after_applied_le log i), hi, rfl⟩
  · rw [← after_stable log hrun hd]
    exact ⟨.inr rfl, d + 1, Nat.le_refl _, hlen, hafter.symm⟩

end Store

/-! ## 2. Deaths that lose nothing -/

section Deaths

variable [DecidableEq NodeID] [DecidableEq Key] [Inhabited Value] [Inhabited Key]
  [DecidableEq Value] (tar : Tar Key Value) (cfg : Config NodeID)

omit [Inhabited Key] [DecidableEq Value] in
/-- The node whose process dies in a step, with its RSM as it dies. -/
def System.dying (s : System NodeID Key Value) : Action NodeID Key Value →
    Option (NodeID × Rsm.RSM (Store Key Value) (Req Key Value) (Result Value))
  | .crash e _ _ => (s.enter tar e).map fun x => (x.1, x.2.2.rsm x.1)
  | .restart n => some (n, s.rsms.rsm n)
  | _ => none

/-- No process dies while Raft's durable snapshot is ahead of its service: of what it was handed,
    and of what the store has applied. -/
def System.safe (s : System NodeID Key Value) (act : Action NodeID Key Value) : Bool :=
  match s.dying tar act, s.next tar cfg act with
  | some (n, r), some s' => (s'.cluster.disk n).snapshotIndex ≤ max r.applied r.sm.applied
  | _, _ => true

/-- The states of runs in which no node compacts ahead of its index and no process dies before it
    has restored the snapshot that Raft has saved. -/
def System.SafeReachable (s : System NodeID Key Value) : Prop :=
  ReflTransGen (fun s s' => ∃ act, (s.Fits act ∧ s.safe tar cfg act = true) ∧
    s.next tar cfg act = some s') .init s

variable {tar cfg} {s : System NodeID Key Value}

theorem System.SafeReachable.fit (h : s.SafeReachable tar cfg) : s.FitReachable tar cfg := by
  refine ReflTransGen.mono ?_ _ _ h
  rintro s s' ⟨act, ⟨hfit, _⟩, hs⟩
  exact ⟨act, hfit, hs⟩

end Deaths

/-! ## 3. The run to compare with -/

section Mirror

variable [DecidableEq Key] [Inhabited Value]

theorem app_roundTrips {tar : Tar Key Value} (hne : ∀ st, tar.pack st ≠ []) :
    (app tar).RoundTrips fun _ => True where
  restore_snapshot _ _ _ := tar.unpack_pack _
  snapshot_ne := hne

/-- The RSM is handed entries up to an index, and its store is where that index or a later one of
    the log leads to. -/
def Executed (log : List (Req Key Value))
    (r : Rsm.RSM (Store Key Value) (Req Key Value) (Result Value)) : Prop :=
  ∃ i, r.applied ≤ i ∧ i ≤ log.length ∧ r.sm = machine.after log i

variable {log log' : List (Req Key Value)}
  {r r' : Rsm.RSM (Store Key Value) (Req Key Value) (Result Value)}

theorem Executed.mono (h : Executed log r) (hl : log <+: log') : Executed log' r := by
  obtain ⟨i, h1, h2, h3⟩ := h
  obtain ⟨l, rfl⟩ := hl
  refine ⟨i, h1, h2.trans ?_, h3.trans (Machine.after_append _ _ h2).symm⟩
  rw [List.length_append]
  exact Nat.le_add_right _ _

theorem Executed.congr (h : Executed log r) (hsm : r'.sm = r.sm)
    (happ : r'.applied = r.applied) : Executed log r' := by
  obtain ⟨i, h1, h2, h3⟩ := h
  exact ⟨i, happ.le.trans h1, h2, hsm.trans h3⟩

/-- The store is not ahead of where it stands, nor behind what it was handed. -/
theorem Executed.sm_eq (h : Executed log r) {j : ℕ} (hj : r.sm.applied ≤ j) (hr : j ≤ r.applied) :
    r.sm = machine.after log j := by
  obtain ⟨i, h1, h2, h3⟩ := h
  rw [h3] at hj
  rw [h3, after_stable log hj (hr.trans h1)]

variable [DecidableEq NodeID]

/-- The RSM of one node is replaced. -/
theorem executed_setRsm {rsms : Servers NodeID Key Value} (h : ∀ m, Executed log (rsms.rsm m))
    {n : NodeID} (hr : Executed log r) (m : NodeID) : Executed log ((rsms.setRsm n r).rsm m) := by
  show Executed log (Function.update rsms.rsm n r m)
  by_cases e : m = n
  · subst e
    rw [Function.update_self]
    exact hr
  · rw [Function.update_of_ne e]
    exact h m

/-- A Submit changes no store. -/
theorem executed_turn {rsms rsms' : Servers NodeID Key Value} {c : ℕ}
    {x : Rsm.Submit NodeID (Req Key Value) (Result Value)} {tn : Rsm.Turn}
    (ht : rsms.turn c x tn = some rsms') {m : NodeID} (h : Executed log (rsms.rsm m)) :
    Executed log (rsms'.rsm m) := by
  have hsame := Rsm.turn_reader ht m
  exact h.congr (congrArg Prod.fst hsame) (congrArg (fun r => r.2.1) hsame)

variable [Inhabited Key]

/-- **The run to compare with**: a service in memory over the same Raft cluster. -/
structure Mirrors (cfg : Config NodeID) (tar : Tar Key Value) (s : System NodeID Key Value)
    (t : Service.System (Store Key Value) NodeID (Req Key Value) (Result Value))
    (R : Service.Servers (Store Key Value) NodeID (Req Key Value) (Result Value)) : Prop where
  tracks : Service.Tracks (app tar) cfg (fun _ => True) t R
  cluster : t.cluster = s.cluster
  rsms : s.rsms.Alike none t.current t.rsms
  stores : ∀ n, Executed (Rsm.reqs R.hist) (s.rsms.rsm n)

omit [DecidableEq NodeID] [Inhabited Key] [DecidableEq Key] [Inhabited Value] in
/-- Nil answers nothing. -/
theorem not_answers_none {req : Req Key Value} (h : Answers req none) : False := by
  cases req <;> exact h

/-! ## 4. Sections of Raft -/

section Sections

variable {cfg : Config NodeID} {tar : Tar Key Value} {s : System NodeID Key Value}
  {t : Service.System (Store Key Value) NodeID (Req Key Value) (Result Value)}
  {R R' : Service.Servers (Store Key Value) NodeID (Req Key Value) (Result Value)} {n : NodeID}

/-- What a process of the other run holds. -/
theorem Mirrors.sm_eq (h : Mirrors cfg tar s t R) (n : NodeID) :
    (t.rsms.rsm (n, t.current n)).sm = machine.after (Rsm.reqs R.hist) (s.rsms.rsm n).applied := by
  rw [h.tracks.rsm_eq, ((Rsm.inv_reachable h.tracks.core.reach).rsm _).sm, ← h.tracks.rsm_eq,
    (h.rsms.rsm n).applied]
  rfl

omit [DecidableEq NodeID] [Inhabited Key] [DecidableEq Key] [Inhabited Value] in
theorem reqs_mono {σ Srv : Type} {hist hist' : List (Rsm.Ev Srv (Req Key Value) σ)}
    (h : hist <+: hist') : Rsm.reqs hist <+: Rsm.reqs hist' := by
  obtain ⟨l, rfl⟩ := h
  exact ⟨Rsm.reqs l, (Rsm.reqs_append hist l).symm⟩

/-- The log of the other run has grown. -/
theorem Mirrors.stores_mono (h : Mirrors cfg tar s t R) (hpre : R.hist <+: R'.hist) (m : NodeID) :
    Executed (Rsm.reqs R'.hist) (s.rsms.rsm m) := (h.stores m).mono (reqs_mono hpre)

/-- Whoever is registered waits. -/
theorem Inv.waiting (hI : Inv cfg tar s) (n : NodeID) (i c : ℕ)
    (hc : (s.rsms.rsm n).chMap i = some c) :
    ∃ x, s.rsms.submits[c]? = some x ∧ ∀ err res, x.pc ≠ .returned err res := by
  obtain ⟨x, hx, _, hat, _⟩ := hI.sound.waits n i c hc
  refine ⟨x, hx, fun err res e => ?_⟩
  rw [e] at hat
  exact hat

/-- What a section of node `n` has done, in both runs. -/
structure Reached (cfg : Config NodeID) (tar : Tar Key Value)
    (t : Service.System (Store Key Value) NodeID (Req Key Value) (Result Value)) (n : NodeID)
    (ev : Event NodeID (Command Key Value)) (rsms : Servers NodeID Key Value)
    (rsms' R : Service.Servers (Store Key Value) NodeID (Req Key Value) (Result Value)) : Prop where
  entered : Service.Entered (app tar) cfg (fun _ => True) t n ev rsms' R
  alike : rsms.Alike none t.current rsms'
  stores : ∀ m, Executed (Rsm.reqs R.hist) (rsms.rsm m)

/-- A Submit calls `Start`. -/
theorem Mirrors.enterStart (h : Mirrors cfg tar s t R) (hI : Inv cfg tar s)
    (hgob : (app tar).RoundTrips fun _ => True) {c hashNum : ℕ}
    {x : Rsm.Submit NodeID (Req Key Value) (Result Value)} {rsms : Servers NodeID Key Value}
    (hx : s.rsms.submits[c]? = some x)
    (ht : s.rsms.turn c x (.start hashNum
      (Service.startAnswer (s.cluster.node x.srv).rf ⟨x.req, hashNum⟩)) = some rsms) :
    ∃ rsms' R', Reached cfg tar t x.srv (.start ⟨x.req, hashNum⟩) rsms rsms' R' := by
  have hpc : x.pc = .leading := by
    generalize Service.startAnswer (s.cluster.node x.srv).rf ⟨x.req, hashNum⟩ = answer at ht
    cases Rsm.turned ht with
    | rejected _ hpc | start _ _ _ hpc => exact hpc
  obtain ⟨y, hy, halike⟩ := h.rsms.submits.get hx
  have hy' := halike.eq_inProc fun err res e => by
    rw [hpc] at e
    cases e
  subst hy'
  obtain ⟨rsms', ht', hrsms⟩ := h.rsms.turn (hI.waiting) ht
  have he : Service.Enters (app tar) t.place t.cluster t.rsms (.start c hashNum) x.srv
      (.start ⟨x.req, hashNum⟩) rsms' := by
    rw [h.cluster]
    exact .start hy rfl ht'
  obtain ⟨R', hent, hpre⟩ := h.tracks.enter hgob he
  exact ⟨rsms', R', hent, hrsms, fun m => executed_turn ht (h.stores_mono hpre m)⟩

/-- **`readApplyCh` takes a message.** -/
theorem Mirrors.enterHandle (h : Mirrors cfg tar s t R) (hI : Inv cfg tar s)
    (hgob : (app tar).RoundTrips fun _ => True) (hloop : (s.rsms.rsm n).loop = .reading)
    {msg : ApplyMsg (Command Key Value)} {rest : List (ApplyMsg (Command Key Value))}
    (happ : (s.cluster.node n).applying = msg :: rest) :
    ∃ rsms' R', Reached cfg tar t n .apply
      (s.rsms.setRsm n (Service.readMsg (app tar) (s.rsms.rsm n) msg)) rsms' R' := by
  have hr := h.rsms.rsm n
  have hloop' : (t.rsms.rsm (n, t.current n)).loop = .reading :=
    Rsm.Loop.Alike.eq_reading (hloop ▸ hr.loop)
  have happ' : (t.cluster.node n).applying = msg :: rest := by
    rw [h.cluster]
    exact happ
  have he : Service.Enters (app tar) t.place t.cluster t.rsms (.handle n) n .apply
      (t.rsms.setRsm (n, t.current n)
        (Service.readMsg (app tar) (t.rsms.rsm (n, t.current n)) msg)) := .handle hloop' happ'
  obtain ⟨R', hent, hpre⟩ := h.tracks.enter hgob he
  -- the process of the other run, after the message
  have hinv := (Rsm.inv_reachable hent.core.reach).rsm (n, t.current n)
  have hread : R'.rsm (n, t.current n) =
      Service.readMsg (app tar) (t.rsms.rsm (n, t.current n)) msg := by
    have := congrArg (fun S => S.rsm (n, t.current n)) hent.core.rsms
    exact this.symm.trans (Function.update_self _ _ _)
  have hidx := hent.handed msg rest rfl happ'
  have hlen : msg.index ≤ (Rsm.reqs R'.hist).length := by
    rw [Rsm.reqs, List.length_map, ← hidx]
    exact hinv.le
  have hsm : (Service.readMsg (app tar) (t.rsms.rsm (n, t.current n)) msg).sm =
      machine.after (Rsm.reqs R'.hist) msg.index := by
    rw [← hread, hinv.sm, hidx]
    rfl
  obtain ⟨i, hdi, hi, hstore⟩ := h.stores_mono hpre n
  have hbefore : (t.rsms.rsm (n, t.current n)).sm =
      machine.after (Rsm.reqs R'.hist) (s.rsms.rsm n).applied := by
    obtain ⟨i0, hd0, hi0, _⟩ := h.stores n
    obtain ⟨l, hl⟩ := reqs_mono hpre
    rw [h.sm_eq, ← hl, Machine.after_append _ _ (hd0.trans hi0)]
  suffices hboth : Rsm.RSM.Alike none (Service.readMsg (app tar) (s.rsms.rsm n) msg)
      (Service.readMsg (app tar) (t.rsms.rsm (n, t.current n)) msg) ∧
      Executed (Rsm.reqs R'.hist) (Service.readMsg (app tar) (s.rsms.rsm n) msg) by
    exact ⟨_, R', hent, h.rsms.setRsm n hboth.1, executed_setRsm (h.stores_mono hpre) hboth.2⟩
  rcases (hI.message happ).2 with ⟨hc, hcmd, hmi, _⟩ | ⟨hc, hs, _, hmi, _⟩
  · -- an entry
    rw [hmi, hcmd] at hsm hlen
    rw [Service.readMsg_command hc, hcmd] at hsm
    rw [Service.readMsg_command hc, Service.readMsg_command hc, hcmd]
    have hafter : machine.after (Rsm.reqs R'.hist) ((s.rsms.rsm n).applied + 1) =
        (doOp (machine.after (Rsm.reqs R'.hist) (s.rsms.rsm n).applied)
          ((s.rsms.rsm n).applied + 1) msg.command.opcommad).1 := by
      rw [← hbefore]
      exact hsm.symm
    obtain ⟨hans, i', h1, h2, h3⟩ := doOp_again _ hdi hi hlen hafter
    rw [← hstore] at hans h3
    rw [← hbefore] at hans
    exact ⟨⟨rfl, hr.chMap, hr.hashNumMap, hr.mu, .done hans⟩, i', h1, h2, h3⟩
  · -- a snapshot
    rw [Service.readMsg_snapshot hc hs] at hsm
    rw [Service.readMsg_snapshot hc hs, Service.readMsg_snapshot hc hs]
    rw [hmi] at hsm hlen
    exact ⟨⟨rfl, hr.chMap, hr.hashNumMap, hr.mu, hr.loop⟩, _, Nat.le_refl _, hlen, hsm⟩

/-- `readApplyCh` calls `Snapshot` with a store that is not ahead: it is the state of the index. -/
theorem Mirrors.enterCompact (h : Mirrors cfg tar s t R) (hI : Inv cfg tar s)
    (hgob : (app tar).RoundTrips fun _ => True) {index : ℕ}
    (hloop : (s.rsms.rsm n).loop = .notified index) (hfit : (s.rsms.rsm n).sm.applied ≤ index) :
    ∃ rsms' R', Reached cfg tar t n (.snapshot index (tar.pack (s.rsms.rsm n).sm))
      (s.rsms.setRsm n { s.rsms.rsm n with loop := .reading }) rsms' R' := by
  have hr := h.rsms.rsm n
  have hidx := (hI.reader n).notified index hloop
  have hloop' : (t.rsms.rsm (n, t.current n)).loop = .notified index :=
    Rsm.Loop.Alike.eq_notified (hloop ▸ hr.loop)
  have hsame : (t.rsms.rsm (n, t.current n)).sm = (s.rsms.rsm n).sm := by
    rw [h.sm_eq]
    exact ((h.stores n).sm_eq (hfit.trans hidx.le) (Nat.le_refl _)).symm
  have he : Service.Enters (app tar) t.place t.cluster t.rsms (.compact n) n
      (.snapshot index (tar.pack (s.rsms.rsm n).sm)) (t.rsms.setRsm (n, t.current n)
        { t.rsms.rsm (n, t.current n) with loop := .reading }) := by
    rw [← hsame]
    exact .compact hloop'
  obtain ⟨R', hent, hpre⟩ := h.tracks.enter hgob he
  exact ⟨_, R', hent, h.rsms.setRsm n hr.readOn,
    executed_setRsm (h.stores_mono hpre) ((h.stores_mono hpre n).congr rfl rfl)⟩

/-- **What a section does, in both runs.** -/
theorem Mirrors.enter (h : Mirrors cfg tar s t R) (hI : Inv cfg tar s)
    (hgob : (app tar).RoundTrips fun _ => True) {e : Entry NodeID Key Value}
    {ev : Event NodeID (Command Key Value)} {rsms : Servers NodeID Key Value}
    (hfit : s.Fits (.run e))
    (he : Service.Enters (app tar) (place NodeID) s.cluster s.rsms e n ev rsms) :
    ∃ rsms' R', Reached cfg tar t n ev rsms rsms' R' := by
  cases he with
  | own hown =>
      obtain ⟨R', hent, hpre⟩ := h.tracks.enter hgob (.own hown)
      exact ⟨_, R', hent, h.rsms, h.stores_mono hpre⟩
  | start hx _ ht => exact h.enterStart hI hgob hx ht
  | handle hloop happ => exact h.enterHandle hI hgob hloop happ
  | compact hloop => exact h.enterCompact hI hgob hloop (fits_compact hfit hloop)

end Sections

/-! ## 5. All steps -/

variable [DecidableEq Value]

section Steps

variable {cfg : Config NodeID} {tar : Tar Key Value} {s s' : System NodeID Key Value}
  {t t' : Service.System (Store Key Value) NodeID (Req Key Value) (Result Value)}
  {R R' : Service.Servers (Store Key Value) NodeID (Req Key Value) (Result Value)} {n : NodeID}
  {rsms : Servers NodeID Key Value}

/-- A step in which Raft has no part and nothing is executed. -/
theorem Mirrors.step (h : Mirrors cfg tar s t R) (hgob : (app tar).RoundTrips fun _ => True)
    (act : Service.Action NodeID (Req Key Value))
    {rsms' : Service.Servers (Store Key Value) NodeID (Req Key Value) (Result Value)}
    (hact : act.Allowed fun _ => True)
    (ht : Service.Steps (app tar) t.place cfg t.cluster t.rsms act ⟨t.cluster, rsms', none⟩)
    (halike : rsms.Alike none t.current rsms')
    (hstores : ∀ log, (∀ m, Executed log (s.rsms.rsm m)) → ∀ m, Executed log (rsms.rsm m)) :
    ∃ t' R', Mirrors cfg tar { s with rsms := rsms } t' R' := by
  obtain ⟨R', htracks, hpre⟩ :=
    h.tracks.next hgob hact (Service.System.next_iff.mpr ⟨_, ht, rfl⟩)
  exact ⟨_, R', htracks, h.cluster, halike, hstores _ (h.stores_mono hpre)⟩

omit [DecidableEq Value] in
/-- **The process of the node has died** and is started again: its store is where it was. -/
theorem Mirrors.reboot {c' : Cluster NodeID (Command Key Value)}
    {rsms' : Service.Servers (Store Key Value) NodeID (Req Key Value) (Result Value)}
    (hcore : Service.Follows (app tar) cfg (fun _ => True) c' t.current rsms' R)
    (hothers : ∀ m, m ≠ n → (R.rsm (m, t.current m)).applied = (c'.node m).delivered)
    (hboot : c'.node n = Proc.boot (c'.disk n)) (halike : rsms.Alike none t.current rsms')
    (hstores : ∀ m, Executed (Rsm.reqs R.hist) (rsms.rsm m))
    (hsafe : (c'.disk n).snapshotIndex ≤ max (rsms.rsm n).applied (rsms.rsm n).sm.applied) :
    ∃ t' R', Mirrors cfg tar ⟨c', reboot rsms n (c'.node n).delivered⟩ t' R' := by
  obtain ⟨R', htracks, hpre⟩ := hcore.boot hothers hboot
  have hdel : (c'.node n).delivered = (c'.disk n).snapshotIndex := by
    rw [hboot]
    rfl
  refine ⟨_, R', htracks, rfl, halike.reboot n ⟨?_, rfl, rfl, rfl, .reading⟩, fun m => ?_⟩
  · exact hdel.symm
  · have hold : ∀ m, Executed (Rsm.reqs R'.hist) (rsms.rsm m) :=
      fun m => (hstores m).mono (reqs_mono hpre)
    obtain ⟨i, h1, h2, h3⟩ := hold n
    have happ : (rsms.rsm n).sm.applied ≤ i := by
      rw [h3]
      exact after_applied_le _ i
    have hle : (c'.node n).delivered ≤ i := by omega
    have hnew : Executed (Rsm.reqs R'.hist) ⟨(rsms.rsm n).sm, (c'.node n).delivered,
        fun _ => none, fun _ => none, none, .reading⟩ := ⟨i, hle, h2, h3⟩
    exact executed_setRsm hold hnew m

/-- **Every step of the nodes is mirrored.** -/
theorem Mirrors.next (h : Mirrors cfg tar s t R) (hI : Inv cfg tar s)
    (hgob : (app tar).RoundTrips fun _ => True) {act : Action NodeID Key Value}
    (hfit : s.Fits act) (hsafe : s.safe tar cfg act = true) (hs : s.next tar cfg act = some s') :
    ∃ t' R', Mirrors cfg tar s' t' R' := by
  obtain ⟨o, ho, rfl⟩ := System.next_iff.mp hs
  cases ho with
  | @submit n req _ hsubmit =>
      cases hsubmit
      exact h.step hgob (.submit n req) trivial (.submit rfl) (h.rsms.submit n req)
        fun _ hold => hold
  | @turn c tn x _ hx _ htold ht =>
      obtain ⟨y, hy, hxy⟩ := h.rsms.submits.get hx
      cases hxy.eq_inProc (Rsm.not_returned_of_turn ht)
      obtain ⟨rsms', ht', halike⟩ := h.rsms.turn hI.waiting ht
      have htold' : Service.told (t.cluster.node x.srv).rf x.srv tn = true := by
        rw [h.cluster]
        exact htold
      exact h.step hgob (.turn c tn) trivial (.turn hy rfl htold' ht') halike
        fun _ hold m => executed_turn ht (hold m)
  | run he hc =>
      obtain ⟨rsms', R', hr⟩ := h.enter hI hgob hfit he
      rw [← h.cluster] at hc
      exact ⟨_, R', hr.entered.run hc, rfl, hr.alike, hr.stores⟩
  | crash he hc =>
      simp only [System.safe, hs, System.dying, System.enter, Service.enter_iff.mpr he,
        Option.map_some] at hsafe
      rw [System.Fits, fits_crash] at hfit
      obtain ⟨rsms', R', hr⟩ := h.enter hI hgob hfit he
      rw [← h.cluster] at hc
      obtain ⟨hcore, hothers⟩ := hr.entered.next rfl hc
      obtain ⟨_, _, o, st, _, _, rfl⟩ := Cluster.next_crash hc
      exact Mirrors.reboot hcore hothers (Service.node_reboot _ _ _ _) hr.alike hr.stores
        (of_decide_eq_true hsafe)
  | @restart n c' hc =>
      simp only [System.safe, hs, System.dying] at hsafe
      rw [← h.cluster] at hc
      have hcore := h.tracks.core.next hc (fun _ e => (by cases e)) fun _ _ e => (by cases e)
      have hothers : ∀ m, m ≠ n →
          (R.rsm (m, t.current m)).applied = (c'.node m).delivered := by
        intro m hm
        rw [next_others hc hm]
        exact h.tracks.applied m
      obtain ⟨_, rfl⟩ := Cluster.next_restart hc
      exact Mirrors.reboot hcore hothers (Service.node_reboot _ _ _ _) h.rsms h.stores
        (of_decide_eq_true hsafe)
  | @notify n _ hn =>
      have hown : ∀ i op res c, (s.rsms.rsm n).loop = .done i op res →
          (s.rsms.rsm n).chMap i = some c → (s.rsms.rsm n).hashNumMap i = some op.hashNum →
          res ≠ none := by
        rintro i op res c hloop hc hmine rfl
        obtain ⟨x, store, _, _, hlt, hrun⟩ := hI.own hloop hc hmine
        have hans := doOp_answers hlt op.opcommad
        rw [hrun] at hans
        exact not_answers_none hans
      obtain ⟨rsms', ht', halike⟩ := h.rsms.notify (hI.waiting n) hown hn
      obtain ⟨i, op, res, _, hself, hother⟩ := Rsm.notify_reader hn
      refine h.step hgob (.notify n) trivial (.notify ht') halike fun log hold m => ?_
      by_cases e : m = n
      · subst e
        exact (hold m).congr (congrArg Prod.fst hself) (congrArg (fun r => r.2.1) hself)
      · rw [hother m e]
        exact hold m
  | @skip n index hloop =>
      have hr := h.rsms.rsm n
      have hloop' : (t.rsms.rsm (n, t.current n)).loop = .notified index :=
        Rsm.Loop.Alike.eq_notified (hloop ▸ hr.loop)
      exact h.step hgob (.skip n) trivial (.skip hloop') (h.rsms.setRsm n hr.readOn)
        fun log hold => executed_setRsm hold ((hold n).congr rfl rfl)

omit [DecidableEq Value] in
theorem mirrors_init (cfg : Config NodeID) (tar : Tar Key Value) :
    Mirrors cfg tar .init (.init (app tar)) (.init (app tar).toMachine) where
  tracks := Service.tracks_init _ _ _
  cluster := rfl
  rsms := ⟨fun _ => ⟨rfl, rfl, rfl, rfl, .reading⟩, .nil, rfl⟩
  stores _ := ⟨0, Nat.le_refl _, Nat.zero_le _, rfl⟩

theorem mirrors_reachable (hgob : (app tar).RoundTrips fun _ => True)
    (h : s.SafeReachable tar cfg) : ∃ t R, Mirrors cfg tar s t R := by
  induction h with
  | refl => exact ⟨_, _, mirrors_init cfg tar⟩
  | tail hrun hstep ih =>
      obtain ⟨t, R, hm⟩ := ih
      obtain ⟨act, ⟨hfit, hsafe⟩, hs⟩ := hstep
      exact hm.next (inv_reachable (System.SafeReachable.fit hrun)) hgob hfit hsafe hs

end Steps

/-! ## 6. The result -/

/-- **A cluster of raftkvd nodes is linearizable.** In every run in which no node compacts its log at
    an index that its store is ahead of, and no process dies while Raft's durable snapshot is ahead
    of its store, the Submits of all nodes are linearized by one sequence of requests to one map in
    memory: a Submit that has returned OK was executed once, between its call and its return, with
    the answer it got, whichever processes have died and been started again. Every database holds
    what a beginning of that sequence leads to, up to the entry that the node's Raft has delivered
    last, or that the database has applied if it is ahead. -/
theorem raftkvd_linearizable (cfg : Config NodeID) (tar : Tar Key Value)
    (hne : ∀ st, tar.pack st ≠ []) {s : System NodeID Key Value} (h : s.SafeReachable tar cfg) :
    ∃ lin, Linearizes memory (s.rsms.hist.filterMap Rsm.mark) lin ∧
      ∀ n, max (s.cluster.node n).delivered (s.rsms.rsm n).sm.applied ≤ lin.length ∧
        (s.rsms.rsm n).sm.kv = (memory.after (lin.map Prod.snd)
          (max (s.cluster.node n).delivered (s.rsms.rsm n).sm.applied)).m := by
  obtain ⟨t, R, hm⟩ := mirrors_reachable (app_roundTrips hne) h
  refine ⟨commits (R.hist.filterMap Rsm.mark), ?_, fun n => ?_⟩
  · rw [← hm.rsms.marks, hm.tracks.core.rsms]
    show Linearizes _ ((R.hist.filter Rsm.Ev.isOuter).filterMap Rsm.mark) _
    rw [Rsm.marks_outer]
    exact hm.tracks.linearizes.filter.congr memory_resultAt
  · obtain ⟨i, hdel, hlen, hsm⟩ := hm.stores n
    rw [(inv_reachable h.fit).applied n] at hdel
    have happ : (s.rsms.rsm n).sm.applied ≤ i := by
      rw [hsm]
      exact after_applied_le _ i
    rw [Rsm.reqs_eq_commits] at hlen hsm
    rw [List.length_map] at hlen
    refine ⟨(Nat.max_le.mpr ⟨hdel, happ⟩).trans hlen, ?_⟩
    rw [← after_kv, after_stable _ (hsm ▸ Nat.le_max_right _ _) (Nat.max_le.mpr ⟨hdel, happ⟩), ← hsm]

end Mirror

/-! ### A node that replays its log -/

theorem play_safeReachable {script : Schedule} {s : System ℕ ℕ ℕ}
    (h : Lib.play (guarded (fun s f => s.Fits (f s) ∧ s.safe unaryTar three (f s) = true) nextBy)
      .init script = some s) : s.SafeReachable unaryTar three := by
  refine ReflTransGen.mono ?_ _ _ (play_guarded_run h)
  rintro s s' ⟨f, hcond, hf⟩
  exact ⟨f s, hcond, hf⟩

theorem unaryTar_pack_ne (st : Store ℕ ℕ) : unaryTar.pack st ≠ [] := by
  simp [unaryTar, encNat]

/-- Node 1 is started again with a database that has three entries, skips them, runs the fourth and
    compacts; node 0 installs the snapshot, and both run a fifth entry. The client of the third has
    its answer from the process that died. -/
theorem raftkvd_linearizable_replay : ∃ s : System ℕ ℕ ℕ, s.SafeReachable unaryTar three ∧
    .returned 3 .ok (some (some (.put ⟨.ok⟩))) ∈ s.rsms.hist ∧
    (s.cluster.node 1).rf.snapshotIndex = 4 ∧ (s.cluster.node 0).rf.snapshotIndex = 4 ∧
    ∃ lin, Linearizes memory (s.rsms.hist.filterMap Rsm.mark) lin ∧ 5 ≤ lin.length ∧
      (s.rsms.rsm 1).sm.kv = (memory.after (lin.map Prod.snd) 5).m ∧
      (s.rsms.rsm 0).sm.kv = (memory.after (lin.map Prod.snd) 5).m := by
  have hplay : ((Lib.play (guarded (fun s f => s.Fits (f s) ∧
      s.safe unaryTar three (f s) = true) nextBy) .init
      (termOne ++ termTwo ++ termThree ++ replays ++ installs ++ goesOn)).map fun s =>
        (decide (.returned 3 .ok (some (some (.put ⟨.ok⟩))) ∈ s.rsms.hist),
          [1, 0].map fun n => ((s.cluster.node n).rf.snapshotIndex, (s.cluster.node n).delivered,
            (s.rsms.rsm n).sm.applied))) = some (true, [(4, 5, 5), (4, 5, 5)]) := by
    decide +kernel
  obtain ⟨s, hs, hv⟩ := Option.map_eq_some_iff.mp hplay
  simp only [List.map_cons, List.map_nil, List.cons.injEq, Prod.mk.injEq, and_true] at hv
  obtain ⟨hret, ⟨hsnap1, hdel1, happ1⟩, hsnap0, hdel0, happ0⟩ := hv
  have hreach := play_safeReachable hs
  obtain ⟨lin, hlin, hstores⟩ := raftkvd_linearizable three unaryTar unaryTar_pack_ne hreach
  have h1 := hstores 1
  have h0 := hstores 0
  rw [hdel1, happ1] at h1
  rw [hdel0, happ0] at h0
  exact ⟨s, hreach, of_decide_eq_true hret, hsnap1, hsnap0, lin, hlin, h1.1, h1.2, h0.2⟩

end RaftLab.Kvraft1.Raftkvd

/-
  File:      RaftLab/Kvraft1/ServiceSafety.lean
  Subject:   A service over its own Raft is linearizable (Service.lean).

  The run of the servers is followed by a run of `Rsm.System`, in which Raft is a contract: an entry
  is committed there when the first process is handed it, a snapshot is taken where a process calls
  `Snapshot`, and a process that starts from Raft's snapshot restores it (`Tracks`). So everything
  that RsmSafety.lean shows under the contract holds over the code of Raft, with processes that die
  and start again:

  * what a process is handed next is what the log of that run has at the index (state machine
    safety), or is committed there now: `Start` has returned this index for it (Placement.lean);
  * what a snapshot restores is the state at its index.

  **`service_linearizable`**: the Submits that have returned OK are linearized by one log, and every
  server's state machine has executed a beginning of it, whatever processes have died and wherever.
-/
import RaftLab.Kvraft1.Service

namespace RaftLab.Kvraft1.Rsm

open RaftLab.Lib
open RaftLab.Kvsrv1 (Err)

variable {σ Srv Req Res : Type}

/-! ## 1. Without what Raft does -/

/-- An event that is not Raft's. -/
def Ev.isOuter : Ev Srv Req Res → Bool
  | .committed _ _ _ | .applied _ _ _ _ => false
  | _ => true

/-- The system without the log, the snapshots and what Raft has done in the history. -/
def System.outer (s : System σ Srv Req Res) : System σ Srv Req Res :=
  { s with log := [], snaps := [], hist := s.hist.filter Ev.isOuter }

/-- What the callers see. -/
theorem marks_outer (hist : List (Ev Srv Req Res)) :
    (hist.filter Ev.isOuter).filterMap mark = (hist.filterMap mark).filter (!·.isCommit) := by
  rw [List.filterMap_filter, List.filter_filterMap]
  congr 1
  funext e
  cases e with
  | called | started | committed | applied => rfl
  | returned c err res =>
      cases hm : mark (.returned c err res : Ev Srv Req Res) with
      | none => rfl
      | some e' =>
          obtain ⟨_, r, _, rfl⟩ := mark_returned_eq_some hm
          rfl

variable [DecidableEq Srv] {s s' : System σ Srv Req Res} {c : ℕ} {x : Submit Srv Req Res}

omit [DecidableEq Srv] in
theorem filter_outer_concat {e : Ev Srv Req Res} (h : e.isOuter = true)
    (hist : List (Ev Srv Req Res)) :
    (hist ++ [e]).filter Ev.isOuter = hist.filter Ev.isOuter ++ [e] := by
  rw [List.filter_append, List.filter_singleton, h]
  rfl

omit [DecidableEq Srv] in
theorem ret_outer (s : System σ Srv Req Res) (c : ℕ) (x : Submit Srv Req Res) (err : Err)
    (res : Option Res) : s.outer.ret c x err res = (s.ret c x err res).outer := by
  unfold System.ret System.outer
  rw [filter_outer_concat rfl]
  rfl

/-- A Submit sees nothing of Raft but its answers. -/
theorem turn_outer (s : System σ Srv Req Res) (c : ℕ) (x : Submit Srv Req Res) (t : Turn) :
    s.outer.turn c x t = (s.turn c x t).map System.outer := by
  cases t with
  | getState isLeader =>
      simp only [System.turn, ret_outer]
      split
      · split <;> rfl
      · rfl
  | start n answer =>
      have hmu : (s.outer.rsm x.srv).mu = (s.rsm x.srv).mu := rfl
      have hall : (s.outer.submits.all fun y => y.hashNum ≠ some n) =
        s.submits.all fun y => y.hashNum ≠ some n := rfl
      simp only [System.turn, ret_outer, hmu, hall]
      cases hpc : x.pc with
      | leading =>
          cases (s.rsm x.srv).mu with
          | some c' => rfl
          | none =>
              dsimp only
              split
              · cases answer with
                | none => rfl
                | some a =>
                    dsimp only [Option.map, System.outer, System.goto, System.setRsm]
                    rw [filter_outer_concat rfl]
              · rfl
      | called | locked | waiting | cleanup | returned => rfl
  | register =>
      simp only [System.turn]
      split
      next logId term hpc =>
        show ((System.closeOld s.submits ((s.rsm x.srv).chMap logId)).bind _) = _
        cases System.closeOld s.submits ((s.rsm x.srv).chMap logId) <;> rfl
      next => rfl
  | receive =>
      simp only [System.turn, ret_outer]
      split
      · split
        · rfl
        · split <;> rfl
      · rfl
  | tick isLeader newTerm =>
      simp only [System.turn]
      split
      · split <;> rfl
      · rfl
  | timeout =>
      simp only [System.turn]
      split <;> rfl
  | cleanup =>
      have hmu : (s.outer.rsm x.srv).mu = (s.rsm x.srv).mu := rfl
      simp only [System.turn, ret_outer, hmu]
      cases hpc : x.pc with
      | cleanup logId => cases (s.rsm x.srv).mu <;> rfl
      | called | leading | locked | waiting | returned => rfl

/-- Nor does `readApplyCh`, once it has a message. -/
theorem notify_outer (s : System σ Srv Req Res) (srv : Srv) :
    s.outer.notify srv = (s.notify srv).map System.outer := by
  have hrsm : s.outer.rsm srv = s.rsm srv := rfl
  have hsub : s.outer.submits = s.submits := rfl
  simp only [System.notify, hrsm, hsub]
  cases (s.rsm srv).loop with
  | done index op res =>
      cases (s.rsm srv).mu with
      | some c => rfl
      | none =>
          dsimp only
          cases System.wake s.submits ((s.rsm srv).hashNumMap index = some op.hashNum) res
            ((s.rsm srv).chMap index) <;> rfl
  | reading | notified => rfl

/-! ## 2. What a step leaves alone -/

/-- The step touches one server; it leaves the log as it is, and nobody calls Submit. -/
structure Frames (srv : Srv) (s s' : System σ Srv Req Res) : Prop where
  log : s'.log = s.log
  snaps : s.snaps ⊆ s'.snaps
  started : s.started ⊆ s'.started
  others : ∀ srv', srv' ≠ srv → s'.rsm srv' = s.rsm srv'
  hist : s.hist <+: s'.hist
  called : ∀ c srv' req, .called c srv' req ∈ s'.hist → .called c srv' req ∈ s.hist

omit [DecidableEq Srv] in
/-- The RSMs and the calls in the history stay. -/
theorem Frames.of_eq {srv : Srv} (hlog : s'.log = s.log) (hsnaps : s'.snaps = s.snaps)
    (hstarted : s'.started = s.started) (hrsm : s'.rsm = s.rsm) (hhist : s'.hist = s.hist) :
    Frames srv s s' := by
  refine ⟨hlog, ?_, ?_, fun srv' _ => congrFun hrsm srv', ?_, fun _ _ _ h => hhist ▸ h⟩
  · rw [hsnaps]
    exact List.Subset.refl _
  · rw [hstarted]
    exact List.Subset.refl _
  · rw [hhist]

omit [DecidableEq Srv] in
theorem Frames.record (srv : Srv) (s : System σ Srv Req Res) (e : Ev Srv Req Res)
    (he : ∀ c srv' req, e ≠ .called c srv' req) :
    Frames srv s { s with hist := s.hist ++ [e] } := by
  refine ⟨rfl, List.Subset.refl _, List.Subset.refl _, fun _ _ => rfl, List.prefix_append _ _,
    fun c' srv' req h => ?_⟩
  rcases List.mem_append.mp h with hold | hnew
  · exact hold
  · exact absurd (List.mem_singleton.mp hnew).symm (he c' srv' req)

omit [DecidableEq Srv] in
theorem Frames.trans {srv : Srv} {s'' : System σ Srv Req Res} (h : Frames srv s s')
    (h' : Frames srv s' s'') : Frames srv s s'' where
  log := h'.log.trans h.log
  snaps := List.Subset.trans h.snaps h'.snaps
  started := List.Subset.trans h.started h'.started
  others srv' hne := (h'.others srv' hne).trans (h.others srv' hne)
  hist := h.hist.trans h'.hist
  called c srv' req hm := h.called c srv' req (h'.called c srv' req hm)

omit [DecidableEq Srv] in
theorem Frames.ret (srv : Srv) (s : System σ Srv Req Res) (c : ℕ) (x : Submit Srv Req Res)
    (err : Err) (res : Option Res) : Frames srv s (s.ret c x err res) :=
  .trans (.record srv s (.returned c err res) fun _ _ _ => nofun) (.of_eq rfl rfl rfl rfl rfl)

theorem Frames.setRsm (s : System σ Srv Req Res) (srv : Srv) (r : RSM σ Req Res) :
    Frames srv s (s.setRsm srv r) :=
  ⟨rfl, List.Subset.refl _, List.Subset.refl _, fun _ hne => Function.update_of_ne hne _ _,
    List.prefix_rfl, fun _ _ _ hm => hm⟩

theorem applied_setRsm (s : System σ Srv Req Res) (srv : Srv) (r : RSM σ Req Res) :
    ((s.setRsm srv r).rsm srv).applied = r.applied := by
  show (Function.update s.rsm srv r srv).applied = _
  rw [Function.update_self]

theorem turn_frames {t : Turn} (ht : s.turn c x t = some s') :
    Frames x.srv s s' ∧ (s'.rsm x.srv).applied = (s.rsm x.srv).applied := by
  cases turned ht with
  | lead | tickOut | timeOut | tickOn => exact ⟨.of_eq rfl rfl rfl rfl rfl, rfl⟩
  | refused | rejected | take | lost => exact ⟨.ret _ s c _ _ _, rfl⟩
  | start n logId term =>
      have hrec := Frames.record x.srv s (.started c logId ⟨x.req, n⟩) fun _ _ _ => nofun
      exact ⟨⟨rfl, List.Subset.refl _, List.subset_append_left _ _,
        fun _ hne => Function.update_of_ne hne _ _, hrec.hist, hrec.called⟩, applied_setRsm _ _ _⟩
  | register logId term submits =>
      have h1 : Frames x.srv s ({ s with submits := submits }.goto c x (.waiting logId term)) :=
        .of_eq rfl rfl rfl rfl rfl
      exact ⟨h1.trans (.setRsm _ _ _), applied_setRsm _ _ _⟩
  | cleanup logId => exact ⟨(Frames.ret _ s c x _ _).trans (.setRsm _ _ _), applied_setRsm _ _ _⟩

theorem snapshot_frames (s : System σ Srv Req Res) (srv : Srv) (r : RSM σ Req Res)
    (snaps : List (ℕ × σ)) :
    Frames srv s { s.setRsm srv r with snaps := s.snaps ++ snaps } :=
  ⟨rfl, List.subset_append_left _ _, List.Subset.refl _,
    fun _ hne => Function.update_of_ne hne _ _, List.prefix_rfl, fun _ _ _ hm => hm⟩

theorem notify_frames {srv : Srv} (ht : s.notify srv = some s') :
    Frames srv s s' ∧ (s'.rsm srv).applied = (s.rsm srv).applied := by
  obtain ⟨index, op, res, submits, _, _, rfl⟩ := notified ht
  have h1 : Frames srv s { s with submits := submits } := .of_eq rfl rfl rfl rfl rfl
  exact ⟨h1.trans (.setRsm _ _ _), applied_setRsm _ _ _⟩

omit [DecidableEq Srv] in
/-- What is executed was called. -/
theorem reqs_called {m : Machine σ Req Res} {hist : List (Ev Srv Req Res)}
    (h : Justified (Warranted m) hist) {req : Req} (hreq : req ∈ reqs hist) :
    ∃ c srv, .called c srv req ∈ hist := by
  obtain ⟨op, hop, rfl⟩ := List.mem_map.mp hreq
  obtain ⟨k, hk⟩ := List.getElem?_of_mem hop
  obtain ⟨c, hc⟩ := committed_of_entries h hk
  obtain ⟨p, q, e, ⟨srv, hcall⟩, _⟩ := h.of_mem (committed_at h hc).1
  exact ⟨c, srv, by rw [e]; exact List.mem_append_left _ hcall⟩

end RaftLab.Kvraft1.Rsm

namespace RaftLab.Kvraft1.Service

open RaftLab.Lib RaftLab.Raft1 Relation

variable {σ NodeID Req Res : Type}

/-! ## 3. The run that follows -/

/-- An RSM that has done nothing. -/
def newRsm (app : App σ Req Res) : Rsm.RSM σ Req Res :=
  ⟨app.init, 0, fun _ => none, fun _ => none, none, .reading⟩

/-- `Start` has returned the index for the command. -/
def Promised (R : Servers σ NodeID Req Res) (i : ℕ) (e : LogEntry (Rsm.Op Req)) : Prop :=
  ∃ c, (c, i, e.command) ∈ R.started

variable [DecidableEq NodeID] [Inhabited (Rsm.Op Req)]

/-- `R` is what the RSMs are, with what Raft has done: its log are commands that were committed in
    the cluster, and its snapshots are what the snapshots of the cluster restore. -/
structure Follows (app : App σ Req Res) (cfg : Config NodeID) (allowed : Req → Prop)
    (c : Cluster NodeID (Rsm.Op Req)) (current : NodeID → ℕ) (rsms R : Servers σ NodeID Req Res) :
    Prop where
  reach : R.Reachable app.toMachine
  raft : Cluster.Reachable cfg c
  rsms : rsms = R.outer
  log : ∀ (j : ℕ) op, R.log[j]? = some op → ∃ m, HadCommitted cfg c m (j + 1) op
  snaps : ∀ N data, Made c N data → data ≠ [] ∧ (N, app.restore data) ∈ R.snaps
  placed : Placed (Promised R) c
  unborn : ∀ n k, current n < k → R.rsm (n, k) = newRsm app
  allowed : ∀ c srv req, .called c srv req ∈ R.hist → allowed req

/-- Moreover every process has executed what its Raft has handed over. -/
structure Tracks (app : App σ Req Res) (cfg : Config NodeID) (allowed : Req → Prop)
    (s : System σ NodeID Req Res) (R : Servers σ NodeID Req Res) : Prop where
  core : Follows app cfg allowed s.cluster s.current s.rsms R
  applied : ∀ n, (R.rsm (n, s.current n)).applied = (s.cluster.node n).delivered

section Follow

variable {app : App σ Req Res} {cfg : Config NodeID} {allowed : Req → Prop}
  {c c' : Cluster NodeID (Rsm.Op Req)} {current : NodeID → ℕ} {rsms R R' : Servers σ NodeID Req Res}
  {n : NodeID}

/-- A step of a Submit or of `readApplyCh` that has nothing to do with Raft. -/
theorem Follows.frames (h : Follows app cfg allowed c current rsms R)
    (hf : Rsm.Frames (n, current n) R R') (hr : R'.Reachable app.toMachine) :
    Follows app cfg allowed c current R'.outer R' where
  reach := hr
  raft := h.raft
  rsms := rfl
  log j op hj := h.log j op (by rw [← hf.log]; exact hj)
  snaps N data hm := ⟨(h.snaps N data hm).1, hf.snaps (h.snaps N data hm).2⟩
  placed := h.placed.imp fun i e ⟨x, hx⟩ => ⟨x, hf.started hx⟩
  unborn m k hk := by
    rw [hf.others (m, k) (fun e => by cases e; exact Nat.lt_irrefl _ hk)]
    exact h.unborn m k hk
  allowed x srv req hm := h.allowed x srv req (hf.called x srv req hm)

/-- A step of Raft. -/
theorem Follows.next [DecidableEq Req] (h : Follows app cfg allowed c current rsms R)
    {act : Cluster.Action NodeID (Rsm.Op Req)} (hs : c.next cfg n act = some c')
    (hstart : ∀ op, act.event = some (.start op) → (c.node n).rf.customerId = .leader →
      ∃ x, (x, (c.node n).rf.lastLogIndex + 1, op) ∈ R.started)
    (hmade : ∀ N data, act.event = some (.snapshot N data) →
      data ≠ [] ∧ (N, app.restore data) ∈ R.snaps) :
    Follows app cfg allowed c' current rsms R where
  reach := h.reach
  raft := h.raft.tail (Cluster.next_step hs)
  rsms := h.rsms
  log j op hj := by
    obtain ⟨m, hm⟩ := h.log j op hj
    exact ⟨m, hm.mono (Cluster.next_step hs)⟩
  snaps N data hm := by
    obtain ⟨m, hm⟩ := hm
    rcases next_made hs hm with hold | hnew
    · exact h.snaps N data ⟨m, hold⟩
    · exact hmade N data hnew
  placed := h.placed.next h.raft (fun op hev hlead => hstart op hev hlead) hs
  unborn := h.unborn
  allowed := h.allowed

/-- The state of a process is what the log gives at its index. -/
theorem Follows.roundTrip (h : Follows app cfg allowed c current rsms R)
    (hgob : app.RoundTrips allowed) (srv : NodeID × ℕ) :
    app.restore (app.snapshot (R.rsm srv).sm) = (R.rsm srv).sm := by
  have hinv := Rsm.inv_reachable h.reach
  rw [(hinv.rsm srv).sm]
  refine hgob.restore_snapshot _ (fun req hreq => ?_) _
  obtain ⟨x, srv', hcall⟩ := Rsm.reqs_called hinv.raft.just hreq
  exact h.allowed x srv' req hcall

/-- The RSM of a new process: it is new, or it has restored a snapshot. -/
theorem Follows.startServer_reachable (h : Follows app cfg allowed c current rsms R) (n : NodeID) :
    (R.setRsm (n, current n + 1) (startServer app (c.disk n))).Reachable app.toMachine := by
  have hnew := h.unborn n _ (Nat.lt_succ_self _)
  have same : startServer app (c.disk n) = newRsm app →
      (R.setRsm (n, current n + 1) (startServer app (c.disk n))).Reachable app.toMachine := by
    intro e
    rw [e, ← hnew, Rsm.System.setRsm, Function.update_eq_self]
    exact h.reach
  obtain ⟨a, hsim⟩ := reachable_sim h.raft
  have hsnap : Raft1.SnapOk c.made (c.disk n).snapshotIndex (c.disk n).snapshot := by
    have := (hsim.proc n).disk.snap
    rw [← hsim.disk n] at this
    exact this
  cases hd : (c.disk n).snapshot with
  | none =>
      refine same ?_
      rw [startServer, newRsm, hd, hsnap.1 hd]
      rfl
  | some data =>
      obtain ⟨hne, hmem⟩ := h.snaps _ data (hsnap.2 data hd)
      have hsm : startServer app (c.disk n) = { newRsm app with
          sm := app.restore data, applied := (c.disk n).snapshotIndex } := by
        rw [startServer, newRsm, hd]
        simp only [Option.getD_some, List.length_pos_iff.mpr hne, if_true]
      rcases Nat.eq_zero_or_pos (c.disk n).snapshotIndex with h0 | hpos
      · refine same ?_
        have hinit := ((Rsm.inv_reachable h.reach).raft.snap _ _ hmem).2
        rw [h0] at hinit
        rw [hsm, hinit, h0]
        rfl
      · obtain ⟨k, hk⟩ := List.getElem?_of_mem hmem
        refine h.reach.tail ⟨.restore (n, current n + 1) k, ?_⟩
        simp only [Rsm.System.next, hk, Option.bind_eq_bind, Option.bind_some]
        rw [hsm, hnew]
        show (if 0 < (c.disk n).snapshotIndex then _ else _) = _
        rw [if_pos hpos]

/-- **A new process** has executed what its Raft starts from. -/
theorem Follows.boot (h : Follows app cfg allowed c current rsms R)
    (hothers : ∀ m, m ≠ n → (R.rsm (m, current m)).applied = (c.node m).delivered)
    (hboot : c.node n = Proc.boot (c.disk n)) :
    ∃ R', Tracks app cfg allowed (reboot app c rsms current n) R' ∧ R.hist <+: R'.hist := by
  refine ⟨_, ⟨⟨h.startServer_reachable n, h.raft, ?_, h.log, h.snaps, h.placed, fun m k hk => ?_,
    h.allowed⟩, fun m => ?_⟩, List.prefix_rfl⟩
  · show rsms.setRsm _ _ = _
    rw [h.rsms]
    rfl
  · have hlt : current m < k := by
      refine Nat.lt_of_le_of_lt ?_ hk
      show current m ≤ Function.update current n (current n + 1) m
      by_cases e : m = n
      · subst e
        rw [Function.update_self]
        exact Nat.le_succ _
      · rw [Function.update_of_ne e]
    refine (Function.update_of_ne ?_ _ _).trans (h.unborn m k hlt)
    intro e
    cases e
    have hk' : Function.update current n (current n + 1) n < current n + 1 := hk
    rw [Function.update_self] at hk'
    exact Nat.lt_irrefl _ hk'
  · show ((R.setRsm (n, current n + 1) _).rsm
      (m, Function.update current n (current n + 1) m)).applied = (c.node m).delivered
    by_cases e : m = n
    · subst e
      rw [Function.update_self, hboot]
      show (Function.update R.rsm _ _ _).applied = _
      rw [Function.update_self]
      rfl
    · rw [Function.update_of_ne e]
      show (Function.update R.rsm _ _ _).applied = _
      rw [Function.update_of_ne fun e' => e (congrArg Prod.fst e')]
      exact hothers m e

/-! ## 4. A message -/

/-- The log has the command, or it is committed now. -/
theorem Follows.commit (h : Follows app cfg allowed c current rsms R)
    (happlied : (R.rsm (n, current n)).applied = (c.node n).delivered)
    {msg : ApplyMsg (Rsm.Op Req)} (hmsg : msg ∈ (c.node n).applying)
    (hv : msg.commandValid = true) (hidx : msg.commandIndex = (c.node n).delivered + 1)
    (had : HadCommitted cfg c n msg.commandIndex msg.command) :
    ∃ R', Follows app cfg allowed c current rsms R' ∧ R'.rsm = R.rsm ∧ R.hist <+: R'.hist ∧
      R'.log[(c.node n).delivered]? = some msg.command := by
  have hle := ((Rsm.inv_reachable h.reach).rsm (n, current n)).le
  rw [← (Rsm.inv_reachable h.reach).raft.log_eq, happlied] at hle
  rcases Nat.lt_or_eq_of_le hle with hlt | heq
  · obtain ⟨op, hop⟩ : ∃ op, R.log[(c.node n).delivered]? = some op :=
      ⟨_, List.getElem?_eq_getElem hlt⟩
    obtain ⟨m, hm⟩ := h.log _ op hop
    rw [hm.agrees hmsg hv hidx]
    exact ⟨R, h, rfl, List.prefix_rfl, hop⟩
  · obtain ⟨e, he, x, hx⟩ := h.placed.applying n msg hmsg hv
    rw [he, hidx, heq] at hx
    obtain ⟨k, hk⟩ := List.getElem?_of_mem hx
    have hnext : R.next app.toMachine (.commit k) = some { R with
        log := R.log ++ [msg.command]
        hist := R.hist ++ [.committed x (R.log.length + 1) msg.command] } := by
      simp only [Rsm.System.next, hk, Option.bind_eq_bind, Option.bind_some, if_true]
    refine ⟨_, ⟨h.reach.tail ⟨_, hnext⟩, h.raft, ?_, fun j op hj => ?_, h.snaps, h.placed,
      h.unborn, fun y srv req hm => ?_⟩, rfl, List.prefix_append _ _, ?_⟩
    · rw [h.rsms]
      simp [Rsm.System.outer, Rsm.Ev.isOuter]
    · rcases Nat.lt_or_ge j R.log.length with hlt | hge
      · rw [List.getElem?_append_left hlt] at hj
        exact h.log j op hj
      · have hj' : j = R.log.length := by
          have := (List.getElem?_eq_some_iff.mp hj).1
          rw [List.length_append, List.length_singleton] at this
          omega
        rw [hj', List.getElem?_concat_length] at hj
        cases hj
        rw [hj', ← heq, ← hidx]
        exact ⟨n, had⟩
    · rcases List.mem_append.mp hm with hold | hnew
      · exact h.allowed y srv req hold
      · cases List.mem_singleton.mp hnew
    · rw [heq, List.getElem?_concat_length]

/-- What `readApplyCh` makes of a message. -/
theorem Follows.handle (h : Follows app cfg allowed c current rsms R)
    (happlied : (R.rsm (n, current n)).applied = (c.node n).delivered)
    (hloop : (R.rsm (n, current n)).loop = .reading) {msg : ApplyMsg (Rsm.Op Req)}
    {rest : List (ApplyMsg (Rsm.Op Req))} (happ : (c.node n).applying = msg :: rest) :
    ∃ R', Follows app cfg allowed c current
        (rsms.setRsm (n, current n) (readMsg app (R.rsm (n, current n)) msg)) R' ∧
      (∀ srv, srv ≠ (n, current n) → R'.rsm srv = R.rsm srv) ∧
      (R'.rsm (n, current n)).applied = msg.index ∧ R.hist <+: R'.hist := by
  have hpend := pending_reachable h.raft n
  unfold Pending at hpend
  rw [happ] at hpend
  have hmsg : msg ∈ (c.node n).applying := happ ▸ List.mem_cons_self
  rcases hpend with ⟨hv, hsv, hidx, had, _⟩ | ⟨hv, hsv, hlt, hmade, _⟩
  · -- the next entry
    obtain ⟨R1, h1, hrsm, hhist, hlog⟩ := h.commit happlied hmsg hv hidx (hidx ▸ had)
    rw [← hrsm] at happlied hloop ⊢
    rw [← happlied] at hlog hidx
    have hmsgIdx : msg.index = (R1.rsm (n, current n)).applied + 1 := by
      rw [ApplyMsg.index, hsv]
      exact hidx
    have hread : readMsg app (R1.rsm (n, current n)) msg = { R1.rsm (n, current n) with
        sm := (app.step ((R1.rsm (n, current n)).applied + 1) (R1.rsm (n, current n)).sm
          msg.command.opcommad).1
        applied := (R1.rsm (n, current n)).applied + 1
        loop := .done ((R1.rsm (n, current n)).applied + 1) msg.command
          (app.step ((R1.rsm (n, current n)).applied + 1) (R1.rsm (n, current n)).sm
            msg.command.opcommad).2 } := by
      rw [readMsg_command hv, hidx]
    have hnext : R1.next app.toMachine (.deliver (n, current n)) = some
        { R1.setRsm (n, current n) (readMsg app (R1.rsm (n, current n)) msg) with
          hist := R1.hist ++ [.applied (n, current n) ((R1.rsm (n, current n)).applied + 1)
            msg.command (app.step ((R1.rsm (n, current n)).applied + 1) (R1.rsm (n, current n)).sm
              msg.command.opcommad).2] } := by
      simp only [Rsm.System.next, Rsm.System.deliver, hloop, hlog, hread]
    have hf := (Rsm.Frames.setRsm R1 (n, current n) (readMsg app (R1.rsm (n, current n)) msg)).trans
      (.record (n, current n) _ (.applied (n, current n) ((R1.rsm (n, current n)).applied + 1)
        msg.command (app.step ((R1.rsm (n, current n)).applied + 1) (R1.rsm (n, current n)).sm
          msg.command.opcommad).2) fun _ _ _ e => by cases e)
    have h2 := h1.frames hf (h1.reach.tail ⟨_, hnext⟩)
    refine ⟨_, ⟨h2.reach, h2.raft, ?_, h2.log, h2.snaps, h2.placed, h2.unborn, h2.allowed⟩,
      hf.others, ?_, hhist.trans hf.hist⟩
    · rw [h1.rsms]
      simp [Rsm.System.outer, Rsm.System.setRsm, Rsm.Ev.isOuter]
    · rw [hmsgIdx]
      show (Function.update R1.rsm _ _ _).applied = _
      rw [Function.update_self, hread]
  · -- a snapshot
    obtain ⟨_, hmem⟩ := h.snaps _ _ hmade
    obtain ⟨k, hk⟩ := List.getElem?_of_mem hmem
    have hread : readMsg app (R.rsm (n, current n)) msg = _ := readMsg_snapshot hv hsv
    have hnext : R.next app.toMachine (.restore (n, current n) k) =
        some (R.setRsm (n, current n) (readMsg app (R.rsm (n, current n)) msg)) := by
      simp only [Rsm.System.next, hk, hloop, Option.bind_eq_bind, Option.bind_some, hread]
      rw [if_pos (happlied ▸ hlt)]
    have hf := Rsm.Frames.setRsm R (n, current n) (readMsg app (R.rsm (n, current n)) msg)
    have h2 := h.frames hf (h.reach.tail ⟨_, hnext⟩)
    refine ⟨_, ⟨h2.reach, h2.raft, ?_, h2.log, h2.snaps, h2.placed, h2.unborn, h2.allowed⟩,
      hf.others, ?_, hf.hist⟩
    · rw [h.rsms]
      rfl
    · rw [Rsm.applied_setRsm, hread, ApplyMsg.index, hsv]
      rfl

end Follow

/-! ## 5. A section of Raft and its caller -/

section Steps

variable {app : App σ Req Res} {cfg : Config NodeID} {allowed : Req → Prop}
  {s s' : System σ NodeID Req Res} {R : Servers σ NodeID Req Res} {n : NodeID}
  {ev : Event NodeID (Rsm.Op Req)} {rsms : Servers σ NodeID Req Res}

/-- The caller has gone on: `Start` has its answer, the state that `Snapshot` is given is known, and
    the message is executed. -/
structure Entered (app : App σ Req Res) (cfg : Config NodeID) (allowed : Req → Prop)
    (s : System σ NodeID Req Res) (n : NodeID) (ev : Event NodeID (Rsm.Op Req))
    (rsms R : Servers σ NodeID Req Res) : Prop where
  core : Follows app cfg allowed s.cluster s.current rsms R
  others : ∀ m, m ≠ n → (R.rsm (m, s.current m)).applied = (s.cluster.node m).delivered
  start : ∀ op, ev = .start op → (s.cluster.node n).rf.customerId = .leader →
    ∃ x, (x, (s.cluster.node n).rf.lastLogIndex + 1, op) ∈ R.started
  made : ∀ N data, ev = .snapshot N data → data ≠ [] ∧ (N, app.restore data) ∈ R.snaps
  still : ev ≠ .apply → (R.rsm (n, s.current n)).applied = (s.cluster.node n).delivered
  handed : ∀ msg rest, ev = .apply → (s.cluster.node n).applying = msg :: rest →
    (R.rsm (n, s.current n)).applied = msg.index

/-- The RSM that the node runs. -/
theorem Tracks.rsm_eq (h : Tracks app cfg allowed s R) (srv : NodeID × ℕ) :
    s.rsms.rsm srv = R.rsm srv := by
  rw [h.core.rsms]
  rfl

/-- What the step of a process leaves to the others. -/
theorem Tracks.applied_frames {R' : Servers σ NodeID Req Res} (h : Tracks app cfg allowed s R)
    (hf : Rsm.Frames (n, s.current n) R R') {m : NodeID} (hm : m ≠ n) :
    (R'.rsm (m, s.current m)).applied = (s.cluster.node m).delivered := by
  rw [hf.others (m, s.current m) fun e => hm (congrArg Prod.fst e)]
  exact h.applied m

/-- A step of one process in which nothing is executed. -/
theorem Tracks.frames {R' : Servers σ NodeID Req Res} (h : Tracks app cfg allowed s R)
    (hf : Rsm.Frames (n, s.current n) R R')
    (happlied : (R'.rsm (n, s.current n)).applied = (R.rsm (n, s.current n)).applied)
    (hr : R'.Reachable app.toMachine) :
    Tracks app cfg allowed { s with rsms := R'.outer } R' := by
  refine ⟨h.core.frames hf hr, fun m => ?_⟩
  by_cases e : m = n
  · subst e
    exact happlied.trans (h.applied m)
  · exact h.applied_frames hf e

/-- A step of a Submit is one in the run that follows. -/
theorem Tracks.turn (h : Tracks app cfg allowed s R) {c : ℕ}
    {x : Rsm.Submit (NodeID × ℕ) Req Res} {t : Rsm.Turn} (hx : s.rsms.submits[c]? = some x)
    (ht : s.rsms.turn c x t = some rsms) :
    ∃ R', R.turn c x t = some R' ∧ rsms = R'.outer ∧ R'.Reachable app.toMachine := by
  rw [h.core.rsms] at hx ht
  rw [Rsm.turn_outer] at ht
  obtain ⟨R', hR', e⟩ := Option.map_eq_some_iff.mp ht
  refine ⟨R', hR', e.symm, h.core.reach.tail ⟨.turn c t, ?_⟩⟩
  exact Option.bind_eq_some_iff.mpr ⟨x, hx, hR'⟩

omit [Inhabited (Rsm.Op Req)] in
/-- `Start` has returned its index to the RSM. -/
theorem started_of_turn {c hashNum : ℕ} {x : Rsm.Submit (NodeID × ℕ) Req Res}
    {R' : Servers σ NodeID Req Res} {rf : Raft NodeID (Rsm.Op Req)}
    (ht : R.turn c x (.start hashNum (startAnswer rf ⟨x.req, hashNum⟩)) = some R')
    (hlead : rf.customerId = .leader) :
    (c, rf.lastLogIndex + 1, ⟨x.req, hashNum⟩) ∈ R'.started := by
  have hans : startAnswer rf ⟨x.req, hashNum⟩ = some (rf.lastLogIndex + 1, rf.term) :=
    startAnswer_iff.mpr ⟨hlead, rfl, rfl⟩
  rw [hans] at ht
  cases Rsm.turned ht with
  | start => exact List.mem_append_right _ List.mem_cons_self

/-- **Before a section of Raft.** -/
theorem Tracks.enter (h : Tracks app cfg allowed s R) (hgob : app.RoundTrips allowed)
    {e : Entry NodeID Req} (he : Enters app s.place s.cluster s.rsms e n ev rsms) :
    ∃ R', Entered app cfg allowed s n ev rsms R' ∧ R.hist <+: R'.hist := by
  cases he with
  | own hown =>
      refine ⟨R, ⟨h.core, fun m _ => h.applied m, ?_, ?_, fun _ => h.applied n, ?_⟩,
        List.prefix_rfl⟩
      · rintro op rfl
        cases hown
      · rintro N data rfl
        cases hown
      · rintro msg rest rfl
        cases hown
  | @start c hashNum x _ hx hruns ht =>
      obtain ⟨R', hR', rfl, hreach⟩ := h.turn hx ht
      obtain ⟨hf, happlied⟩ := Rsm.turn_frames hR'
      rw [show x.srv = (x.srv.1, s.current x.srv.1) from hruns] at hf happlied
      have h' := h.frames hf happlied hreach
      refine ⟨R', ⟨h'.core, fun m _ => h'.applied m, ?_, ?_, fun _ => h'.applied _, ?_⟩, hf.hist⟩
      · rintro op ⟨⟩ hlead
        exact ⟨c, started_of_turn hR' hlead⟩
      · rintro N data ⟨⟩
      · rintro msg rest ⟨⟩
  | handle hloop happ =>
      rw [h.rsm_eq] at hloop ⊢
      obtain ⟨R', hcore, hothers, happlied, hhist⟩ := h.core.handle (h.applied n) hloop happ
      refine ⟨R', ⟨hcore, fun m hm => ?_, ?_, ?_, fun hne => absurd rfl hne, ?_⟩, hhist⟩
      · rw [hothers _ fun e => hm (congrArg Prod.fst e)]
        exact h.applied m
      · rintro op ⟨⟩
      · rintro N data ⟨⟩
      · rintro msg' rest' _ happ'
        cases happ.symm.trans happ'
        exact happlied
  | @compact _ index hloop =>
      rw [h.rsm_eq] at hloop ⊢
      have hnext : R.next app.toMachine (.snapshot (n, s.current n) true) = some
          { R.setRsm (n, s.current n) { R.rsm (n, s.current n) with loop := .reading } with
            snaps := R.snaps ++ [(index, (R.rsm (n, s.current n)).sm)] } := by
        simp only [Rsm.System.next, show (R.rsm (n, s.current n)).loop = _ from hloop, if_true]
      have hf := Rsm.snapshot_frames R (n, s.current n)
        { R.rsm (n, s.current n) with loop := .reading } [(index, (R.rsm (n, s.current n)).sm)]
      have h' := h.frames hf (Rsm.applied_setRsm _ _ _) (h.core.reach.tail ⟨_, hnext⟩)
      refine ⟨_, ⟨⟨h'.core.reach, h'.core.raft, ?_, h'.core.log, h'.core.snaps, h'.core.placed,
        h'.core.unborn, h'.core.allowed⟩, fun m _ => h'.applied m, ?_, ?_,
        fun _ => h'.applied n, ?_⟩, hf.hist⟩
      · rw [h.core.rsms]
        rfl
      · rintro op ⟨⟩
      · rintro N data ⟨⟩
        refine ⟨hgob.snapshot_ne _, List.mem_append_right _ ?_⟩
        rw [h.core.roundTrip hgob]
        exact List.mem_cons_self
      · rintro msg rest ⟨⟩

variable [DecidableEq Req]

/-- **The section.** -/
theorem Entered.next (h : Entered app cfg allowed s n ev rsms R)
    {act : Cluster.Action NodeID (Rsm.Op Req)} (hact : act.event = some ev)
    {c' : Cluster NodeID (Rsm.Op Req)} (hs : s.cluster.next cfg n act = some c') :
    Follows app cfg allowed c' s.current rsms R ∧
      ∀ m, m ≠ n → (R.rsm (m, s.current m)).applied = (c'.node m).delivered := by
  refine ⟨h.core.next hs (fun op hop => h.start op ?_) (fun N data hd => h.made N data ?_),
    fun m hm => ?_⟩
  · exact Option.some.inj (hact.symm.trans hop)
  · exact Option.some.inj (hact.symm.trans hd)
  · rw [next_others hs hm]
    exact h.others m hm

/-- It runs to its end. -/
theorem Entered.run (h : Entered app cfg allowed s n ev rsms R)
    {c' : Cluster NodeID (Rsm.Op Req)} (hs : s.cluster.next cfg n (.run ev) = some c') :
    Tracks app cfg allowed { s with cluster := c', rsms := rsms } R := by
  obtain ⟨hcore, hothers⟩ := h.next rfl hs
  refine ⟨hcore, fun m => ?_⟩
  by_cases e : m = n
  · subst e
    rcases next_delivered hs with ⟨hne, hd⟩ | ⟨rfl, msg, rest, happ, hd⟩
    · exact (h.still hne).trans hd.symm
    · exact (h.handed msg rest rfl happ).trans hd.symm
  · exact hothers m e

/-! ## 6. All steps -/

omit [Inhabited (Rsm.Op Req)] [DecidableEq Req] in
/-- A node that has just been started. -/
theorem node_reboot (c : Cluster NodeID (Rsm.Op Req)) (n : NodeID) (made : List (ℕ × Bytes))
    (st : PersistState NodeID (Rsm.Op Req)) :
    (c.reboot n made st).node n = Proc.boot ((c.reboot n made st).disk n) := by
  show Function.update c.node n (Proc.boot st) n = Proc.boot (Function.update c.disk n st n)
  rw [Function.update_self, Function.update_self]

/-- A call of Submit. -/
theorem Tracks.submit (h : Tracks app cfg allowed s R) {req : Req} (hreq : allowed req)
    (hs : s.next app cfg (.submit n req) = some s') :
    Tracks app cfg allowed s' { R with
      submits := R.submits ++ [⟨(n, s.current n), req, none, .make, .called⟩]
      hist := R.hist ++ [.called R.submits.length (n, s.current n) req] } := by
  cases hs
  have hnext : R.next app.toMachine (.submit (n, s.current n) req) = some _ := rfl
  refine ⟨⟨h.core.reach.tail ⟨_, hnext⟩, h.core.raft, ?_, h.core.log, h.core.snaps,
    h.core.placed, h.core.unborn, fun y srv r hm => ?_⟩, h.applied⟩
  · rw [h.core.rsms]
    unfold Rsm.System.outer
    rw [Rsm.filter_outer_concat rfl]
    rfl
  · rcases List.mem_append.mp hm with hold | hnew
    · exact h.core.allowed y srv r hold
    · cases List.mem_singleton.mp hnew
      exact hreq

/-- **Every step of the servers is followed.** -/
theorem Tracks.next (h : Tracks app cfg allowed s R) (hgob : app.RoundTrips allowed)
    {act : Action NodeID Req} (hact : act.Allowed allowed) (hs : s.next app cfg act = some s') :
    ∃ R', Tracks app cfg allowed s' R' ∧ R.hist <+: R'.hist := by
  obtain ⟨o, ho, rfl⟩ := System.next_iff.mp hs
  cases ho with
  | submit => exact ⟨_, h.submit hact hs, List.prefix_append _ _⟩
  | @turn _ _ x _ hx hruns _ ht =>
      obtain ⟨R', hR', rfl, hreach⟩ := h.turn hx ht
      obtain ⟨hf, happlied⟩ := Rsm.turn_frames hR'
      rw [show x.srv = (x.srv.1, s.current x.srv.1) from hruns] at hf happlied
      exact ⟨R', h.frames hf happlied hreach, hf.hist⟩
  | run he hc =>
      obtain ⟨R', h', hhist⟩ := h.enter hgob he
      exact ⟨R', h'.run hc, hhist⟩
  | crash he hc =>
      obtain ⟨R', h', hhist⟩ := h.enter hgob he
      obtain ⟨hcore, hothers⟩ := h'.next rfl hc
      obtain ⟨_, _, o, st, _, _, rfl⟩ := Cluster.next_crash hc
      obtain ⟨R'', h'', hhist'⟩ := hcore.boot hothers (node_reboot _ _ _ _)
      exact ⟨R'', h'', hhist.trans hhist'⟩
  | @restart n c' hc =>
      have hcore := h.core.next hc nofun nofun
      have hothers : ∀ m, m ≠ n → (R.rsm (m, s.current m)).applied = (c'.node m).delivered := by
        intro m hm
        rw [next_others hc hm]
        exact h.applied m
      obtain ⟨_, rfl⟩ := Cluster.next_restart hc
      exact hcore.boot hothers (node_reboot _ _ _ _)
  | @notify n _ ht =>
      rw [h.core.rsms, Rsm.notify_outer] at ht
      obtain ⟨R', hR', rfl⟩ := Option.map_eq_some_iff.mp ht
      obtain ⟨hf, happlied⟩ := Rsm.notify_frames hR'
      exact ⟨R', h.frames hf happlied (h.core.reach.tail ⟨.notify (n, s.current n), hR'⟩), hf.hist⟩
  | @skip n index hloop =>
      rw [h.rsm_eq] at hloop ⊢
      have hnext : R.next app.toMachine (.snapshot (n, s.current n) false) = some
          (R.setRsm (n, s.current n) { R.rsm (n, s.current n) with loop := .reading }) := by
        simp only [Rsm.System.next, show (R.rsm (n, s.current n)).loop = _ from hloop,
          Bool.false_eq_true, if_false]
        rfl
      have hf := Rsm.Frames.setRsm R (n, s.current n)
        { R.rsm (n, s.current n) with loop := .reading }
      have h' := h.frames hf (Rsm.applied_setRsm _ _ _) (h.core.reach.tail ⟨_, hnext⟩)
      refine ⟨_, ⟨⟨h'.core.reach, h'.core.raft, ?_, h'.core.log, h'.core.snaps, h'.core.placed,
        h'.core.unborn, h'.core.allowed⟩, h'.applied⟩, hf.hist⟩
      show s.rsms.setRsm _ _ = _
      rw [h.core.rsms]
      rfl

omit [DecidableEq Req] in
theorem tracks_init (app : App σ Req Res) (cfg : Config NodeID) (allowed : Req → Prop) :
    Tracks app cfg allowed (.init app) (.init app.toMachine) := by
  refine ⟨⟨.refl, .refl, rfl, nofun, ?_, placed_init, fun _ _ _ => rfl, nofun⟩, fun _ => rfl⟩
  rintro N data ⟨m, hm⟩
  cases hm

theorem tracks_reachable (hgob : app.RoundTrips allowed) (h : s.Reachable app cfg allowed) :
    ∃ R, Tracks app cfg allowed s R := by
  induction h with
  | refl => exact ⟨_, tracks_init app cfg allowed⟩
  | tail _ hstep ih =>
      obtain ⟨R, hR⟩ := ih
      obtain ⟨act, hact, hs⟩ := hstep
      obtain ⟨R', hR', _⟩ := hR.next hgob hact hs
      exact ⟨R', hR'⟩

/-! ## 7. The result -/

omit [DecidableEq Req] in
theorem Tracks.linearizes (h : Tracks app cfg allowed s R) :
    Linearizes app.toMachine (R.hist.filterMap Rsm.mark) (commits (R.hist.filterMap Rsm.mark)) :=
  linearizes_commits (Rsm.lawful_marks (Rsm.inv_reachable h.core.reach).raft.just)

omit [DecidableEq Req] in
/-- Every process is at a beginning of the order. -/
theorem Tracks.beginning (h : Tracks app cfg allowed s R) (n : NodeID) :
    (s.cluster.node n).delivered ≤ (commits (R.hist.filterMap Rsm.mark)).length ∧
      (s.rsms.rsm (n, s.current n)).sm =
        app.after ((commits (R.hist.filterMap Rsm.mark)).map Prod.snd)
          (s.cluster.node n).delivered := by
  have hinv := (Rsm.inv_reachable h.core.reach).rsm (n, s.current n)
  have hle := hinv.le
  rw [← List.length_map Rsm.Op.opcommad, ← Rsm.reqs, Rsm.reqs_eq_commits, List.length_map] at hle
  rw [h.rsm_eq, ← h.applied n, ← Rsm.reqs_eq_commits]
  exact ⟨hle, hinv.sm⟩

/-- **A service over its own Raft is linearizable.** The Submits of all processes are linearized by
    one sequence of requests: a Submit that has returned OK was executed once, between its call and
    its return, with the answer it got. The state machine of every process is what a beginning of
    the same sequence leads to, as far as its Raft has delivered. -/
theorem service_linearizable (hgob : app.RoundTrips allowed) (h : s.Reachable app cfg allowed) :
    ∃ lin, Linearizes app.toMachine (s.rsms.hist.filterMap Rsm.mark) lin ∧
      ∀ n, (s.cluster.node n).delivered ≤ lin.length ∧
        (s.rsms.rsm (n, s.current n)).sm =
          app.after (lin.map Prod.snd) (s.cluster.node n).delivered := by
  obtain ⟨R, hR⟩ := tracks_reachable hgob h
  refine ⟨_, ?_, hR.beginning⟩
  rw [hR.core.rsms]
  show Linearizes _ ((R.hist.filter Rsm.Ev.isOuter).filterMap Rsm.mark) _
  rw [Rsm.marks_outer]
  exact hR.linearizes.filter

end Steps

/-! ### A snapshot, a crash and a restart -/

section Sample

/-- `Rsm.adder` with a snapshot of as many bytes as the sum is large, and one more. -/
def adderApp : App ℕ ℕ ℕ where
  toMachine := Rsm.adder
  snapshot sum := List.replicate (sum + 1) 0
  restore data := data.length - 1

theorem adderApp_roundTrips : adderApp.RoundTrips fun _ => True where
  restore_snapshot log _ i := by
    show (List.replicate (adderApp.after log i + 1) (0 : UInt8)).length - 1 = _
    rw [List.length_replicate, Nat.add_sub_cancel]
  snapshot_ne _ := nofun

instance : Inhabited (Rsm.Op ℕ) := ⟨⟨0, 0⟩⟩

/-- Actions that depend on the messages under way. -/
abbrev ServiceScript := List (System ℕ ℕ ℕ ℕ → Action ℕ ℕ)

def deliverTo (n k : ℕ) (s : System ℕ ℕ ℕ ℕ) : Entry ℕ ℕ :=
  .own n (match s.cluster.net[k]? with
    | some m => .deliver m
    | none => .tickerArm)

def replyTo (n k j : ℕ) (s : System ℕ ℕ ℕ ℕ) : Action ℕ ℕ :=
  .run (.own n (match s.cluster.replies[j]? with
    | some x => .reply k x.2
    | none => .tickerArm))

/-- Server 0 is elected; a Submit of 5 there is committed with server 1 and returns OK. -/
def submitFive : ServiceScript :=
  [fun _ => .run (.own 0 .tickerArm), fun _ => .run (.own 0 .tickerFire),
    fun s => .run (deliverTo 1 0 s), replyTo 0 0 0,
    fun _ => .submit 0 5, fun _ => .turn 0 (.getState true), fun _ => .run (.start 0 11),
    fun _ => .turn 0 .register, fun _ => .run (.own 0 .heartbeat), fun s => .run (deliverTo 1 2 s),
    replyTo 0 1 1, fun _ => .run (.own 0 .applyBatch), fun _ => .run (.handle 0),
    fun _ => .notify 0, fun _ => .turn 0 .receive]

/-- Server 0 compacts its log; server 2 dies while it installs the snapshot, installs it again and
    restores it; then server 0 is started again. -/
def compactFive : ServiceScript :=
  [fun _ => .run (.compact 0), fun _ => .run (.own 0 .heartbeat),
    fun s => .crash (deliverTo 2 5 s) 1 0, fun s => .run (deliverTo 2 5 s),
    fun _ => .run (.own 2 .applyBatch), fun _ => .run (.handle 2), fun _ => .restart 0]

theorem service_linearizable_sample : ∃ s : System ℕ ℕ ℕ ℕ,
    s.Reachable adderApp three (fun _ => True) ∧ .returned 0 .ok (some 0) ∈ s.rsms.hist ∧
      (s.rsms.rsm (0, 1)).sm = 5 ∧ (s.rsms.rsm (2, 1)).sm = 5 ∧
      ∃ lin, Linearizes Rsm.adder (s.rsms.hist.filterMap Rsm.mark) lin ∧
        Rsm.adder.after (lin.map Prod.snd) 1 = 5 := by
  have hplay : ((play (fun s act => System.next adderApp three s (act s)) (.init adderApp)
      (submitFive ++ compactFive)).map fun s => (decide (.returned 0 .ok (some 0) ∈ s.rsms.hist),
        (s.rsms.rsm (0, 1)).sm, (s.rsms.rsm (2, 1)).sm, s.current 0,
        (s.cluster.node 0).delivered)) = some (true, 5, 5, 1, 1) := by
    decide +kernel
  obtain ⟨s, hs, hv⟩ := Option.map_eq_some_iff.mp hplay
  simp only [Prod.mk.injEq] at hv
  obtain ⟨hret, h0, h2, hcur, hdel⟩ := hv
  have hreach : s.Reachable adderApp three fun _ => True :=
    (play_run hs).lift id fun s s' ⟨act, hact⟩ => ⟨act s, by cases act s <;> trivial, hact⟩
  obtain ⟨lin, hlin, hsm⟩ := service_linearizable adderApp_roundTrips hreach
  have hafter := (hsm 0).2
  rw [hcur, hdel, h0] at hafter
  exact ⟨s, hreach, of_decide_eq_true hret, h0, h2, lin, hlin, hafter.symm⟩

end Sample

end RaftLab.Kvraft1.Service

/-
  File:      RaftLab/Raft1/Indexes.lean
  Subject:   The index discipline of a Raft server.

  * `IndexesOk` -- where the indexes of a server stand to each other and to its log;
  * `StepAlive`, `NotBack` -- the steps a process lives through, and what they never lower;
  * `index_discipline` -- **both, over every run**; and no section ever leaves the log's range.

  That `commitIndex` never goes back is not local to a server: a late append or a snapshot that
  cut committed entries off would lower it. It is read off the tracked sections, which know that
  what is committed is in the log of every later leader.
-/
import RaftLab.Raft1.Safety
import RaftLab.Raft1.Frame
import RaftLab.Raft1.Progress

namespace RaftLab.Raft1

open RaftLab.Lib RaftLab.Lib.TermLog Relation Cluster

variable {NodeID Cmd : Type}

structure IndexesOk (nodeIDs : List NodeID) (rf : Raft NodeID Cmd) : Prop where
  logs : 1 ≤ rf.logs.length
  snapshotIndex : rf.snapshotIndex ≤ rf.commitIndex
  commitIndex : rf.commitIndex ≤ rf.lastLogIndex
  appliedIndex : rf.appliedIndex ≤ rf.commitIndex
  nextIndex : rf.customerId = .leader → ∀ m ∈ nodeIDs, 1 ≤ rf.nextIndex m

/-- What a living process never lowers. -/
structure NotBack (rf rf' : Raft NodeID Cmd) : Prop where
  term : rf.term ≤ rf'.term
  commitIndex : rf.commitIndex ≤ rf'.commitIndex
  appliedIndex : rf.appliedIndex ≤ rf'.appliedIndex
  snapshotIndex : rf.snapshotIndex ≤ rf'.snapshotIndex

theorem NotBack.refl (rf : Raft NodeID Cmd) : NotBack rf rf :=
  ⟨le_refl _, le_refl _, le_refl _, le_refl _⟩

theorem NotBack.trans {rf rf' rf'' : Raft NodeID Cmd} (h : NotBack rf rf') (h' : NotBack rf' rf'') :
    NotBack rf rf'' where
  term := h.term.trans h'.term
  commitIndex := h.commitIndex.trans h'.commitIndex
  appliedIndex := h.appliedIndex.trans h'.appliedIndex
  snapshotIndex := h.snapshotIndex.trans h'.snapshotIndex

variable [DecidableEq NodeID] [Inhabited Cmd]

/-! ## 1. The steps a process lives through -/

/-- A step of the cluster that is no crash and no restart of node `n`. -/
inductive Cluster.StepAlive (cfg : Config NodeID) (n : NodeID) :
    Cluster NodeID Cmd → Cluster NodeID Cmd → Prop where
  | run {c : Cluster NodeID Cmd} (m : NodeID) (hm : m ∈ cfg.nodeIDs) (ev : Event NodeID Cmd)
      (hev : c.Enabled m ev) (o : Outcome NodeID Cmd) (ho : exec cfg m (c.node m) ev = some o)
      (st : PersistState NodeID Cmd) (hst : (c.disk m).applyAll o.proc.rf.wal = some st) :
      StepAlive cfg n c (c.complete m o st)
  | crash {c : Cluster NodeID Cmd} (m : NodeID) (hm : m ∈ cfg.nodeIDs) (hne : m ≠ n)
      (ev : Event NodeID Cmd) (hev : c.Enabled m ev) (o : Outcome NodeID Cmd)
      (ho : exec cfg m (c.node m) ev = some o) (k j : ℕ) (st : PersistState NodeID Cmd)
      (hst : (c.disk m).applyAll (torn WalOp.cut o.proc.rf.wal k j) = some st) :
      StepAlive cfg n c (c.reboot m o.made st)
  | restart {c : Cluster NodeID Cmd} (m : NodeID) (hm : m ∈ cfg.nodeIDs) (hne : m ≠ n) :
      StepAlive cfg n c (c.reboot m [] (c.disk m))

section Alive

variable {cfg : Config NodeID} {c c' : Cluster NodeID Cmd} {n : NodeID}

theorem Cluster.StepAlive.step (h : StepAlive cfg n c c') : Step cfg c c' := by
  cases h with
  | run m hm ev hev o ho st hst => exact .run m hm ev hev o ho st hst
  | crash m hm _ ev hev o ho k j st hst => exact .crash m hm ev hev o ho k j st hst
  | restart m hm _ => exact .restart m hm

/-- A process lives through a step, or it has just been started. -/
theorem Cluster.Step.alive_or_boot (h : Step cfg c c') (n : NodeID) :
    StepAlive cfg n c c' ∨ ∃ st, c'.node n = Proc.boot st := by
  cases h with
  | run m hm ev hev o ho st hst => exact Or.inl (.run m hm ev hev o ho st hst)
  | crash m hm ev hev o ho k j st hst =>
      by_cases hne : m = n
      · subst hne
        exact Or.inr ⟨st, Function.update_self _ _ _⟩
      · exact Or.inl (.crash m hm hne ev hev o ho k j st hst)
  | restart m hm =>
      by_cases hne : m = n
      · subst hne
        exact Or.inr ⟨c.disk m, Function.update_self _ _ _⟩
      · exact Or.inl (.restart m hm hne)

/-- **What such a step is to the process**: nothing, or one critical section of its own. -/
theorem Cluster.StepAlive.node (h : StepAlive cfg n c c') :
    c'.node n = c.node n ∨ ∃ ev o, n ∈ cfg.nodeIDs ∧ c.Enabled n ev ∧
      exec cfg n (c.node n) ev = some o ∧
      c'.node n = { o.proc with rf := { o.proc.rf with wal := [] } } := by
  cases h with
  | run m hm ev hev o ho st hst =>
      by_cases hne : n = m
      · subst hne
        exact Or.inr ⟨ev, o, hm, hev, ho, Function.update_self _ _ _⟩
      · exact Or.inl (Function.update_of_ne hne _ _)
  | crash m hm hne ev hev o ho k j st hst => exact Or.inl (Function.update_of_ne hne.symm _ _)
  | restart m hm hne => exact Or.inl (Function.update_of_ne hne.symm _ _)

end Alive

/-! ## 2. No section lowers an index -/

section Sections

variable {cfg : Config NodeID} {c : Cluster NodeID Cmd} {a : Record NodeID Cmd} {n : NodeID}
  {o : Outcome NodeID Cmd}

theorem exec_appliedIndex {p : Proc NodeID Cmd} {ev : Event NodeID Cmd}
    (h : exec cfg n p ev = some o) (hle : p.rf.appliedIndex ≤ p.rf.commitIndex) :
    p.rf.appliedIndex ≤ o.proc.rf.appliedIndex := by
  have heff := exec_effect h
  have quiet : Quiet ev p o.proc → p.rf.appliedIndex ≤ o.proc.rf.appliedIndex := by
    intro hq
    rcases hq.rf with hk | ⟨N, data, _, hs⟩
    · exact hk.appliedIndex.ge
    · exact hs.appliedIndex.ge
  cases ev with
  | applyBatch =>
      obtain ⟨rf, msgs, hr, e⟩ := heff
      rw [e, sendApplyMsg_eq hr]
      exact hle
  | apply =>
      obtain ⟨msg, rest, _, e⟩ := heff
      rw [e]
  | _ => exact quiet heff

/-- **No section lowers an index.** -/
theorem exec_notBack (h : Sim cfg c a) (hn : n ∈ cfg.nodeIDs) {ev : Event NodeID Cmd}
    (hev : c.Enabled n ev) (ho : exec cfg n (c.node n) ev = some o) :
    NotBack (c.node n).rf o.proc.rf := by
  obtain ⟨o', _, he, _, hcommit⟩ := exec_ok h hn hev
  obtain rfl : o' = o := Option.some.inj (he.symm.trans ho)
  have happlied := exec_appliedIndex ho (h.proc n).mem.appliedLe
  rcases exec_advances ho with hadv | hel
  · exact ⟨hadv.term, hcommit, happlied, hadv.snapshotIndex⟩
  · exact ⟨hel.term.ge, hcommit, happlied, hel.snapshotIndex.ge⟩

end Sections

/-! ## 3. Whole runs -/

section Runs

variable {cfg : Config NodeID} {c c' : Cluster NodeID Cmd} {a : Record NodeID Cmd} {n : NodeID}

theorem Cluster.StepAlive.notBack (hs : StepAlive cfg n c c') (h : Sim cfg c a) :
    NotBack (c.node n).rf (c'.node n).rf := by
  rcases hs.node with e | ⟨ev, o, hn, hev, ho, e⟩
  · rw [e]
    exact .refl _
  · rw [e]
    obtain ⟨h1, h2, h3, h4⟩ := exec_notBack h hn hev ho
    exact ⟨h1, h2, h3, h4⟩

/-- A process that lives on never lowers its indexes. -/
theorem notBack_run (h : Reachable cfg c) (hr : ReflTransGen (StepAlive cfg n) c c') :
    NotBack (c.node n).rf (c'.node n).rf := by
  induction hr with
  | refl => exact .refl _
  | tail hr hs ih =>
      have hr' := h.trans (hr.lift id fun _ _ hs' => hs'.step)
      obtain ⟨a, hsim⟩ := reachable_sim hr'
      exact ih.trans (hs.notBack hsim)

/-- Terms are durable. -/
theorem term_run (h : Reachable cfg c) (hr : Run cfg c c') (n : NodeID) :
    (c.node n).rf.term ≤ (c'.node n).rf.term := by
  obtain ⟨a, hsim⟩ := reachable_sim h
  obtain ⟨a', hx, hsim'⟩ := hsim.run hr
  rw [(hsim.enter n).term, (hsim'.enter n).term]
  exact hx.term n

/-- A leader never forgets that indexes start at 1. -/
def NextOk (cfg : Config NodeID) (c : Cluster NodeID Cmd) : Prop :=
  ∀ n, (c.node n).rf.customerId = .leader → ∀ m ∈ cfg.nodeIDs, 1 ≤ (c.node n).rf.nextIndex m

theorem nextOk_step (hs : Step cfg c c') (h : NextOk cfg c) : NextOk cfg c' := by
  intro n hr m hm
  rcases hs.alive_or_boot n with halive | ⟨st, e⟩
  · rcases halive.node with e | ⟨ev, o, _, _, ho, e⟩
    · rw [e] at hr ⊢
      exact h n hr m hm
    · rw [e] at hr ⊢
      rcases exec_advances ho with hadv | hel
      · obtain ⟨hlead, _, _, hnext⟩ := hadv.leads hr
        exact hnext m (h n hlead m hm)
      · exact hel.nextIndex m hm
  · rw [e] at hr
    cases hr

theorem nextOk_reachable (h : Reachable cfg c) : NextOk cfg c := by
  induction h with
  | refl =>
      intro n hr
      cases hr
  | tail _ hs ih => exact nextOk_step hs ih

theorem indexesOk_reachable (h : Reachable cfg c) (n : NodeID) :
    IndexesOk cfg.nodeIDs (c.node n).rf := by
  obtain ⟨a, hsim⟩ := reachable_sim h
  have hv := hsim.views n
  have hm := (hsim.proc n).mem
  refine ⟨?_, hm.snapLe, ?_, hm.appliedLe, nextOk_reachable h n⟩
  · rw [hv.logs]
    exact Nat.succ_le_succ (Nat.zero_le _)
  · rw [hv.lastLogIndex]
    exact hm.commitLe

/-- No section panics: what it reads is in range, and its WAL calls can be made. -/
theorem exec_total (h : Reachable cfg c) (hn : n ∈ cfg.nodeIDs) {ev : Event NodeID Cmd}
    (hev : c.Enabled n ev) :
    ∃ o st, exec cfg n (c.node n) ev = some o ∧ (c.disk n).applyAll o.proc.rf.wal = some st := by
  obtain ⟨a, hsim⟩ := reachable_sim h
  obtain ⟨o, a', ho, hsec, _⟩ := exec_ok hsim hn hev
  exact ⟨o, _, ho, hsec.track.full⟩

/-- **The index discipline**: where the indexes stand in every reachable state, what a living
    process never lowers and a restart does not lower either, and that no critical section that
    can be entered ever leaves the range of the log. -/
theorem index_discipline (h : Reachable cfg c) :
    (∀ n, IndexesOk cfg.nodeIDs (c.node n).rf) ∧
    (∀ n c', ReflTransGen (StepAlive cfg n) c c' → NotBack (c.node n).rf (c'.node n).rf) ∧
    (∀ n c', Run cfg c c' → (c.node n).rf.term ≤ (c'.node n).rf.term) ∧
    ∀ n ∈ cfg.nodeIDs, ∀ ev, c.Enabled n ev → ∃ o st, exec cfg n (c.node n) ev = some o ∧
      (c.disk n).applyAll o.proc.rf.wal = some st :=
  ⟨fun n => indexesOk_reachable h n, fun _ _ hr => notBack_run h hr,
    fun n _ hr => term_run h hr n, fun _ hn _ hev => exec_total h hn hev⟩

end Runs

/-- Server 2 has crashed inside the installation of a snapshot and installed it again. -/
theorem index_discipline_sample : ∃ c : Cluster ℕ ℕ, Reachable three c ∧
    (c.node 2).rf.snapshotIndex = 1 ∧ (c.node 0).rf.customerId = .leader ∧
    (∀ n, IndexesOk three.nodeIDs (c.node n).rf) ∧
    ∃ o st, exec three 0 (c.node 0) .heartbeat = some o ∧
      (c.disk 0).applyAll o.proc.rf.wal = some st := by
  obtain ⟨c, hr, hv⟩ := exists_played init sampleRun
    (fun c => decide ((c.node 2).rf.snapshotIndex = 1 ∧ (c.node 0).rf.customerId = .leader))
    (v := true) (by decide +kernel)
  obtain ⟨h1, h2⟩ := of_decide_eq_true hv
  obtain ⟨hok, _, _, htotal⟩ := index_discipline hr
  exact ⟨c, hr, h1, h2, hok, htotal 0 (by decide) .heartbeat trivial⟩

end RaftLab.Raft1

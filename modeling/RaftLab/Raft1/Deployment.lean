/-
  File:      RaftLab/Raft1/Deployment.lean
  Subject:   The cluster with real WALs: every node writes through an implementation of the `WAL`
             interface and starts from what its `Load` returns.

  Cluster.lean applies the WAL calls of a section to a reference state. Here they go to an
  implementation (`WalImpl`), which may be stopped at any operation of any call or of its start.

  * `Contract` -- what an implementation owes: its calls do what the reference does, its crashes
    leave what the reference may be left with, and a start recovers the state held;
  * `Allowed`, `exec_allowed` -- **the calls of every section are within the contract**: each
    `TruncateSuffix` above the snapshot and inside the log, each snapshot non-empty;
  * `Mirrors.step`, `reachable_mirrors` -- every run of the deployment is a run of the cluster, and
    every WAL is in step with its node's persistent fields.
-/
import RaftLab.Raft1.Progress
import RaftLab.Raft1.Frame
import RaftLab.Raft1.Safety
import RaftLab.Raft1.PersisterWal
import RaftLab.Lib.Runs

namespace RaftLab.Raft1

open RaftLab.Lib Relation
open RaftLab.FileWal (Valid CutBy)

/-! ## 1. Implementations -/

/-- An implementation of the `WAL` interface, with what it leaves on a disk. -/
structure WalImpl (NodeID Cmd : Type) where
  Wal : Type
  Store : Type
  /-- The disk of a new node. -/
  blank : Store
  store : Wal → Store
  call : Wal → WalOp NodeID Cmd → Option Wal
  /-- A call the process does not survive, stopped in part `j` of its operation `k`. -/
  cut : Wal → WalOp NodeID Cmd → ℕ → ℕ → Option Store
  /-- The WAL is opened, and `Load` returns. -/
  start : Store → Option (Wal × PersistState NodeID Cmd × Bool)
  /-- A start the process does not survive. -/
  startCut : Store → ℕ → ℕ → Option Store
  /-- The persistent state as the WAL itself has it. -/
  model : Wal → Option (PersistState NodeID Cmd)

namespace WalImpl

variable {NodeID Cmd : Type} (impl : WalImpl NodeID Cmd)

/-- The calls of a section, one after the other. -/
def callAll (w : impl.Wal) (ops : List (WalOp NodeID Cmd)) : Option impl.Wal :=
  ops.foldlM impl.call w

/-- The process dies after `calls` of them, inside the next one or before it releases the lock. -/
def crashIn (w : impl.Wal) (ops : List (WalOp NodeID Cmd)) (calls k j : ℕ) :
    Option impl.Store := do
  let w ← impl.callAll w (ops.take calls)
  match ops[calls]? with
  | some op => impl.cut w op k j
  | none => some (impl.store w)

/-- A start after some that the process did not survive. -/
def reboot (s : impl.Store) (starts : List (ℕ × ℕ)) :
    Option (impl.Wal × PersistState NodeID Cmd × Bool) := do
  let s ← starts.foldlM (fun s x => impl.startCut s x.1 x.2) s
  impl.start s

end WalImpl

section Contracts

variable {NodeID Cmd : Type} [Inhabited Cmd]

/-- What an implementation owes for calls that fit. -/
structure Contract (impl : WalImpl NodeID Cmd) (fits : WalOp NodeID Cmd → Prop) where
  holds : impl.Store → PersistState NodeID Cmd → Prop
  inStep : impl.Wal → PersistState NodeID Cmd → Prop
  blank : holds impl.blank .fresh
  store : ∀ {w st}, inStep w st → holds (impl.store w) st
  model : ∀ {w st}, inStep w st → impl.model w = some st
  call : ∀ {w st op}, inStep w st → Valid st op → op.Filled → fits op →
    ∃ w' st', impl.call w op = some w' ∧ st.apply op = some st' ∧ inStep w' st'
  cut : ∀ {w st op} (k j), inStep w st → Valid st op → op.Filled → fits op →
    ∃ s st', impl.cut w op k j = some s ∧ CutBy st op st' ∧ holds s st'
  start : ∀ {s st}, holds s st →
    ∃ w x, impl.start s = some (w, x) ∧ recovered x = st ∧ inStep w st
  startCut : ∀ {s st} (k j), holds s st → ∃ s', impl.startCut s k j = some s' ∧ holds s' st

/-- Calls each of which is in order where it is made. -/
def Allowed : PersistState NodeID Cmd → List (WalOp NodeID Cmd) → Prop
  | _, [] => True
  | st, op :: ops => Valid st op ∧ op.Filled ∧ ∀ st', st.apply op = some st' → Allowed st' ops

theorem Allowed.append {ops ops' : List (WalOp NodeID Cmd)} {st : PersistState NodeID Cmd}
    (hall : Allowed st ops) (h : ∀ st', st.applyAll ops = some st' → Allowed st' ops') :
    Allowed st (ops ++ ops') := by
  induction ops generalizing st with
  | nil => exact h st rfl
  | cons op ops ih =>
      obtain ⟨hv, hf, hrest⟩ := hall
      refine ⟨hv, hf, fun st' ha => ih (hrest st' ha) fun st'' ha' => h st'' ?_⟩
      rw [PersistState.applyAll_cons, ha]
      exact ha'

theorem Allowed.of_append {ops ops' : List (WalOp NodeID Cmd)} {st : PersistState NodeID Cmd}
    (hall : Allowed st (ops ++ ops')) :
    Allowed st ops ∧ ∀ st', st.applyAll ops = some st' → Allowed st' ops' := by
  induction ops generalizing st with
  | nil =>
      refine ⟨trivial, fun st' e => ?_⟩
      cases e
      exact hall
  | cons op ops ih =>
      obtain ⟨hv, hf, hrest⟩ := hall
      refine ⟨⟨hv, hf, fun st' ha => (ih (hrest st' ha)).1⟩, ?_⟩
      intro st' ha
      obtain ⟨st1, h1, h2⟩ := Option.bind_eq_some_iff.mp ha
      exact (ih (hrest st1 h1)).2 st' h2

/-- Calls that leave the snapshot alone and cut the log above it. -/
theorem allowed_of_keeps {ops : List (WalOp NodeID Cmd)} {st st' : PersistState NodeID Cmd}
    (hops : ∀ op ∈ ops, op.KeepsSnapshot)
    (hcut : ∀ k, WalOp.truncateSuffix k ∈ ops → st.snapshotIndex < k)
    (ha : st.applyAll ops = some st') : Allowed st ops := by
  induction ops generalizing st with
  | nil => trivial
  | cons op ops ih =>
      obtain ⟨st1, h1, h2⟩ := Option.bind_eq_some_iff.mp ha
      have hkeep := hops op List.mem_cons_self
      obtain ⟨hsi, _⟩ := apply_keeps hkeep h1
      have hrest : ∀ st2, st.apply op = some st2 → Allowed st2 ops := by
        intro st2 e
        cases h1.symm.trans e
        refine ih (fun x hx => hops x (List.mem_cons_of_mem _ hx)) ?_ h2
        intro k hk
        rw [hsi]
        exact hcut k (List.mem_cons_of_mem _ hk)
      cases op with
      | saveMeta term vote => exact ⟨trivial, trivial, hrest⟩
      | appendLog entries => exact ⟨trivial, trivial, hrest⟩
      | truncateSuffix fromIndex =>
          have hlow := hcut fromIndex List.mem_cons_self
          obtain ⟨logs, hup, _⟩ := Option.bind_eq_some_iff.mp h1
          unfold Slice.upto? at hup
          split at hup
          · exact ⟨⟨hlow, by omega⟩, trivial, hrest⟩
          · cases hup
      | saveSnapshot => exact hkeep.elim

namespace Contract

variable {impl : WalImpl NodeID Cmd} {fits : WalOp NodeID Cmd → Prop} (C : Contract impl fits)

/-- **The calls of a section** do what the reference does. -/
theorem callAll {ops : List (WalOp NodeID Cmd)} {w : impl.Wal} {st : PersistState NodeID Cmd}
    (h : C.inStep w st) (hall : Allowed st ops) (hfits : ∀ op ∈ ops, fits op) :
    ∃ w' st', impl.callAll w ops = some w' ∧ st.applyAll ops = some st' ∧ C.inStep w' st' := by
  induction ops generalizing w st with
  | nil => exact ⟨w, st, rfl, rfl, h⟩
  | cons op ops ih =>
      obtain ⟨hv, hf, hrest⟩ := hall
      obtain ⟨w1, st1, hrun, ha, h1⟩ := C.call h hv hf (hfits op List.mem_cons_self)
      obtain ⟨w', st', hrun', ha', h'⟩ := ih h1 (hrest st1 ha)
        fun x hx => hfits x (List.mem_cons_of_mem _ hx)
      refine ⟨w', st', ?_, ?_, h'⟩
      · show (impl.call w op).bind (fun w => impl.callAll w ops) = _
        rw [hrun]
        exact hrun'
      · rw [PersistState.applyAll_cons, ha]
        exact ha'

/-- What is cut at its very beginning has no effect. -/
theorem applyAll_cut_zero (st : PersistState NodeID Cmd) (op : WalOp NodeID Cmd) :
    st.applyAll (op.cut 0) = some st := by
  cases op with
  | appendLog entries => simp [WalOp.cut, PersistState.applyAll, PersistState.apply]
  | saveMeta => rfl
  | truncateSuffix => rfl
  | saveSnapshot => rfl

/-- A call cut after others is a place where the sequence of calls is cut. -/
theorem applyAll_cutBy {ops : List (WalOp NodeID Cmd)} {calls : ℕ} {op : WalOp NodeID Cmd}
    {st st1 st' : PersistState NodeID Cmd} (hop : ops[calls]? = some op)
    (h1 : st.applyAll (ops.take calls) = some st1) (hcut : CutBy st1 op st') :
    ∃ k j, st.applyAll (torn WalOp.cut ops k j) = some st' := by
  obtain ⟨k, j, ha⟩ := hcut
  cases k with
  | zero =>
      refine ⟨calls, j, ?_⟩
      unfold torn
      rw [hop, PersistState.applyAll_append, h1]
      rwa [torn_cons_zero] at ha
  | succ k =>
      refine ⟨calls + 1, 0, ?_⟩
      have hwhole : st.applyAll (ops.take (calls + 1)) = some st' := by
        rw [List.take_add_one, hop, PersistState.applyAll_append, h1]
        rwa [torn_of_length_le _ _ (by simp)] at ha
      unfold torn
      rw [PersistState.applyAll_append, hwhole]
      cases ops[calls + 1]? with
      | none => rfl
      | some op' => exact applyAll_cut_zero st' op'

/-- **A crash inside a section** leaves what the reference may be left with. -/
theorem crashIn {ops : List (WalOp NodeID Cmd)} {w : impl.Wal} {st : PersistState NodeID Cmd}
    (h : C.inStep w st) (hall : Allowed st ops) (hfits : ∀ op ∈ ops, fits op) (calls k j : ℕ) :
    ∃ s st', impl.crashIn w ops calls k j = some s ∧ C.holds s st' ∧
      ∃ k' j', st.applyAll (torn WalOp.cut ops k' j') = some st' := by
  have hsplit : Allowed st (ops.take calls ++ ops.drop calls) := by
    rw [List.take_append_drop]
    exact hall
  obtain ⟨hpre, hpost⟩ := hsplit.of_append
  obtain ⟨w1, st1, hrun, ha, h1⟩ :=
    C.callAll h hpre fun op hop => hfits op (List.mem_of_mem_take hop)
  unfold WalImpl.crashIn
  rw [hrun]
  simp only [Option.bind_eq_bind, Option.bind_some]
  cases hop : ops[calls]? with
  | none =>
      refine ⟨_, st1, rfl, C.store h1, calls, 0, ?_⟩
      unfold torn
      rw [hop, List.append_nil]
      exact ha
  | some op =>
      have hlt : calls < ops.length := (List.getElem?_eq_some_iff.mp hop).1
      have hdrop : ops.drop calls = op :: ops.drop (calls + 1) := by
        rw [List.drop_eq_getElem_cons hlt, (List.getElem?_eq_some_iff.mp hop).2]
      have hnext := hpost st1 ha
      rw [hdrop] at hnext
      obtain ⟨s, st', hs, hcut, hd⟩ :=
        C.cut k j h1 hnext.1 hnext.2.1 (hfits op (List.mem_of_getElem? hop))
      exact ⟨s, st', hs, hd, applyAll_cutBy hop ha hcut⟩

/-- **Starting again** recovers the state held, whatever starts failed before. -/
theorem reboot (starts : List (ℕ × ℕ)) {s : impl.Store} {st : PersistState NodeID Cmd}
    (h : C.holds s st) :
    ∃ w x, impl.reboot s starts = some (w, x) ∧ recovered x = st ∧ C.inStep w st := by
  induction starts generalizing s with
  | nil => exact C.start h
  | cons x starts ih =>
      obtain ⟨s', hs, h'⟩ := C.startCut x.1 x.2 h
      obtain ⟨w, y, hrun, hy, hw⟩ := ih h'
      refine ⟨w, y, ?_, hy, hw⟩
      unfold WalImpl.reboot at hrun ⊢
      rw [List.foldlM_cons, hs]
      exact hrun

end Contract

end Contracts

/-! ## 2. The deployment -/

/-- The cluster, with a WAL at every node in place of its disk. -/
structure Deployment {NodeID Cmd : Type} (impl : WalImpl NodeID Cmd) where
  node : NodeID → Proc NodeID Cmd
  wal : NodeID → impl.Wal
  net : List (Packet NodeID Cmd)
  replies : List (Packet NodeID Cmd × Answer)
  sent : List (NodeID × ApplyMsg Cmd)
  made : List (NodeID × ℕ × Bytes)

namespace Deployment

variable {NodeID Cmd : Type} {impl : WalImpl NodeID Cmd}

/-- The cluster it is when its disks are read as `disk`. -/
def toCluster (d : Deployment impl) (disk : NodeID → PersistState NodeID Cmd) :
    Cluster NodeID Cmd where
  node := d.node
  disk := disk
  net := d.net
  replies := d.replies
  sent := d.sent
  made := d.made

/-- The deployment of a cluster, whose disks it does not look at. -/
def ofCluster (c : Cluster NodeID Cmd) (wal : NodeID → impl.Wal) : Deployment impl where
  node := c.node
  wal := wal
  net := c.net
  replies := c.replies
  sent := c.sent
  made := c.made

variable [DecidableEq NodeID] [Inhabited Cmd]

/-- The cluster without its disks. -/
abbrev bare (d : Deployment impl) : Cluster NodeID Cmd := d.toCluster fun _ => .fresh

def complete (d : Deployment impl) (n : NodeID) (o : Outcome NodeID Cmd) (w : impl.Wal) :
    Deployment impl :=
  ofCluster (d.bare.complete n o .fresh) (Function.update d.wal n w)

theorem complete_wal (d : Deployment impl) (n : NodeID) (o : Outcome NodeID Cmd) (w : impl.Wal) :
    (d.complete n o w).wal n = w := Function.update_self _ _ _

def reboot (d : Deployment impl) (n : NodeID) (made : List (ℕ × Bytes)) (w : impl.Wal)
    (st : PersistState NodeID Cmd) : Deployment impl :=
  ofCluster (d.bare.reboot n made st) (Function.update d.wal n w)

/-- Every node has just been started on a blank disk. -/
def boot (w : impl.Wal) (x : PersistState NodeID Cmd × Bool) : Deployment impl where
  node _ := Proc.boot (recovered x)
  wal _ := w
  net := []
  replies := []
  sent := []
  made := []

/-- **One step of the deployment**: the steps of the cluster, with the calls made on the WAL. The
    calls of a section fit. -/
inductive Step (cfg : Config NodeID) (fits : WalOp NodeID Cmd → Prop) :
    Deployment impl → Deployment impl → Prop where
  | run {d : Deployment impl} (n : NodeID) (hn : n ∈ cfg.nodeIDs) (ev : Event NodeID Cmd)
      (hev : d.bare.Enabled n ev) (o : Outcome NodeID Cmd)
      (ho : exec cfg n (d.node n) ev = some o) (hfits : ∀ op ∈ o.proc.rf.wal, fits op)
      (w : impl.Wal) (hw : impl.callAll (d.wal n) o.proc.rf.wal = some w) :
      Step cfg fits d (d.complete n o w)
  | crash {d : Deployment impl} (n : NodeID) (hn : n ∈ cfg.nodeIDs) (ev : Event NodeID Cmd)
      (hev : d.bare.Enabled n ev) (o : Outcome NodeID Cmd)
      (ho : exec cfg n (d.node n) ev = some o) (hfits : ∀ op ∈ o.proc.rf.wal, fits op)
      (calls k j : ℕ) (s : impl.Store)
      (hs : impl.crashIn (d.wal n) o.proc.rf.wal calls k j = some s) (starts : List (ℕ × ℕ))
      (w : impl.Wal) (x : PersistState NodeID Cmd × Bool)
      (hx : impl.reboot s starts = some (w, x)) :
      Step cfg fits d (d.reboot n o.made w (recovered x))
  | restart {d : Deployment impl} (n : NodeID) (hn : n ∈ cfg.nodeIDs) (starts : List (ℕ × ℕ))
      (w : impl.Wal) (x : PersistState NodeID Cmd × Bool)
      (hx : impl.reboot (impl.store (d.wal n)) starts = some (w, x)) :
      Step cfg fits d (d.reboot n [] w (recovered x))

abbrev Run (cfg : Config NodeID) (fits : WalOp NodeID Cmd → Prop) :
    Deployment impl → Deployment impl → Prop := ReflTransGen (Step cfg fits)

/-- The states reached from blank disks. -/
def Reachable (cfg : Config NodeID) (fits : WalOp NodeID Cmd → Prop) (d : Deployment impl) :
    Prop := ∃ w x, impl.start impl.blank = some (w, x) ∧ Run cfg fits (boot w x) d

end Deployment

/-! ## 3. The calls of a section -/

section Sections

variable {NodeID Cmd : Type} [DecidableEq NodeID] [Inhabited Cmd] {cfg : Config NodeID}
  {c c' : Cluster NodeID Cmd} {n : NodeID} {ev : Event NodeID Cmd} {o : Outcome NodeID Cmd}

/-- No snapshot a service has produced is empty. -/
def MadeFilled (c : Cluster NodeID Cmd) : Prop := ∀ x ∈ c.made, x.2.2 ≠ []

theorem MadeFilled.step (h : MadeFilled c) (hs : c.Step cfg c') : MadeFilled c' := by
  have hnew : ∀ {n : NodeID} {ev : Event NodeID Cmd} {o : Outcome NodeID Cmd},
      c.Enabled n ev → exec cfg n (c.node n) ev = some o →
      ∀ x ∈ c.made ++ o.made.map fun x => (n, x.1, x.2), x.2.2 ≠ [] := by
    intro n ev o hev ho x hx
    rcases List.mem_append.mp hx with hx | hx
    · exact h x hx
    · obtain ⟨y, hy, rfl⟩ := List.mem_map.mp hx
      have e := (exec_output ho).made y hy
      subst e
      exact hev.2
  cases hs with
  | run n hn ev hev o ho st hst => exact hnew hev ho
  | crash n hn ev hev o ho k j st hst => exact hnew hev ho
  | restart n hn =>
      intro x hx
      have hx' : x ∈ c.made ++ [] := hx
      rw [List.append_nil] at hx'
      exact h x hx'

theorem madeFilled (hr : Cluster.Reachable cfg c) : MadeFilled c :=
  run_inv (I := MadeFilled) (fun _ _ hs h => h.step hs) hr fun _ hx => absurd hx List.not_mem_nil

/-- A snapshot that reaches a server is not empty. -/
theorem brings_filled (hr : Cluster.Reachable cfg c) (hev : c.Enabled n ev) {N : ℕ} {data : Bytes}
    (hb : Brings N data ev) : data ≠ [] := by
  cases ev with
  | snapshot index data' =>
      obtain ⟨_, rfl⟩ := hb
      exact hev.2
  | deliver pkt =>
      obtain ⟨args, hcall, hdata, _⟩ := hb
      obtain ⟨a, h⟩ := reachable_sim hr
      have hpk := h.net pkt hev.1
      unfold PacketOk at hpk
      rw [hcall] at hpk
      obtain ⟨_, _, _, m, hm⟩ := hpk.2.2.snapshot data hdata
      exact madeFilled hr _ hm
  | _ => exact hb.elim

/-- **The calls of every section are in order**, whatever the section: each `TruncateSuffix` cuts
    above the snapshot and inside the log, and each snapshot saved is non-empty. -/
theorem exec_allowed (hr : Cluster.Reachable cfg c) (hn : n ∈ cfg.nodeIDs) (hev : c.Enabled n ev)
    (ho : exec cfg n (c.node n) ev = some o) : Allowed (c.disk n) o.proc.rf.wal := by
  obtain ⟨a, h⟩ := reachable_sim hr
  obtain ⟨o', a', he, hsec, _⟩ := exec_ok h hn hev
  obtain rfl : o' = o := Option.some.inj (he.symm.trans ho)
  have hfull := hsec.track.full
  have hsnap : (c.disk n).snapshotIndex = (c.node n).rf.snapshotIndex := by
    rw [h.disk n]
    rfl
  have hcut : ∀ k, WalOp.truncateSuffix k ∈ o'.proc.rf.wal → (c.disk n).snapshotIndex < k := by
    intro k hk
    rw [hsnap]
    rcases exec_advances ho with hadv | hel
    · obtain ⟨ops, e, hops⟩ := hadv.wal
      rw [e, h.wal n, List.nil_append] at hk
      exact hops k hk
    · rw [hel.wal, h.wal n] at hk
      exact absurd hk List.not_mem_nil
  rcases exec_kind ho with ⟨_, _, ops, hwal, hops⟩ | ⟨N, data, hb, hs⟩
  · rw [h.wal n, List.nil_append] at hwal
    rw [hwal] at hfull hcut ⊢
    exact allowed_of_keeps hops hcut hfull
  · obtain ⟨ops, term, suffix, hwal, hops⟩ := hs.wal
    rw [h.wal n, List.nil_append] at hwal
    rw [hwal] at hfull hcut ⊢
    rw [PersistState.applyAll_append] at hfull
    obtain ⟨st1, h1, _⟩ := Option.bind_eq_some_iff.mp hfull
    refine (allowed_of_keeps hops (fun k hk => hcut k (List.mem_append_left _ hk)) h1).append ?_
    intro st' _
    refine ⟨trivial, fun e => ?_, fun _ _ => trivial⟩
    exact brings_filled hr hev hb (Option.some.inj e)

end Sections

/-! ## 4. The deployment refines the cluster -/

section Refinement

variable {NodeID Cmd : Type} [DecidableEq NodeID] [Inhabited Cmd] {cfg : Config NodeID}
  {impl : WalImpl NodeID Cmd} {fits : WalOp NodeID Cmd → Prop} (C : Contract impl fits)
  {d d' : Deployment impl}

/-- The deployment is in a state of the cluster with the disks `disk`, which its WALs hold. -/
structure Mirrors (cfg : Config NodeID) (d : Deployment impl)
    (disk : NodeID → PersistState NodeID Cmd) : Prop where
  reachable : Cluster.Reachable cfg (d.toCluster disk)
  inStep : ∀ n, C.inStep (d.wal n) (disk n)

variable {C} {disk : NodeID → PersistState NodeID Cmd}

omit [DecidableEq NodeID] in
/-- What can happen does not depend on the disks. -/
theorem enabled_toCluster (disk : NodeID → PersistState NodeID Cmd) {n : NodeID}
    {ev : Event NodeID Cmd} (h : d.bare.Enabled n ev) : (d.toCluster disk).Enabled n ev := by
  cases ev <;> exact h

theorem inStep_update (h : ∀ m, C.inStep (d.wal m) (disk m)) {n : NodeID}
    {w : impl.Wal} {st : PersistState NodeID Cmd} (hw : C.inStep w st) :
    ∀ m, C.inStep (Function.update d.wal n w m) (Function.update disk n st m) := by
  intro m
  by_cases hm : m = n
  · subst hm
    simp only [Function.update_self]
    exact hw
  · simp only [Function.update_of_ne hm]
    exact h m

/-- **One step of the deployment is one step of the cluster.** -/
theorem Mirrors.step (h : Mirrors C cfg d disk) (hs : d.Step cfg fits d') :
    ∃ disk', (d.toCluster disk).Step cfg (d'.toCluster disk') ∧ Mirrors C cfg d' disk' := by
  cases hs with
  | run n hn ev hev o ho hfits w hw =>
      have hev' := enabled_toCluster disk hev
      have hall := exec_allowed h.reachable hn hev' ho
      obtain ⟨w', st', hrun, ha, hw'⟩ := C.callAll (h.inStep n) hall hfits
      obtain rfl : w' = w := Option.some.inj (hrun.symm.trans hw)
      have hstep : (d.toCluster disk).Step cfg
          ((d.complete n o w').toCluster (Function.update disk n st')) :=
        .run n hn ev hev' o ho st' ha
      exact ⟨_, hstep, h.reachable.tail hstep, inStep_update h.inStep hw'⟩
  | crash n hn ev hev o ho hfits calls k j s hs starts w x hx =>
      have hev' := enabled_toCluster disk hev
      have hall := exec_allowed h.reachable hn hev' ho
      obtain ⟨s', st', hrun, hd, k', j', ha⟩ := C.crashIn (h.inStep n) hall hfits calls k j
      obtain rfl : s' = s := Option.some.inj (hrun.symm.trans hs)
      obtain ⟨w', x', hrun', hrec, hw'⟩ := C.reboot starts hd
      cases hrun'.symm.trans hx
      subst hrec
      have hstep : (d.toCluster disk).Step cfg
          ((d.reboot n o.made w (recovered x)).toCluster
            (Function.update disk n (recovered x))) :=
        .crash n hn ev hev' o ho k' j' _ ha
      exact ⟨_, hstep, h.reachable.tail hstep, inStep_update h.inStep hw'⟩
  | restart n hn starts w x hx =>
      obtain ⟨w', x', hrun, hrec, hw'⟩ := C.reboot starts (C.store (h.inStep n))
      cases hrun.symm.trans hx
      have hstep : (d.toCluster disk).Step cfg
          ((d.reboot n [] w (recovered x)).toCluster (Function.update disk n (recovered x))) := by
        rw [hrec]
        exact .restart n hn
      rw [← hrec] at hw'
      exact ⟨_, hstep, h.reachable.tail hstep, inStep_update h.inStep hw'⟩

/-- **Every run of the deployment is a run of the cluster.** -/
theorem Mirrors.run (h : Mirrors C cfg d disk) (hr : d.Run cfg fits d') :
    ∃ disk', Mirrors C cfg d' disk' := by
  induction hr with
  | refl => exact ⟨disk, h⟩
  | tail _ hs ih =>
      obtain ⟨disk1, h1⟩ := ih
      obtain ⟨disk2, _, h2⟩ := h1.step hs
      exact ⟨disk2, h2⟩

theorem reachable_mirrors (hr : d.Reachable cfg fits) : ∃ disk, Mirrors C cfg d disk := by
  obtain ⟨w, x, hx, hrun⟩ := hr
  obtain ⟨w', x', hstart, hrec, hw⟩ := C.start C.blank
  cases hstart.symm.trans hx
  have h0 : Mirrors C cfg (Deployment.boot w x) fun _ => .fresh := by
    refine ⟨?_, fun _ => hw⟩
    have e : (Deployment.boot w x).toCluster (fun _ => .fresh) = Cluster.init := by
      unfold Deployment.boot
      rw [hrec]
      rfl
    have hinit : Cluster.Reachable cfg (Cluster.init : Cluster NodeID Cmd) := .refl
    exact e.symm ▸ hinit
  exact h0.run hrun

/-- **Every WAL is in step with its node**: it holds the node's persistent fields. -/
theorem reachable_inStep (hr : d.Reachable cfg fits) (n : NodeID) :
    C.inStep (d.wal n) (d.node n).rf.persist := by
  obtain ⟨disk, h⟩ := reachable_mirrors (C := C) hr
  obtain ⟨a, hsim⟩ := reachable_sim h.reachable
  have hd : disk n = (d.node n).rf.persist := hsim.disk n
  rw [← hd]
  exact h.inStep n

variable (cfg) in
/-- Every `TruncateSuffix` a section of node `n` makes is above the snapshot and inside the log of
    the WAL's own model where it is made. -/
def TruncatesInside (fits : WalOp NodeID Cmd → Prop) (d : Deployment impl) (n : NodeID) : Prop :=
  ∀ ev o, d.bare.Enabled n ev → exec cfg n (d.node n) ev = some o →
    (∀ op ∈ o.proc.rf.wal, fits op) →
    ∀ pre k post, o.proc.rf.wal = pre ++ .truncateSuffix k :: post →
      ∃ w st, impl.callAll (d.wal n) pre = some w ∧ impl.model w = some st ∧
        st.snapshotIndex < k ∧ k ≤ st.logs.length - 1 + st.snapshotIndex + 1

theorem reachable_truncatesInside (C : Contract impl fits) (hr : d.Reachable cfg fits) {n : NodeID}
    (hn : n ∈ cfg.nodeIDs) : TruncatesInside cfg fits d n := by
  intro ev o hev ho hfits pre k post hwal
  obtain ⟨disk, h⟩ := reachable_mirrors (C := C) hr
  have hall := exec_allowed h.reachable hn (enabled_toCluster disk hev) ho
  rw [hwal] at hall hfits
  obtain ⟨hpre, hpost⟩ := hall.of_append
  obtain ⟨w, st, hrun, ha, hw⟩ := C.callAll (h.inStep n) hpre fun op hop =>
    hfits op (List.mem_append_left _ hop)
  obtain ⟨⟨hlow, hhigh⟩, _⟩ := hpost st ha
  exact ⟨w, st, hrun, C.model hw, hlow, by omega⟩

end Refinement

end RaftLab.Raft1

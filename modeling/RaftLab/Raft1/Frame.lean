/-
  File:      RaftLab/Raft1/Frame.lean
  Subject:   What a critical section of a Raft server does to its snapshot.

  Two kinds of sections: those that leave the snapshot, its index and `appliedIndex` alone
  (`Keeps`), and those that save a newer snapshot (`Saves`), which are the service's `Snapshot`
  and the InstallSnapshot branch of `AppendEntriesHandler`.

  * `exec_effect` -- the kind of every event, and what it does to the batch being applied;
  * `exec_disk`, `exec_disk_torn` -- what that leaves on the disk, whole or cut by a crash.
-/
import RaftLab.Raft1.Changes

namespace RaftLab.Raft1

open RaftLab.Lib

variable {NodeID Cmd : Type}

/-! ## 1. The two kinds -/

/-- A WAL call that leaves the durable snapshot alone. -/
def WalOp.KeepsSnapshot : WalOp NodeID Cmd → Prop
  | .saveSnapshot _ _ _ _ => False
  | _ => True

structure Keeps (rf rf' : Raft NodeID Cmd) : Prop where
  snapshotIndex : rf'.snapshotIndex = rf.snapshotIndex
  snapshot : rf'.snapshot = rf.snapshot
  appliedIndex : rf'.appliedIndex = rf.appliedIndex
  wal : ∃ ops, rf'.wal = rf.wal ++ ops ∧ ∀ op ∈ ops, op.KeepsSnapshot

structure Saves (N : ℕ) (data : Bytes) (rf rf' : Raft NodeID Cmd) : Prop where
  newer : rf.snapshotIndex < N
  snapshotIndex : rf'.snapshotIndex = N
  snapshot : rf'.snapshot = some data
  appliedIndex : rf'.appliedIndex = rf.appliedIndex
  wal : ∃ ops term suffix, rf'.wal = rf.wal ++ (ops ++ [.saveSnapshot N term (some data) suffix]) ∧
    ∀ op ∈ ops, op.KeepsSnapshot

section Kinds

variable {rf rf' rf'' : Raft NodeID Cmd}

theorem Keeps.of_wal_eq (h1 : rf'.snapshotIndex = rf.snapshotIndex)
    (h2 : rf'.snapshot = rf.snapshot) (h3 : rf'.appliedIndex = rf.appliedIndex)
    (h4 : rf'.wal = rf.wal) : Keeps rf rf' :=
  ⟨h1, h2, h3, [], by rw [h4, List.append_nil], fun _ h => absurd h List.not_mem_nil⟩

theorem Keeps.refl (rf : Raft NodeID Cmd) : Keeps rf rf := .of_wal_eq rfl rfl rfl rfl

/-- A section that ends with one WAL call. -/
theorem Keeps.of_wal_one {op : WalOp NodeID Cmd} (h1 : rf'.snapshotIndex = rf.snapshotIndex)
    (h2 : rf'.snapshot = rf.snapshot) (h3 : rf'.appliedIndex = rf.appliedIndex)
    (h4 : rf'.wal = rf.wal ++ [op]) (hop : op.KeepsSnapshot) : Keeps rf rf' :=
  ⟨h1, h2, h3, [op], h4, fun x hx => by rw [List.mem_singleton.mp hx]; exact hop⟩

theorem Keeps.trans (h : Keeps rf rf') (h' : Keeps rf' rf'') : Keeps rf rf'' := by
  obtain ⟨ops, e, hops⟩ := h.wal
  obtain ⟨ops', e', hops'⟩ := h'.wal
  refine ⟨h'.snapshotIndex.trans h.snapshotIndex, h'.snapshot.trans h.snapshot,
    h'.appliedIndex.trans h.appliedIndex, ops ++ ops', by rw [e', e, List.append_assoc], ?_⟩
  intro op hop
  rcases List.mem_append.mp hop with hop | hop
  · exact hops op hop
  · exact hops' op hop

theorem Keeps.saves {N : ℕ} {data : Bytes} (h : Keeps rf rf') (h' : Saves N data rf' rf'') :
    Saves N data rf rf'' := by
  obtain ⟨ops, e, hops⟩ := h.wal
  obtain ⟨ops', term, suffix, e', hops'⟩ := h'.wal
  refine ⟨h.snapshotIndex ▸ h'.newer, h'.snapshotIndex, h'.snapshot,
    h'.appliedIndex.trans h.appliedIndex, ops ++ ops', term, suffix, ?_, ?_⟩
  · rw [e', e]
    simp
  · intro op hop
    rcases List.mem_append.mp hop with hop | hop
    · exact hops op hop
    · exact hops' op hop

end Kinds

/-! ## 2. The single writes -/

section Writes

variable {rf rf' : Raft NodeID Cmd}

theorem Change.keeps (h : Change rf rf') : Keeps rf rf' := by
  cases h with
  | memory | follow | credit => exact .of_wal_eq rfl rfl rfl rfl
  | stepDown | campaign | vote | append => exact .of_wal_one rfl rfl rfl rfl trivial
  | splice k logs entries hk =>
      refine ⟨rfl, rfl, rfl, _, rfl, ?_⟩
      intro op hop
      simp only [List.mem_cons, List.not_mem_nil, or_false] at hop
      rcases hop with rfl | rfl <;> trivial

theorem Changes.keeps (h : Changes rf rf') : Keeps rf rf' := by
  induction h with
  | refl => exact .refl rf
  | tail _ hc ih => exact ih.trans hc.keeps

theorem saves_saved [Inhabited Cmd] {N term c : ℕ} {data : Bytes} {suffix : List (LogEntry Cmd)}
    (hN : rf.snapshotIndex < N) : Saves N data rf (rf.saved N term data suffix c) :=
  ⟨hN, rfl, rfl, rfl, [], term, suffix, rfl, fun _ h => absurd h List.not_mem_nil⟩

end Writes

/-! ## 3. The events -/

/-- The snapshot in a packet, if it brings one. -/
def carried (pkt : Packet NodeID Cmd) : Option (ℕ × Bytes) :=
  match pkt.call with
  | .appendEntries args => args.snapshot.map fun data => (args.snapshotIndex, data)
  | _ => none

theorem brings_iff (pkt : Packet NodeID Cmd) (N : ℕ) (data : Bytes) :
    Brings N data (.deliver pkt) ↔ carried pkt = some (N, data) := by
  obtain ⟨src, dst, call⟩ := pkt
  cases call with
  | appendEntries args =>
      constructor
      · intro h
        obtain ⟨_, e, hd, hN⟩ := h
        cases e
        simp [carried, hd, hN]
      · intro h
        obtain ⟨d, hd, e⟩ := Option.map_eq_some_iff.mp h
        cases e
        exact ⟨args, rfl, hd, rfl⟩
  | requestVote args => simp [Brings, carried]
  | timeoutNow args => simp [Brings, carried]

/-- A section that leaves the batch of `sendApplyMsg` and the service's index alone. -/
structure Quiet (ev : Event NodeID Cmd) (p p' : Proc NodeID Cmd) : Prop where
  applying : p'.applying = p.applying
  delivered : p'.delivered = p.delivered
  rf : Keeps p.rf p'.rf ∨ ∃ N data, Brings N data ev ∧ Saves N data p.rf p'.rf

section Exec

variable [DecidableEq NodeID] [Inhabited Cmd] {cfg : Config NodeID} {me : NodeID}
  {p : Proc NodeID Cmd} {o : Outcome NodeID Cmd}

theorem Writes.kind {ev : Event NodeID Cmd} {rf rf' : Raft NodeID Cmd}
    (h : Writes cfg me ev rf rf') :
    Keeps rf rf' ∨ ∃ N data, Brings N data ev ∧ Saves N data rf rf' := by
  cases h with
  | plain hc => exact Or.inl hc.keeps
  | won count hc => exact Or.inl (.of_wal_eq rfl rfl rfl rfl)
  | saved N term data suffix c hb hc hN =>
      exact Or.inr ⟨N, data, hb, hc.keeps.saves (saves_saved hN)⟩

/-- The effect of an event on the snapshot and on what the service is handed. -/
def Effect (ev : Event NodeID Cmd) (p p' : Proc NodeID Cmd) : Prop :=
  match ev with
  | .applyBatch => ∃ rf msgs, p.rf.sendApplyMsg = some (rf, msgs) ∧
      p' = { p with rf := rf, applying := msgs }
  | .apply => ∃ msg rest, p.applying = msg :: rest ∧
      p' = { p with applying := rest, delivered := msg.index }
  | ev => Quiet ev p p'

/-- **The kind of every critical section.** -/
theorem exec_effect {ev : Event NodeID Cmd} (h : exec cfg me p ev = some o) :
    Effect ev p o.proc := by
  have hc := exec_course h
  cases ev with
  | applyBatch | apply => exact hc
  | _ => exact ⟨hc.1, hc.2.1, hc.2.2.kind⟩

end Exec

/-! ## 4. The disk -/

section Disk

variable [Inhabited Cmd] {st st' : PersistState NodeID Cmd} {ops : List (WalOp NodeID Cmd)}

theorem apply_keeps {op : WalOp NodeID Cmd} (hop : op.KeepsSnapshot)
    (h : st.apply op = some st') :
    st'.snapshotIndex = st.snapshotIndex ∧ st'.snapshot = st.snapshot := by
  cases op with
  | saveMeta term vote =>
      cases h
      exact ⟨rfl, rfl⟩
  | appendLog entries =>
      cases h
      exact ⟨rfl, rfl⟩
  | truncateSuffix fromIndex =>
      obtain ⟨logs, _, e⟩ := Option.bind_eq_some_iff.mp h
      cases e
      exact ⟨rfl, rfl⟩
  | saveSnapshot => exact hop.elim

theorem applyAll_keeps (hops : ∀ op ∈ ops, op.KeepsSnapshot) (h : st.applyAll ops = some st') :
    st'.snapshotIndex = st.snapshotIndex ∧ st'.snapshot = st.snapshot := by
  induction ops generalizing st with
  | nil =>
      cases h
      exact ⟨rfl, rfl⟩
  | cons op ops ih =>
      obtain ⟨st1, h1, h2⟩ := Option.bind_eq_some_iff.mp h
      obtain ⟨e1, e2⟩ := apply_keeps (hops op List.mem_cons_self) h1
      obtain ⟨e1', e2'⟩ := ih (fun x hx => hops x (List.mem_cons_of_mem _ hx)) h2
      exact ⟨e1'.trans e1, e2'.trans e2⟩

omit [Inhabited Cmd] in
theorem torn_keeps (hops : ∀ op ∈ ops, op.KeepsSnapshot) (k j : ℕ) :
    ∀ op ∈ torn WalOp.cut ops k j, op.KeepsSnapshot := by
  refine forall_torn hops (fun op _ x hx => ?_) k
  cases op with
  | appendLog entries =>
      rw [List.mem_singleton.mp hx]
      trivial
  | saveMeta | truncateSuffix | saveSnapshot => exact absurd hx List.not_mem_nil

/-- Calls that end with a `SaveSnapshot`. -/
theorem applyAll_saves {N term : ℕ} {data : Bytes} {suffix : List (LogEntry Cmd)}
    (h : st.applyAll (ops ++ [.saveSnapshot N term (some data) suffix]) = some st') :
    st'.snapshotIndex = N ∧ st'.snapshot = some data := by
  unfold PersistState.applyAll at h
  rw [List.foldlM_append] at h
  obtain ⟨st1, _, h⟩ := Option.bind_eq_some_iff.mp h
  cases h
  exact ⟨rfl, rfl⟩

/-- Cut by a crash, they have saved it or not. -/
theorem applyAll_torn_saves {N term : ℕ} {data : Bytes} {suffix : List (LogEntry Cmd)}
    (hops : ∀ op ∈ ops, op.KeepsSnapshot) (k j : ℕ)
    (h : st.applyAll (torn WalOp.cut (ops ++ [.saveSnapshot N term (some data) suffix]) k j) =
      some st') :
    (st'.snapshotIndex = st.snapshotIndex ∧ st'.snapshot = st.snapshot) ∨
      (st'.snapshotIndex = N ∧ st'.snapshot = some data) := by
  by_cases hk : k < ops.length
  · rw [torn_append_lt _ _ hk] at h
    exact Or.inl (applyAll_keeps (torn_keeps hops k j) h)
  · by_cases he : k = ops.length
    · subst he
      rw [torn_concat_last] at h
      simp only [WalOp.cut, List.append_nil] at h
      exact Or.inl (applyAll_keeps hops h)
    · rw [torn_of_length_le _ _ (by simp; omega)] at h
      exact Or.inr (applyAll_saves h)

/-- The durable snapshot is the server's. -/
def SameSnap (st : PersistState NodeID Cmd) (rf : Raft NodeID Cmd) : Prop :=
  st.snapshotIndex = rf.snapshotIndex ∧ st.snapshot = rf.snapshot

omit [Inhabited Cmd] in
theorem SameSnap.of_eq {rf : Raft NodeID Cmd} (h : SameSnap st rf)
    (e : st'.snapshotIndex = st.snapshotIndex ∧ st'.snapshot = st.snapshot) : SameSnap st' rf :=
  ⟨e.1.trans h.1, e.2.trans h.2⟩

variable [DecidableEq NodeID] {cfg : Config NodeID} {me : NodeID} {p : Proc NodeID Cmd}
  {o : Outcome NodeID Cmd} {ev : Event NodeID Cmd}

/-- An event leaves the snapshot alone or has saved the one it brought. -/
def SnapKind (ev : Event NodeID Cmd) (rf rf' : Raft NodeID Cmd) : Prop :=
  (rf'.snapshotIndex = rf.snapshotIndex ∧ rf'.snapshot = rf.snapshot ∧
    ∃ ops, rf'.wal = rf.wal ++ ops ∧ ∀ op ∈ ops, op.KeepsSnapshot) ∨
  ∃ N data, Brings N data ev ∧ Saves N data rf rf'

omit [Inhabited Cmd] [DecidableEq NodeID] in
theorem Quiet.kind {p' : Proc NodeID Cmd} (h : Quiet ev p p') : SnapKind ev p.rf p'.rf :=
  h.rf.imp (fun hk => ⟨hk.snapshotIndex, hk.snapshot, hk.wal⟩) id

omit [Inhabited Cmd] [DecidableEq NodeID] in
theorem snapKind_of_eq {rf rf' : Raft NodeID Cmd} (h1 : rf'.snapshotIndex = rf.snapshotIndex)
    (h2 : rf'.snapshot = rf.snapshot) (h3 : rf'.wal = rf.wal) : SnapKind ev rf rf' :=
  Or.inl ⟨h1, h2, [], by rw [h3, List.append_nil], fun _ h => absurd h List.not_mem_nil⟩

theorem exec_kind (h : exec cfg me p ev = some o) : SnapKind ev p.rf o.proc.rf := by
  have he := exec_effect h
  cases ev with
  | applyBatch =>
      obtain ⟨rf, msgs, hs, e⟩ := he
      rw [e, sendApplyMsg_eq hs]
      exact snapKind_of_eq rfl rfl rfl
  | apply =>
      obtain ⟨msg, rest, _, e⟩ := he
      rw [e]
      exact snapKind_of_eq rfl rfl rfl
  | _ => exact Quiet.kind he

/-- **After an event** the disk has the server's snapshot. -/
theorem exec_disk (h : exec cfg me p ev = some o) (hw : p.rf.wal = []) (hst : SameSnap st p.rf)
    (ha : st.applyAll o.proc.rf.wal = some st') : SameSnap st' o.proc.rf := by
  rcases exec_kind h with ⟨e1, e2, ops, hwal, hops⟩ | ⟨N, data, _, hs⟩
  · rw [hwal, hw, List.nil_append] at ha
    obtain ⟨e1', e2'⟩ := applyAll_keeps hops ha
    exact ⟨e1'.trans (hst.1.trans e1.symm), e2'.trans (hst.2.trans e2.symm)⟩
  · obtain ⟨ops, term, suffix, hwal, hops⟩ := hs.wal
    rw [hwal, hw, List.nil_append] at ha
    obtain ⟨e1', e2'⟩ := applyAll_saves ha
    exact ⟨e1'.trans hs.snapshotIndex.symm, e2'.trans hs.snapshot.symm⟩

/-- **A crash inside an event** leaves the disk with the snapshot of before or of after. -/
theorem exec_disk_torn (h : exec cfg me p ev = some o) (hw : p.rf.wal = [])
    (hst : SameSnap st p.rf) {k j : ℕ}
    (ha : st.applyAll (torn WalOp.cut o.proc.rf.wal k j) = some st') :
    SameSnap st' p.rf ∨ SameSnap st' o.proc.rf := by
  rcases exec_kind h with ⟨_, _, ops, hwal, hops⟩ | ⟨N, data, _, hs⟩
  · rw [hwal, hw, List.nil_append] at ha
    exact Or.inl (hst.of_eq (applyAll_keeps (torn_keeps hops k j) ha))
  · obtain ⟨ops, term, suffix, hwal, hops⟩ := hs.wal
    rw [hwal, hw, List.nil_append] at ha
    rcases applyAll_torn_saves hops k j ha with e | ⟨e1, e2⟩
    · exact Or.inl (hst.of_eq e)
    · exact Or.inr ⟨e1.trans hs.snapshotIndex.symm, e2.trans hs.snapshot.symm⟩

end Disk

end RaftLab.Raft1

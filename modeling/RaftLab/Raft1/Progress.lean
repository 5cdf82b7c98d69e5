/-
  File:      RaftLab/Raft1/Progress.lean
  Subject:   What a critical section of a Raft server never takes back.

  Whatever it is called with, a section does not lower the term or the base of the log, it cuts
  the log above the base only, and a server that leads after it led the same term before it, with
  no `matchIndex` lowered and no `nextIndex` moved below 1 (`Advances`). The one exception is the
  vote that elects the server (`Elected`).

  * `exec_advances` -- **every event is of one of the two kinds.**

  Nothing here rests on the state of the cluster. `commitIndex` and `appliedIndex` are not among
  these facts: that they never go back does.
-/
import RaftLab.Raft1.Changes

namespace RaftLab.Raft1

open RaftLab.Lib

variable {NodeID Cmd : Type}

/-! ## 1. The two kinds -/

structure Advances (rf rf' : Raft NodeID Cmd) : Prop where
  term : rf.term ≤ rf'.term
  snapshotIndex : rf.snapshotIndex ≤ rf'.snapshotIndex
  leads : rf'.customerId = .leader → rf.customerId = .leader ∧ rf'.term = rf.term ∧
    (∀ m, rf.matchIndex m ≤ rf'.matchIndex m) ∧ ∀ m, 1 ≤ rf.nextIndex m → 1 ≤ rf'.nextIndex m
  wal : ∃ ops, rf'.wal = rf.wal ++ ops ∧
    ∀ k, WalOp.truncateSuffix k ∈ ops → rf.snapshotIndex < k

/-- The vote that makes a candidate the leader of its term. -/
structure Elected (nodeIDs : List NodeID) (rf rf' : Raft NodeID Cmd) : Prop where
  candidate : rf.customerId = .candidate
  leader : rf'.customerId = .leader
  term : rf'.term = rf.term
  snapshotIndex : rf'.snapshotIndex = rf.snapshotIndex
  nextIndex : ∀ m ∈ nodeIDs, 1 ≤ rf'.nextIndex m
  wal : rf'.wal = rf.wal

section Kinds

variable {rf rf' rf'' : Raft NodeID Cmd}

/-- A section that leaves the log's base and the leader's fields alone, and cuts no log. -/
theorem Advances.of_eq (h1 : rf'.term = rf.term) (h2 : rf'.snapshotIndex = rf.snapshotIndex)
    (h3 : rf'.customerId = rf.customerId) (h4 : rf'.matchIndex = rf.matchIndex)
    (h5 : rf'.nextIndex = rf.nextIndex) {ops : List (WalOp NodeID Cmd)}
    (h6 : rf'.wal = rf.wal ++ ops) (hops : ∀ k, WalOp.truncateSuffix k ∉ ops) :
    Advances rf rf' where
  term := Nat.le_of_eq h1.symm
  snapshotIndex := Nat.le_of_eq h2.symm
  leads hl := by
    rw [h4, h5]
    exact ⟨h3 ▸ hl, h1, fun _ => Nat.le_refl _, fun _ hm => hm⟩
  wal := ⟨ops, h6, fun k hk => absurd hk (hops k)⟩

/-- A section that writes nothing. -/
theorem Advances.of_wal_eq (h1 : rf'.term = rf.term) (h2 : rf'.snapshotIndex = rf.snapshotIndex)
    (h3 : rf'.customerId = rf.customerId) (h4 : rf'.matchIndex = rf.matchIndex)
    (h5 : rf'.nextIndex = rf.nextIndex) (h6 : rf'.wal = rf.wal) : Advances rf rf' :=
  .of_eq h1 h2 h3 h4 h5 (by rw [h6, List.append_nil]) fun _ => List.not_mem_nil

theorem Advances.refl (rf : Raft NodeID Cmd) : Advances rf rf := .of_wal_eq rfl rfl rfl rfl rfl rfl

/-- A section after which the server leads nothing. -/
theorem Advances.of_not_leader (h1 : rf.term ≤ rf'.term)
    (h2 : rf'.snapshotIndex = rf.snapshotIndex) (h3 : rf'.customerId ≠ .leader)
    {ops : List (WalOp NodeID Cmd)} (h4 : rf'.wal = rf.wal ++ ops)
    (hops : ∀ k, WalOp.truncateSuffix k ∉ ops) : Advances rf rf' where
  term := h1
  snapshotIndex := Nat.le_of_eq h2.symm
  leads hl := absurd hl h3
  wal := ⟨ops, h4, fun k hk => absurd hk (hops k)⟩

theorem Advances.trans (h : Advances rf rf') (h' : Advances rf' rf'') : Advances rf rf'' where
  term := Nat.le_trans h.term h'.term
  snapshotIndex := Nat.le_trans h.snapshotIndex h'.snapshotIndex
  leads hl := by
    obtain ⟨hl', ht', hm', hn'⟩ := h'.leads hl
    obtain ⟨hl, ht, hm, hn⟩ := h.leads hl'
    exact ⟨hl, ht'.trans ht, fun m => Nat.le_trans (hm m) (hm' m), fun m hpos => hn' m (hn m hpos)⟩
  wal := by
    obtain ⟨ops, e, hops⟩ := h.wal
    obtain ⟨ops', e', hops'⟩ := h'.wal
    refine ⟨ops ++ ops', by rw [e', e, List.append_assoc], ?_⟩
    intro k hk
    rcases List.mem_append.mp hk with hk | hk
    · exact hops k hk
    · exact Nat.lt_of_le_of_lt h.snapshotIndex (hops' k hk)

end Kinds

/-! ## 2. The single writes -/

section Writes

variable {rf rf' : Raft NodeID Cmd}

theorem Change.advances (h : Change rf rf') : Advances rf rf' := by
  cases h with
  | memory => exact .of_wal_eq rfl rfl rfl rfl rfl rfl
  | follow =>
      exact .of_not_leader (Nat.le_refl _) rfl (fun e => by cases e) (List.append_nil _).symm
        fun _ => List.not_mem_nil
  | stepDown newTerm h =>
      exact .of_not_leader (Nat.le_of_lt h) rfl (fun e => by cases e) rfl fun k => by simp
  | campaign me =>
      exact .of_not_leader (Nat.le_succ _) rfl (fun e => by cases e) rfl fun k => by simp
  | vote | append => exact .of_eq rfl rfl rfl rfl rfl rfl fun k => by simp
  | splice k logs entries hk =>
      refine ⟨Nat.le_refl _, Nat.le_refl _,
        fun hl => ⟨hl, rfl, fun _ => Nat.le_refl _, fun _ hm => hm⟩, _, rfl, ?_⟩
      intro k' hk'
      simp only [List.mem_cons, WalOp.truncateSuffix.injEq, reduceCtorEq, List.not_mem_nil,
        or_false] at hk'
      rw [hk']
      exact hk
  | credit matchIndex nextIndex hm hn =>
      exact ⟨Nat.le_refl _, Nat.le_refl _, fun hl => ⟨hl, rfl, hm, hn⟩, [],
        (List.append_nil _).symm, fun k hk => absurd hk List.not_mem_nil⟩

theorem Changes.advances (h : Changes rf rf') : Advances rf rf' := by
  induction h with
  | refl => exact .refl rf
  | tail _ hc ih => exact ih.trans hc.advances

theorem advances_saved [Inhabited Cmd] {N term c : ℕ} {data : Bytes}
    {suffix : List (LogEntry Cmd)} (hN : rf.snapshotIndex < N) :
    Advances rf (rf.saved N term data suffix c) :=
  ⟨Nat.le_refl _, Nat.le_of_lt hN,
    fun hl => ⟨hl, rfl, fun _ => Nat.le_refl _, fun _ hm => hm⟩, _, rfl, fun k hk => by simp at hk⟩

theorem elected_won [DecidableEq NodeID] {me : NodeID} {nodeIDs : List NodeID} {count : ℕ}
    (hc : rf.customerId = .candidate) :
    Elected nodeIDs rf (Raft.won me nodeIDs { rf with voteCount := count }) := by
  refine ⟨hc, rfl, rfl, rfl, ?_, rfl⟩
  intro m hm
  unfold Raft.won
  dsimp only
  rw [if_pos hm]
  exact Nat.le_add_left _ _

end Writes

/-! ## 3. The events -/

section Exec

variable [DecidableEq NodeID] [Inhabited Cmd] {cfg : Config NodeID} {me : NodeID}
  {p : Proc NodeID Cmd} {o : Outcome NodeID Cmd}

theorem Writes.advances {ev : Event NodeID Cmd} {rf rf' : Raft NodeID Cmd}
    (h : Writes cfg me ev rf rf') : Advances rf rf' ∨ Elected cfg.nodeIDs rf rf' := by
  cases h with
  | plain hc => exact Or.inl hc.advances
  | won count hc => exact Or.inr (elected_won hc)
  | saved N term data suffix c hb hc hN => exact Or.inl (hc.advances.trans (advances_saved hN))

/-- **The kind of every critical section.** -/
theorem exec_advances {ev : Event NodeID Cmd} (h : exec cfg me p ev = some o) :
    Advances p.rf o.proc.rf ∨ Elected cfg.nodeIDs p.rf o.proc.rf := by
  have hc := exec_course h
  cases ev with
  | applyBatch =>
      obtain ⟨rf, msgs, hr, e⟩ := hc
      rw [e, sendApplyMsg_eq hr]
      exact Or.inl (.of_wal_eq rfl rfl rfl rfl rfl rfl)
  | apply =>
      obtain ⟨msg, rest, _, e⟩ := hc
      rw [e]
      exact Or.inl (.refl _)
  | _ => exact hc.2.2.advances

end Exec

end RaftLab.Raft1

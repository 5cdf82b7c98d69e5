/-
  File:      RaftLab/Shardkv1/Fencing.lean
  Subject:   What one server of a shard group guarantees under any sequence of operations.

  Nothing is assumed of the controllers: `Freeze`, `Install` and `Delete` come in any order, with
  any numbers, again and late. Only the state that is installed is one that `dumpShard` of the same
  shard has produced, or none (`Genuine`). Numbers are natural; `cfgNum` starts at `NumFirst` and
  never falls, so a negative number is refused as 0 is.

  An operation is seen from its shard as `obey`, and from the other shards as nothing (`slot_doOp`).
  What the three requests and `Put` keep of one shard is shown there.

  * `migration_fencing` -- **numbers never fall, a shard that was frozen stays closed until a newer
    `Install`, a shard that is not owned has no keys, and shards do not touch each other.**
-/
import RaftLab.Shardkv1.Replica

namespace RaftLab.Shardkv1

open RaftLab.Lib RaftLab.Kvsrv1
open RaftLab.Raft1 (Bytes)

variable {Value : Type}

/-! ## 1. An operation and its shard -/

/-- The shard an operation is about. -/
def Req.shard : Req Value → Tshid
  | .get args => key2Shard args.key
  | .put args => key2Shard args.key
  | .freezeShard args => args.shard
  | .installShard args => args.shard
  | .deleteShard args => args.shard

/-- What is installed was exported from the same shard, by some server, or is nothing. -/
def Genuine : Req Value → Prop
  | .installShard args =>
      args.state = none ∨ ∃ kv : KVServer Value, args.state = some (kv.dumpShard args.shard)
  | _ => True

/-- An operation on the slot of its shard. -/
def Req.obey (op : Req Value) (sl : Slot Bytes (KvEntry Value)) : Slot Bytes (KvEntry Value) :=
  match op with
  | .get _ => sl
  | .put args => if sl.phase = .ready then sl.write fun m => (putEntry m args).1 else sl
  | .freezeShard args => sl.freeze args.num
  | .installShard args => sl.install args.num args.state
  | .deleteShard args => sl.delete args.num

section Obey

variable {op : Req Value} {sl : Slot Bytes (KvEntry Value)}

theorem num_le_obey (op : Req Value) (sl : Slot Bytes (KvEntry Value)) :
    sl.num ≤ (op.obey sl).num := by
  cases op with
  | get => exact Nat.le_refl _
  | put args =>
      simp only [Req.obey]
      split
      · exact Nat.le_refl _
      · exact Nat.le_refl _
  | freezeShard args =>
      simp only [Req.obey, Slot.freeze]
      split
      · exact Nat.le_refl _
      · rename_i h
        exact Nat.le_of_not_lt h
  | installShard args =>
      simp only [Req.obey, Slot.install]
      split
      · exact Nat.le_refl _
      · rename_i h
        exact Nat.le_of_lt (Nat.lt_of_not_le h)
  | deleteShard args =>
      simp only [Req.obey, Slot.delete]
      split
      · exact Nat.le_refl _
      · rename_i h
        exact Nat.le_of_not_lt h

/-- A place that is closed is opened by an `Install` of a newer number only. -/
theorem closed_obey (hclosed : sl.phase ≠ .ready)
    (hop : ∀ args, op = .installShard args → args.num ≤ sl.num) :
    (op.obey sl).phase ≠ .ready := by
  cases op with
  | get => exact hclosed
  | put args =>
      simp only [Req.obey, if_neg hclosed]
      exact hclosed
  | freezeShard args =>
      simp only [Req.obey, Slot.freeze]
      split
      · exact hclosed
      · exact fun e => (by cases e)
  | installShard args =>
      simp only [Req.obey, Slot.install, if_pos (hop args rfl)]
      exact hclosed
  | deleteShard args =>
      simp only [Req.obey, Slot.delete]
      split
      · exact hclosed
      · exact fun e => (by cases e)

/-- A place that does not own the shard has nothing of it. -/
theorem empty_obey (h : sl.phase = .away → sl.data = Slot.nothing)
    (haway : (op.obey sl).phase = .away) : (op.obey sl).data = Slot.nothing := by
  cases op with
  | get => exact h haway
  | put args =>
      simp only [Req.obey] at haway ⊢
      split at haway
      · rename_i hr
        exact absurd (hr.symm.trans haway) fun e => (by cases e)
      · rename_i hr
        rw [if_neg hr]
        exact h haway
  | freezeShard args =>
      simp only [Req.obey, Slot.freeze] at haway ⊢
      split at haway
      · rename_i hn
        rw [if_pos hn]
        exact h haway
      · cases haway
  | installShard args =>
      simp only [Req.obey, Slot.install] at haway ⊢
      split at haway
      · rename_i hn
        rw [if_pos hn]
        exact h haway
      · cases haway
  | deleteShard args =>
      simp only [Req.obey, Slot.delete] at haway ⊢
      split at haway
      · rename_i hn
        rw [if_pos hn]
        exact h haway
      · rename_i hn
        rw [if_neg hn]

end Obey

/-! ## 2. One operation -/

section DoOp

variable [Inhabited Value] {kv : KVServer Value} {op : Req Value} {sh : Tshid}

open KVServer in
/-- **An operation works on its own shard.** -/
theorem slot_doOp (hg : Genuine op) :
    (kv.doOp op).1.slot sh = if sh = op.shard then op.obey (kv.slot sh) else kv.slot sh := by
  cases op with
  | get args => exact (ite_self _).symm
  | put args =>
      by_cases hr : kv.shardState (key2Shard args.key) = .ready
      · refine (slot_doPut hr).trans ?_
        by_cases e : sh = key2Shard args.key
        · subst e
          simp [Req.shard, Req.obey, slot, hr]
        · simp [Req.shard, e]
      · have hsame : (kv.doOp (.put args)).1 = kv := by simp [KVServer.doOp, doPut, hr]
        rw [hsame]
        by_cases e : sh = key2Shard args.key
        · subst e
          simp [Req.shard, Req.obey, slot, hr]
        · simp [Req.shard, e]
  | freezeShard args => exact slot_doFreezeShard args
  | installShard args =>
      refine slot_doInstallShard ?_
      intro sub hsub
      rcases hg with hnone | ⟨kv', hdump⟩
      · rw [hnone] at hsub
        cases hsub
      · rw [hdump] at hsub
        cases hsub
        exact within_restrict _ _
  | deleteShard args => exact slot_doDeleteShard args

theorem num_le_doOp (hg : Genuine op) (sh : Tshid) :
    (kv.slot sh).num ≤ ((kv.doOp op).1.slot sh).num := by
  rw [slot_doOp hg]
  split
  · exact num_le_obey op _
  · exact Nat.le_refl _

/-- What a shard does not own it has not. -/
def EmptyAway (kv : KVServer Value) : Prop :=
  ∀ sh, (kv.slot sh).phase = .away → (kv.slot sh).data = Slot.nothing

theorem emptyAway_doOp (hg : Genuine op) (h : EmptyAway kv) : EmptyAway (kv.doOp op).1 := by
  intro sh haway
  rw [slot_doOp hg] at haway ⊢
  split at haway
  · rename_i e
    rw [if_pos e]
    exact empty_obey (h sh) haway
  · rename_i e
    rw [if_neg e]
    exact h sh haway

/-- The shard is closed, and has obeyed number `N`. -/
def Closed (sh : Tshid) (N : ℕ) (kv : KVServer Value) : Prop :=
  (kv.slot sh).phase ≠ .ready ∧ N ≤ (kv.slot sh).num

theorem closed_doOp {N : ℕ} (hg : Genuine op) (h : Closed sh N kv)
    (hop : ∀ args, op = .installShard args → args.shard = sh → args.num ≤ N) :
    Closed sh N (kv.doOp op).1 := by
  refine ⟨?_, Nat.le_trans h.2 (num_le_doOp hg sh)⟩
  rw [slot_doOp hg]
  split
  · rename_i e
    refine closed_obey h.1 ?_
    intro args hargs
    subst hargs
    exact Nat.le_trans (hop args rfl e.symm) h.2
  · exact h.1

/-- A closed shard answers `ErrWrongGroup` and changes nothing. -/
theorem Closed.refuses {N : ℕ} (h : Closed sh N kv) :
    (∀ args : GetArgs Bytes, key2Shard args.key = sh →
      kv.doOp (.get args) = (kv, .get ⟨default, 0, .errWrongGroup⟩)) ∧
    ∀ args : PutArgs Bytes Value, key2Shard args.key = sh →
      kv.doOp (.put args) = (kv, .put ⟨.errWrongGroup⟩) := by
  have hclosed : kv.shardState sh ≠ .ready := h.1
  constructor
  · intro args hk
    subst hk
    simp [KVServer.doOp, KVServer.doGet, hclosed]
  · intro args hk
    subst hk
    simp [KVServer.doOp, KVServer.doPut, hclosed]

end DoOp

/-! ## 3. Sequences of operations -/

section Runs

variable [Inhabited Value] {kv : KVServer Value}

theorem emptyAway_foldOps {ops : List (Req Value)} (hg : ∀ op ∈ ops, Genuine op)
    (h : EmptyAway kv) : EmptyAway (kv.foldOps ops) := by
  induction ops generalizing kv with
  | nil => exact h
  | cons op ops ih =>
      exact ih (fun x hx => hg x (List.mem_cons_of_mem _ hx))
        (emptyAway_doOp (hg op List.mem_cons_self) h)

theorem num_le_foldOps {ops : List (Req Value)} (hg : ∀ op ∈ ops, Genuine op) (sh : Tshid) :
    (kv.slot sh).num ≤ ((kv.foldOps ops).slot sh).num := by
  induction ops generalizing kv with
  | nil => exact Nat.le_refl _
  | cons op ops ih =>
      exact Nat.le_trans (num_le_doOp (hg op List.mem_cons_self) sh)
        (ih fun x hx => hg x (List.mem_cons_of_mem _ hx))

theorem closed_foldOps {sh : Tshid} {N : ℕ} {ops : List (Req Value)}
    (hg : ∀ op ∈ ops, Genuine op)
    (hops : ∀ args, .installShard args ∈ ops → args.shard = sh → args.num ≤ N)
    (h : Closed sh N kv) : Closed sh N (kv.foldOps ops) := by
  induction ops generalizing kv with
  | nil => exact h
  | cons op ops ih =>
      refine ih (fun x hx => hg x (List.mem_cons_of_mem _ hx))
        (fun args hmem => hops args (List.mem_cons_of_mem _ hmem)) ?_
      refine closed_doOp (hg op List.mem_cons_self) h ?_
      intro args hargs
      subst hargs
      exact hops args List.mem_cons_self

omit [Inhabited Value] in
/-- A new server has no keys. -/
theorem emptyAway_start (gid : Tgid) : EmptyAway (startServerShardGrp gid : KVServer Value) := by
  intro sh _
  funext key
  show restrict sh Table.empty key = none
  unfold restrict
  exact ite_self _

/-- **Migration is fenced inside a group**, whatever sequence of operations a server has executed
    since it was started: `cfgNum` is `NumFirst` or more and falls in no shard; after a `FreezeShard`
    that was not stale, Gets and Puts of the shard are refused and change nothing until an
    `InstallShard` with a newer number is executed; no key of a shard that is not owned is in
    `kvMap`; and an operation leaves state, number and keys of every other shard alone. -/
theorem migration_fencing (gid : Tgid) {ops : List (Req Value)} (hg : ∀ op ∈ ops, Genuine op)
    (hkv : kv = (startServerShardGrp gid).foldOps ops) :
    (∀ sh, 1 ≤ kv.cfgNum sh ∧
      ∀ post, (∀ op ∈ post, Genuine op) → kv.cfgNum sh ≤ (kv.foldOps post).cfgNum sh) ∧
    (∀ (args : FreezeShardArgs) (post : List (Req Value)), ¬ args.num < kv.cfgNum args.shard →
      (∀ op ∈ post, Genuine op) →
      (∀ inst, .installShard inst ∈ post → inst.shard = args.shard → inst.num ≤ args.num) →
      ∀ kv', kv' = (kv.doOp (.freezeShard args)).1.foldOps post →
        (∀ get : GetArgs Bytes, key2Shard get.key = args.shard →
          kv'.doOp (.get get) = (kv', .get ⟨default, 0, .errWrongGroup⟩)) ∧
        ∀ put : PutArgs Bytes Value, key2Shard put.key = args.shard →
          kv'.doOp (.put put) = (kv', .put ⟨.errWrongGroup⟩)) ∧
    (∀ key, kv.shardState (key2Shard key) = .away → kv.kvMap key = none) ∧
    ∀ op sh, Genuine op → sh ≠ op.shard →
      (kv.doOp op).1.shardState sh = kv.shardState sh ∧
      (kv.doOp op).1.cfgNum sh = kv.cfgNum sh ∧
      ∀ key, key2Shard key = sh → (kv.doOp op).1.kvMap key = kv.kvMap key := by
  refine ⟨?_, ?_, ?_, ?_⟩
  · intro sh
    refine ⟨?_, fun post hpost => num_le_foldOps hpost sh⟩
    have h : ((startServerShardGrp gid : KVServer Value).slot sh).num ≤ _ := num_le_foldOps hg sh
    rw [← hkv] at h
    exact h
  · intro args post hfresh hpost hinst kv' e
    have hclosed : Closed args.shard args.num (kv.doOp (.freezeShard args)).1 := by
      have hslot : (kv.doOp (.freezeShard args)).1.slot args.shard =
          (kv.slot args.shard).freeze args.num :=
        (KVServer.slot_doFreezeShard args).trans (if_pos rfl)
      have hfreeze : (kv.slot args.shard).freeze args.num =
          ⟨.frozen, args.num, (kv.slot args.shard).data⟩ := if_neg hfresh
      unfold Closed
      rw [hslot, hfreeze]
      exact ⟨fun e => (by cases e), Nat.le_refl _⟩
    rw [e]
    exact (closed_foldOps hpost hinst hclosed).refuses
  · intro key haway
    have h := emptyAway_foldOps hg (emptyAway_start gid) (key2Shard key)
    rw [← hkv] at h
    have hdata := congrFun (h haway) key
    exact (restrict_of_eq kv.kvMap rfl).symm.trans hdata
  · intro op sh hop hne
    have hslot : (kv.doOp op).1.slot sh = kv.slot sh := (slot_doOp hop).trans (if_neg hne)
    refine ⟨congrArg Slot.phase hslot, congrArg Slot.num hslot, ?_⟩
    intro key hk
    have hdata := congrFun (congrArg Slot.data hslot) key
    exact (restrict_of_eq _ hk).symm.trans (hdata.trans (restrict_of_eq _ hk))

/-- Group 2 installs a shard with number 2 and has a key of it, freezes it with number 3, and executes
    an `Install` with number 3 that came late. -/
theorem migration_fencing_sample :
    let sh := key2Shard []
    let ops : List (Req ℕ) :=
      [.installShard ⟨sh, none, 2⟩, .put ⟨[], 7, 0⟩]
    let kv := (startServerShardGrp 2).foldOps ops
    let kv' := (kv.doOp (.freezeShard ⟨sh, 3⟩)).1.foldOps [.installShard ⟨sh, none, 3⟩]
    kv.doOp (.get ⟨[]⟩) = (kv, .get ⟨7, 1, .ok⟩) ∧
      kv'.doOp (.get ⟨[]⟩) = (kv', .get ⟨0, 0, .errWrongGroup⟩) := by
  refine ⟨rfl, ?_⟩
  have hg : ∀ op ∈ ([.installShard ⟨key2Shard [], none, 2⟩, .put ⟨[], 7, 0⟩] : List (Req ℕ)),
      Genuine op := by
    intro op hop
    rcases List.mem_cons.mp hop with e | hop
    · subst e
      exact .inl rfl
    · rw [List.mem_singleton.mp hop]
      trivial
  obtain ⟨-, hfreeze, -, -⟩ := migration_fencing 2 hg rfl
  refine (hfreeze ⟨key2Shard [], 3⟩ [.installShard ⟨key2Shard [], none, 3⟩] ?_ ?_ ?_ _ rfl).1
    ⟨[]⟩ rfl
  · decide +kernel
  · intro op hop
    rw [List.mem_singleton.mp hop]
    exact .inl rfl
  · intro inst hinst _
    cases List.mem_singleton.mp hinst
    exact Nat.le_refl _

end Runs

end RaftLab.Shardkv1

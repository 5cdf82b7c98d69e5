/-
  File:      RaftLab/Shardkv1/Config.lean
  Subject:   `src/shardkv1/shardcfg/shardcfg.go`: shards, keys, configurations, and how a
             configuration follows from another by groups that join or leave.

  A Go string is a byte sequence. `groups` lists the groups in the order of their ids, as
  `json.Marshal` writes a map, so two configurations have the same `String()` when they are equal.
  A map that is ranged over is a list, in the order of that loop. `join` and `leave` return the
  configuration as they leave it and the answer; `none` is a `log.Fatalf`. `rebalance` moves one
  shard after the other; `none` means that its loop has not ended after as many moves as there are
  pairs of shards.

  **`refused_unchanged_iff`**: what `Join` and `Leave` leave behind when they return false.
-/
import RaftLab.Raft1.Types
import Mathlib.Data.Fintype.Basic
import Mathlib.Data.List.Sort
import Mathlib.Data.List.FinRange

namespace RaftLab.Shardkv1

open RaftLab.Raft1 (Bytes)

/-! ## 1. Shards and configurations -/

def nShards : ℕ := 12

abbrev Tshid := Fin nShards

abbrev Tgid := ℤ

def gid1 : Tgid := 1

/-- `fnv.New32a` -/
def fnv32a (data : Bytes) : UInt32 :=
  data.foldl (fun h b => (h ^^^ b.toUInt32) * 16777619) 2166136261

def key2Shard (key : Bytes) : Tshid := ⟨(fnv32a key).toNat % nShards, Nat.mod_lt _ (by decide)⟩

structure ShardConfig where
  num : ℕ
  shards : Tshid → Tgid
  groups : List (Tgid × List Bytes)
  deriving DecidableEq

def makeShardConfig : ShardConfig := ⟨0, fun _ => 0, []⟩

instance : Inhabited ShardConfig := ⟨makeShardConfig⟩

namespace ShardConfig

/-! ## 2. Rebalance -/

/-- `counts[g]` -/
def count (c : ShardConfig) (g : Tgid) : ℤ := (List.finRange nShards).countP fun s => c.shards s = g

/-- What `analyze` returns. -/
structure Load where
  mg : Tgid
  mn : ℤ
  lg : Tgid
  ln : ℤ

def analyze (c : ShardConfig) : Load :=
  ((c.groups.map Prod.fst).insertionSort (· ≤ ·)).foldl
    (fun l g =>
      let l := if c.count g < l.ln then { l with ln := c.count g, lg := g } else l
      if c.count g > l.mn then { l with mn := c.count g, mg := g } else l)
    ⟨-1, -1, -1, 257⟩

def least (c : ShardConfig) : Tgid := c.analyze.lg

/-- The first loop of `Rebalance`: every shard without a group gets the least loaded one. -/
def assign (c : ShardConfig) : ShardConfig :=
  (List.finRange nShards).foldl
    (fun c' s =>
      if (c'.groups.lookup (c.shards s)).isSome then c'
      else { c' with shards := Function.update c'.shards s c'.least }) c

/-- The second loop: one shard from the most to the least loaded group, until they differ by less
    than two. -/
def balance : ℕ → ShardConfig → Option ShardConfig
  | 0, _ => none
  | fuel + 1, c =>
      let l := c.analyze
      if l.mn < l.ln + 2 then some c
      else
        match (List.finRange nShards).find? fun s => c.shards s = l.mg with
        | some s => balance fuel { c with shards := Function.update c.shards s l.lg }
        | none => balance fuel c

def rebalance (c : ShardConfig) : Option ShardConfig :=
  if c.groups.length < 1 then some { c with shards := fun _ => 0 }
  else balance (nShards * nShards) c.assign

/-! ## 3. Join and Leave -/

/-- `cfg.Groups[gid] = servers` -/
def setGroup (gid : Tgid) (servers : List Bytes) :
    List (Tgid × List Bytes) → List (Tgid × List Bytes)
  | [] => [(gid, servers)]
  | x :: xs =>
      if gid < x.1 then (gid, servers) :: x :: xs
      else if gid = x.1 then (gid, servers) :: xs
      else x :: setGroup gid servers xs

def joinLoop : ShardConfig → List (Tgid × List Bytes) → Option (ShardConfig × Bool)
  | c, [] => some (c, true)
  | c, (gid, servers) :: rest =>
      if (c.groups.lookup gid).isSome then some (c, false)
      else if c.groups.any fun x => x.2.any fun s1 => servers.any fun s2 => s1 == s2 then none
      else joinLoop { c with groups := setGroup gid servers c.groups } rest

def join (c : ShardConfig) (servers : List (Tgid × List Bytes)) : Option (ShardConfig × Bool) :=
  match c.joinLoop servers with
  | some (c', true) => if servers = [] then none else some ({ c' with num := c'.num + 1 }, true)
  | r => r

def leaveLoop : ShardConfig → List Tgid → ShardConfig × Bool
  | c, [] => (c, true)
  | c, gid :: rest =>
      if (c.groups.lookup gid).isSome then
        leaveLoop { c with groups := c.groups.filter fun x => x.1 ≠ gid } rest
      else (c, false)

def leave (c : ShardConfig) (gids : List Tgid) : Option (ShardConfig × Bool) :=
  match c.leaveLoop gids with
  | (c', true) => if gids = [] then none else some ({ c' with num := c'.num + 1 }, true)
  | r => some r

def joinBalance (c : ShardConfig) (servers : List (Tgid × List Bytes)) :
    Option (ShardConfig × Bool) :=
  match c.join servers with
  | some (c', true) => c'.rebalance.map (·, true)
  | r => r

def leaveBalance (c : ShardConfig) (gids : List Tgid) : Option (ShardConfig × Bool) :=
  match c.leave gids with
  | some (c', true) => c'.rebalance.map (·, true)
  | r => r

/-! ## 4. Numbers -/

theorem assign_num (c : ShardConfig) : c.assign.num = c.num := by
  have hfold : ∀ (l : List Tshid) (c' : ShardConfig), (l.foldl (fun c' s =>
      if (c'.groups.lookup (c.shards s)).isSome then c'
      else { c' with shards := Function.update c'.shards s c'.least }) c').num = c'.num := by
    intro l
    induction l with
    | nil => intro c'; rfl
    | cons s l ih =>
        intro c'
        rw [List.foldl_cons, ih]
        split
        · rfl
        · rfl
  exact hfold _ c

theorem balance_num {fuel : ℕ} {c c' : ShardConfig} (h : balance fuel c = some c') :
    c'.num = c.num := by
  induction fuel generalizing c with
  | zero => cases h
  | succ fuel ih =>
      unfold balance at h
      dsimp only at h
      split at h
      · cases h
        rfl
      · split at h
        · exact (ih h :)
        · exact ih h

theorem rebalance_num {c c' : ShardConfig} (h : c.rebalance = some c') : c'.num = c.num := by
  unfold rebalance at h
  split at h
  · cases h
    rfl
  · exact (balance_num h).trans c.assign_num

theorem joinLoop_num {servers : List (Tgid × List Bytes)} {c c' : ShardConfig} {b : Bool}
    (h : c.joinLoop servers = some (c', b)) : c'.num = c.num := by
  induction servers generalizing c with
  | nil =>
      cases h
      rfl
  | cons x rest ih =>
      obtain ⟨gid, srvs⟩ := x
      unfold joinLoop at h
      split at h
      · cases h
        rfl
      · split at h
        · cases h
        · exact (ih h :)

theorem leaveLoop_num (gids : List Tgid) (c : ShardConfig) :
    (c.leaveLoop gids).1.num = c.num := by
  induction gids generalizing c with
  | nil => rfl
  | cons gid rest ih =>
      unfold leaveLoop
      split
      · exact ih _
      · rfl

/-- An accepted `JoinBalance` takes the next number. -/
theorem joinBalance_num {c c' : ShardConfig} {servers : List (Tgid × List Bytes)}
    (h : c.joinBalance servers = some (c', true)) : c'.num = c.num + 1 := by
  unfold joinBalance at h
  split at h
  next c1 hj =>
    obtain ⟨c2, h2, e⟩ := Option.map_eq_some_iff.mp h
    cases e
    rw [rebalance_num h2]
    unfold join at hj
    split at hj
    next c3 hl =>
      split at hj
      · cases hj
      · cases hj
        rw [joinLoop_num hl]
    next hno => exact absurd hj (hno _)
  next hno => exact absurd h (hno _)

/-- An accepted `LeaveBalance` takes the next number. -/
theorem leaveBalance_num {c c' : ShardConfig} {gids : List Tgid}
    (h : c.leaveBalance gids = some (c', true)) : c'.num = c.num + 1 := by
  unfold leaveBalance at h
  split at h
  next c1 hj =>
    obtain ⟨c2, h2, e⟩ := Option.map_eq_some_iff.mp h
    cases e
    rw [rebalance_num h2]
    unfold leave at hj
    split at hj
    next c3 hl =>
      split at hj
      · cases hj
      · cases hj
        have hnum := leaveLoop_num gids c
        rw [hl] at hnum
        exact congrArg (· + 1) hnum
    next hno => exact absurd (Option.some.inj hj) (hno _)
  next hno => exact absurd h (hno _)

/-! ## 5. Refused calls

`Join` and `Leave` write to `Groups` as they go, and return at the first id they refuse. -/

theorem length_setGroup {gid : Tgid} {servers : List Bytes} {gs : List (Tgid × List Bytes)}
    (h : ¬ (gs.lookup gid).isSome) : (setGroup gid servers gs).length = gs.length + 1 := by
  induction gs with
  | nil => rfl
  | cons x xs ih =>
      obtain ⟨k, srvs⟩ := x
      unfold setGroup
      by_cases hlt : gid < k
      · rw [if_pos hlt]
        rfl
      · by_cases e : gid = k
        · exact absurd (by simp [e]) h
        · rw [List.lookup_cons, beq_eq_false_iff_ne.mpr e] at h
          rw [if_neg hlt, if_neg e, List.length_cons, ih h, List.length_cons]

theorem joinLoop_shards {servers : List (Tgid × List Bytes)} {c c' : ShardConfig} {b : Bool}
    (h : c.joinLoop servers = some (c', b)) :
    c'.shards = c.shards ∧ c.groups.length ≤ c'.groups.length := by
  induction servers generalizing c with
  | nil =>
      cases h
      exact ⟨rfl, Nat.le_refl _⟩
  | cons x rest ih =>
      obtain ⟨gid, srvs⟩ := x
      unfold joinLoop at h
      split at h
      · cases h
        exact ⟨rfl, Nat.le_refl _⟩
      next hnew =>
        split at h
        · cases h
        · obtain ⟨hshards, hlen⟩ := ih h
          rw [length_setGroup hnew] at hlen
          exact ⟨hshards, Nat.le_of_succ_le hlen⟩

theorem leaveLoop_shards (gids : List Tgid) (c : ShardConfig) :
    (c.leaveLoop gids).1.shards = c.shards ∧
      (c.leaveLoop gids).1.groups.length ≤ c.groups.length := by
  induction gids generalizing c with
  | nil => exact ⟨rfl, Nat.le_refl _⟩
  | cons gid rest ih =>
      unfold leaveLoop
      split
      · obtain ⟨hshards, hlen⟩ := ih { c with groups := c.groups.filter fun x => x.1 ≠ gid }
        exact ⟨hshards, Nat.le_trans hlen (List.length_filter_le _ _)⟩
      · exact ⟨rfl, Nat.le_refl _⟩

theorem joinLoop_of_refused {c c' : ShardConfig} {servers : List (Tgid × List Bytes)}
    (h : c.join servers = some (c', false) ∨ c.joinBalance servers = some (c', false)) :
    c.joinLoop servers = some (c', false) := by
  have hjoin : c.join servers = some (c', false) := by
    rcases h with h | h
    · exact h
    · unfold joinBalance at h
      split at h
      · obtain ⟨c1, _, e⟩ := Option.map_eq_some_iff.mp h
        cases e
      · exact h
  unfold join at hjoin
  split at hjoin
  · split at hjoin
    · cases hjoin
    · cases hjoin
  · exact hjoin

theorem leaveLoop_of_refused {c c' : ShardConfig} {gids : List Tgid}
    (h : c.leave gids = some (c', false) ∨ c.leaveBalance gids = some (c', false)) :
    c.leaveLoop gids = (c', false) := by
  have hleave : c.leave gids = some (c', false) := by
    rcases h with h | h
    · exact h
    · unfold leaveBalance at h
      split at h
      · obtain ⟨c1, _, e⟩ := Option.map_eq_some_iff.mp h
        cases e
      · exact h
  unfold leave at hleave
  split at hleave
  · split at hleave
    · cases hleave
    · cases hleave
  · exact Option.some.inj hleave

/-- A refused `Join` has added the groups it met before the one it refused. -/
theorem joinLoop_refused {c c' : ShardConfig} {servers : List (Tgid × List Bytes)}
    (h : c.joinLoop servers = some (c', false)) :
    c'.groups = c.groups ↔ ∃ x ∈ servers.head?, (c.groups.lookup x.1).isSome := by
  cases servers with
  | nil => cases h
  | cons x rest =>
      obtain ⟨gid, srvs⟩ := x
      simp only [List.head?_cons, Option.mem_some_iff, exists_eq_left']
      unfold joinLoop at h
      split at h
      next hold =>
        cases h
        exact ⟨fun _ => hold, fun _ => rfl⟩
      next hnew =>
        split at h
        · cases h
        · have hlen := (joinLoop_shards h).2
          rw [length_setGroup hnew] at hlen
          refine ⟨fun e => ?_, fun hold => absurd hold hnew⟩
          rw [e] at hlen
          exact absurd hlen (Nat.not_succ_le_self _)

theorem length_filter_lt {gid : Tgid} {gs : List (Tgid × List Bytes)}
    (h : (gs.lookup gid).isSome) : (gs.filter fun x => x.1 ≠ gid).length < gs.length := by
  obtain ⟨srvs, hs⟩ := Option.isSome_iff_exists.mp h
  have hmem : (gid, srvs) ∈ gs := by
    obtain ⟨l₁, l₂, e, _⟩ := List.lookup_eq_some_iff.mp hs
    rw [e]
    exact List.mem_append_right _ List.mem_cons_self
  refine Nat.lt_of_le_of_ne (List.length_filter_le _ _) fun e => ?_
  have hall := List.length_filter_eq_length_iff.mp e _ hmem
  simp at hall

/-- A refused `Leave` has deleted the groups it met before the one it refused. -/
theorem leaveLoop_refused {c c' : ShardConfig} {gids : List Tgid}
    (h : c.leaveLoop gids = (c', false)) :
    c'.groups = c.groups ↔ ∃ g ∈ gids.head?, ¬ (c.groups.lookup g).isSome := by
  cases gids with
  | nil => cases h
  | cons gid rest =>
      simp only [List.head?_cons, Option.mem_some_iff, exists_eq_left']
      unfold leaveLoop at h
      split at h
      next hold =>
        have hlen := (leaveLoop_shards rest
          { c with groups := c.groups.filter fun x => x.1 ≠ gid }).2
        rw [h] at hlen
        refine ⟨fun e => ?_, fun hnew => absurd hold hnew⟩
        have hlt := length_filter_lt hold
        dsimp only at hlen
        rw [e] at hlen
        omega
      next hnew =>
        cases h
        exact ⟨fun _ => hnew, fun _ => rfl⟩

/-- **What a refused call leaves behind**: `Num` and `Shards` as they were, and `Groups` as they
    were exactly if the first id the call met is the one it refused. -/
theorem refused_unchanged_iff (c c' : ShardConfig) :
    (∀ servers : List (Tgid × List Bytes),
      c.join servers = some (c', false) ∨ c.joinBalance servers = some (c', false) →
      c'.num = c.num ∧ c'.shards = c.shards ∧
        (c'.groups = c.groups ↔ ∃ x ∈ servers.head?, (c.groups.lookup x.1).isSome)) ∧
    ∀ gids : List Tgid,
      c.leave gids = some (c', false) ∨ c.leaveBalance gids = some (c', false) →
      c'.num = c.num ∧ c'.shards = c.shards ∧
        (c'.groups = c.groups ↔ ∃ g ∈ gids.head?, ¬ (c.groups.lookup g).isSome) := by
  refine ⟨fun servers h => ?_, fun gids h => ?_⟩
  · have hloop := joinLoop_of_refused h
    exact ⟨joinLoop_num hloop, (joinLoop_shards hloop).1, joinLoop_refused hloop⟩
  · have hloop := leaveLoop_of_refused h
    have hnum := leaveLoop_num gids c
    have hshards := (leaveLoop_shards gids c).1
    rw [hloop] at hnum hshards
    exact ⟨hnum, hshards, leaveLoop_refused hloop⟩

/-- One group, 1, with all shards. -/
def single : ShardConfig := ⟨1, fun _ => 1, [(1, [[97]])]⟩

/-- `single` after a `Join` that is refused at its second group. -/
def widened : ShardConfig := { single with groups := [(1, [[97]]), (2, [[98]])] }

/-- The groups stay as they were if the refused id comes first, whatever follows it; they do not if
    group 2 comes before it. -/
theorem refused_unchanged_iff_single :
    single.join [(1, [[98]]), (2, [[99]])] = some (single, false) ∧
      (single.groups = single.groups ↔
        ∃ x ∈ [((1 : Tgid), ([[98]] : List Bytes)), (2, [[99]])].head?,
          (single.groups.lookup x.1).isSome) ∧
      single.leave [5, 1] = some (single, false) ∧
      (single.groups = single.groups ↔
        ∃ g ∈ [(5 : Tgid), 1].head?, ¬ (single.groups.lookup g).isSome) ∧
      single.joinBalance [(2, [[98]]), (1, [[99]])] = some (widened, false) ∧
      (widened.groups = single.groups ↔
        ∃ x ∈ [((2 : Tgid), ([[98]] : List Bytes)), (1, [[99]])].head?,
          (single.groups.lookup x.1).isSome) := by
  have hjoin : single.join [(1, [[98]]), (2, [[99]])] = some (single, false) := by decide
  have hleave : single.leave [5, 1] = some (single, false) := by decide
  have hwide : single.joinBalance [(2, [[98]]), (1, [[99]])] = some (widened, false) := by decide
  exact ⟨hjoin, ((refused_unchanged_iff single single).1 _ (Or.inl hjoin)).2.2, hleave,
    ((refused_unchanged_iff single single).2 _ (Or.inl hleave)).2.2, hwide,
    ((refused_unchanged_iff single widened).1 _ (Or.inr hwide)).2.2⟩

/-- The id that is refused comes second: `Join` has added group 2, `Leave` has deleted group 1. -/
theorem refused_changes_groups :
    single.join [(2, [[98]]), (1, [[99]])] =
        some ({ single with groups := [(1, [[97]]), (2, [[98]])] }, false) ∧
      single.joinBalance [(2, [[98]]), (1, [[99]])] =
        some ({ single with groups := [(1, [[97]]), (2, [[98]])] }, false) ∧
      single.leave [1, 1] = some ({ single with groups := [] }, false) ∧
      single.leaveBalance [1, 1] = some ({ single with groups := [] }, false) := by
  decide

end ShardConfig

end RaftLab.Shardkv1

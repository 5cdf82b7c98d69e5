/-
  File:      RaftLab/Shardkv1/Rebalance.lean
  Subject:   What `Rebalance` makes of a configuration, and which shards it moves.

  The two loops of `Rebalance` are the two moves of `Lib/Balance.lean`, with the shards as items and
  the groups as bins: `analyze` finds a fullest and an emptiest group (`analyze_loaded`), the first
  loop gives a shard without a group to an emptiest one (`assign_run`), the second takes a shard
  from a fullest group to an emptiest one (`balance_turn`). Both keep `Thrifty`, which compares the
  configuration with the one `Rebalance` was called on.

  * **`rebalance_level`**: it ends, with every shard in a group and the groups level, whatever the
    order in which `Groups` is iterated;
  * **`rebalance_fewest`**: with the fewest shards moved, and no shard written twice;
  * `rebalance_checkConfig`: the result passes `CheckConfig`, the check of the repository's tests.
-/
import RaftLab.Lib.Balance
import RaftLab.Shardkv1.Config
import Mathlib.Order.Bounds.Basic

namespace RaftLab.Shardkv1

open RaftLab.Raft1 (Bytes)
open RaftLab.Lib.Balance Function

namespace ShardConfig

/-! ## 1. Groups and writes -/

/-- The keys of `Groups`. -/
def gids (c : ShardConfig) : Finset Tgid := (c.groups.map Prod.fst).toFinset

/-- `c.Shards[s] = g` -/
def setShard (c : ShardConfig) (s : Tshid) (g : Tgid) : ShardConfig :=
  { c with shards := update c.shards s g }

theorem lookup_isSome {c : ShardConfig} {g : Tgid} :
    (c.groups.lookup g).isSome ↔ g ∈ c.gids := by
  unfold gids
  induction c.groups with
  | nil => simp
  | cons x xs ih =>
      obtain ⟨k, srvs⟩ := x
      by_cases e : g = k
      · subst e
        simp
      · simp only [List.lookup_cons, beq_eq_false_iff_ne.mpr e, List.map_cons, List.toFinset_cons,
          Finset.mem_insert, e, false_or]
        exact ih

theorem count_eq_load (c : ShardConfig) (g : Tgid) : c.count g = load c.shards g := by
  unfold count load
  rw [List.countP_eq_length_filter]
  rfl

/-! ## 2. The fullest and the emptiest group -/

/-- One turn of the loop of `analyze`. -/
def Load.see (n : Tgid → ℤ) (l : Load) (g : Tgid) : Load :=
  let l := if n g < l.ln then { l with ln := n g, lg := g } else l
  if n g > l.mn then { l with mn := n g, mg := g } else l

theorem analyze_eq (c : ShardConfig) : c.analyze =
    ((c.groups.map Prod.fst).insertionSort (· ≤ ·)).foldl (Load.see c.count) ⟨-1, -1, -1, 257⟩ :=
  rfl

theorem Load.see_most (n : Tgid → ℤ) (l : Load) (g : Tgid) :
    n g ≤ l.mn ∧ (l.see n g).mn = l.mn ∧ (l.see n g).mg = l.mg ∨
      l.mn < n g ∧ (l.see n g).mn = n g ∧ (l.see n g).mg = g := by
  unfold see
  split <;> dsimp only <;> split <;> grind

theorem Load.see_least (n : Tgid → ℤ) (l : Load) (g : Tgid) :
    l.ln ≤ n g ∧ (l.see n g).ln = l.ln ∧ (l.see n g).lg = l.lg ∨
      n g < l.ln ∧ (l.see n g).ln = n g ∧ (l.see n g).lg = g := by
  unfold see
  split <;> dsimp only <;> split <;> grind

theorem foldl_see_most (n : Tgid → ℤ) (ks : List Tgid) (l : Load) :
    l.mn ≤ (ks.foldl (Load.see n) l).mn ∧ (∀ g ∈ ks, n g ≤ (ks.foldl (Load.see n) l).mn) ∧
      (l.mn < (ks.foldl (Load.see n) l).mn →
        (ks.foldl (Load.see n) l).mg ∈ ks ∧
          (ks.foldl (Load.see n) l).mn = n (ks.foldl (Load.see n) l).mg) := by
  induction ks using List.reverseRecOn with
  | nil => simp
  | append_singleton ks g ih =>
      obtain ⟨h1, h2, h3⟩ := ih
      simp only [List.foldl_append, List.foldl_cons, List.foldl_nil]
      generalize ks.foldl (Load.see n) l = r at h1 h2 h3
      grind [Load.see_most n r g]

theorem foldl_see_least (n : Tgid → ℤ) (ks : List Tgid) (l : Load) :
    (ks.foldl (Load.see n) l).ln ≤ l.ln ∧ (∀ g ∈ ks, (ks.foldl (Load.see n) l).ln ≤ n g) ∧
      ((ks.foldl (Load.see n) l).ln < l.ln →
        (ks.foldl (Load.see n) l).lg ∈ ks ∧
          (ks.foldl (Load.see n) l).ln = n (ks.foldl (Load.see n) l).lg) := by
  induction ks using List.reverseRecOn with
  | nil => simp
  | append_singleton ks g ih =>
      obtain ⟨h1, h2, h3⟩ := ih
      simp only [List.foldl_append, List.foldl_cons, List.foldl_nil]
      generalize ks.foldl (Load.see n) l = r at h1 h2 h3
      grind [Load.see_least n r g]

/-- `l` names a fullest and an emptiest group of `c`. -/
structure Loaded (c : ShardConfig) (l : Load) : Prop where
  mg_mem : l.mg ∈ c.gids
  mn_eq : l.mn = load c.shards l.mg
  most : ∀ g ∈ c.gids, load c.shards g ≤ load c.shards l.mg
  lg_mem : l.lg ∈ c.gids
  ln_eq : l.ln = load c.shards l.lg
  least : ∀ g ∈ c.gids, load c.shards l.lg ≤ load c.shards g

theorem gids_nonempty {c : ShardConfig} (hg : c.groups ≠ []) : c.gids.Nonempty := by
  obtain ⟨x, hx⟩ := List.exists_mem_of_ne_nil _ hg
  exact ⟨x.1, List.mem_toFinset.mpr (List.mem_map_of_mem hx)⟩

theorem analyze_loaded {c : ShardConfig} (hg : c.groups ≠ []) : Loaded c c.analyze := by
  have hmem : ∀ g, g ∈ (c.groups.map Prod.fst).insertionSort (· ≤ ·) ↔ g ∈ c.gids := by
    intro g
    rw [List.mem_insertionSort, gids, List.mem_toFinset]
  obtain ⟨_, hmost, hmg⟩ := foldl_see_most c.count
    ((c.groups.map Prod.fst).insertionSort (· ≤ ·)) ⟨-1, -1, -1, 257⟩
  obtain ⟨_, hleast, hlg⟩ := foldl_see_least c.count
    ((c.groups.map Prod.fst).insertionSort (· ≤ ·)) ⟨-1, -1, -1, 257⟩
  rw [← analyze_eq] at hmost hmg hleast hlg
  simp only [hmem, count_eq_load] at hmost hmg hleast hlg
  -- some group has been seen, and its count lies between the two starting values
  obtain ⟨g, hg⟩ := gids_nonempty hg
  have hg1 := hmost g hg
  have hg2 := hleast g hg
  have hle : load c.shards g ≤ 12 := load_le_card c.shards g
  obtain ⟨hmg1, hmg2⟩ := hmg (by omega)
  obtain ⟨hlg1, hlg2⟩ := hlg (by omega)
  refine ⟨hmg1, hmg2, fun k hk => ?_, hlg1, hlg2, fun k hk => ?_⟩
  · have := hmost k hk
    omega
  · have := hleast k hk
    omega

/-! ## 3. The first loop -/

/-- One turn of the first loop of `Rebalance`, called on `c`. -/
def visit (c c' : ShardConfig) (s : Tshid) : ShardConfig :=
  if (c'.groups.lookup (c.shards s)).isSome then c' else c'.setShard s c'.least

theorem visit_groups (c c' : ShardConfig) (s : Tshid) : (c.visit c' s).groups = c'.groups := by
  unfold visit
  split
  · rfl
  · rfl

theorem assign_eq (c : ShardConfig) : c.assign = (List.finRange nShards).foldl c.visit c := rfl

/-- What the first loop writes to `Shards`, for the shards `l` that are left and the configuration
    `c'` it has reached. -/
def placements (c : ShardConfig) : List Tshid → ShardConfig → List (Tshid × Tgid)
  | [], _ => []
  | s :: l, c' =>
      if (c'.groups.lookup (c.shards s)).isSome then placements c l (c.visit c' s)
      else (s, c'.least) :: placements c l (c.visit c' s)

/-- `Rebalance` was called on `c` and is at `c'`, with no shard taken from a group so far. -/
structure Placing (c c' : ShardConfig) : Prop where
  num : c'.num = c.num
  groups : c'.groups = c.groups
  thrifty : Thrifty c.gids c.shards c'.shards
  kept : ∀ g ∈ c.gids, ¬ Loses c.shards c'.shards g

theorem Placing.gids {c c' : ShardConfig} (hp : Placing c c') : c'.gids = c.gids := by
  unfold ShardConfig.gids
  rw [hp.groups]

theorem Placing.place {c c' : ShardConfig} {s : Tshid} (hp : Placing c c') (hg : c.groups ≠ [])
    (hs : c'.shards s = c.shards s) (hout : c.shards s ∉ c.gids) :
    Placing c (c'.setShard s c'.least) ∧ c'.least ∈ c.gids := by
  have hl : Loaded c' c'.analyze := analyze_loaded (hp.groups ▸ hg)
  have hmem : c'.least ∈ c.gids := hp.gids ▸ hl.lg_mem
  have hmin : ∀ k ∈ c.gids, load c'.shards c'.least ≤ load c'.shards k :=
    fun k hk => hl.least k (hp.gids ▸ hk)
  obtain ⟨hthrifty, hkept⟩ := hp.thrifty.place hp.kept hs hout hmin hmem
  exact ⟨⟨hp.num, hp.groups, hthrifty, hkept⟩, hmem⟩

theorem visit_of_mem {c c' : ShardConfig} {s : Tshid} (hp : Placing c c')
    (hin : c.shards s ∈ c.gids) : c.visit c' s = c' :=
  if_pos (lookup_isSome.mpr (hp.gids ▸ hin))

theorem visit_of_notMem {c c' : ShardConfig} {s : Tshid} (hp : Placing c c')
    (hout : c.shards s ∉ c.gids) : c.visit c' s = c'.setShard s c'.least :=
  if_neg fun h => hout (hp.gids ▸ lookup_isSome.mp h)

/-- One turn: a shard that was still where it was is now in a group, the others are untouched. -/
theorem Placing.visit {c c' : ShardConfig} {s : Tshid} (hp : Placing c c') (hg : c.groups ≠ [])
    (hs : c'.shards s = c.shards s) :
    Placing c (c.visit c' s) ∧ (c.visit c' s).shards s ∈ c.gids ∧
      ∀ t ≠ s, (c.visit c' s).shards t = c'.shards t := by
  by_cases hin : c.shards s ∈ c.gids
  · rw [visit_of_mem hp hin, hs]
    exact ⟨hp, hin, fun _ _ => rfl⟩
  · obtain ⟨hp', hmem⟩ := hp.place hg hs hin
    rw [visit_of_notMem hp hin]
    refine ⟨hp', ?_, fun t ht => update_of_ne ht _ _⟩
    show update c'.shards s c'.least s ∈ c.gids
    rw [update_self]
    exact hmem

theorem assign_run {c : ShardConfig} (hg : c.groups ≠ []) (l : List Tshid) (c' : ShardConfig)
    (hp : Placing c c') (hnd : l.Nodup) (hrest : ∀ s ∈ l, c'.shards s = c.shards s)
    (hdone : ∀ s ∉ l, c'.shards s ∈ c.gids) :
    Placing c (l.foldl c.visit c') ∧ Into c.gids (l.foldl c.visit c').shards := by
  induction l generalizing c' with
  | nil => exact ⟨hp, fun s => hdone s List.not_mem_nil⟩
  | cons s l ih =>
      obtain ⟨hs, hnd⟩ := List.nodup_cons.mp hnd
      obtain ⟨hp', hmem, hsame⟩ := hp.visit hg (hrest s List.mem_cons_self)
      refine ih (c.visit c' s) hp' hnd ?_ ?_
      · intro t ht
        have hne : t ≠ s := fun e => hs (e ▸ ht)
        rw [hsame t hne]
        exact hrest t (List.mem_cons_of_mem s ht)
      · intro t ht
        by_cases e : t = s
        · rw [e]
          exact hmem
        · rw [hsame t e]
          exact hdone t fun h => (List.mem_cons.mp h).elim e ht

theorem assign_placing {c : ShardConfig} (hg : c.groups ≠ []) :
    Placing c c.assign ∧ Into c.gids c.assign.shards := by
  have hstart : Placing c c := ⟨rfl, rfl, thrifty_refl _ _, fun _ _ ⟨_, e, hne⟩ => hne e⟩
  exact assign_run hg _ c hstart (List.nodup_finRange nShards) (fun _ _ => rfl)
    fun s hs => absurd (List.mem_finRange s) hs

/-- The listed writes are all that the loop does. -/
theorem foldl_placements (c : ShardConfig) (l : List Tshid) (c' : ShardConfig) :
    (c.placements l c').foldl (fun c' w => c'.setShard w.1 w.2) c' = l.foldl c.visit c' := by
  induction l generalizing c' with
  | nil => rfl
  | cons s l ih =>
      rw [List.foldl_cons, ← ih, placements]
      by_cases h : (c'.groups.lookup (c.shards s)).isSome
      · have hvisit : c.visit c' s = c' := if_pos h
        rw [if_pos h, hvisit]
      · have hvisit : c.visit c' s = c'.setShard s c'.least := if_neg h
        rw [if_neg h, hvisit, List.foldl_cons]

/-- It writes to the shards that had no group, in their order. -/
theorem placements_fst {c : ShardConfig} (l : List Tshid) (c' : ShardConfig)
    (hgs : c'.groups = c.groups) :
    (c.placements l c').map Prod.fst = l.filter fun s => c.shards s ∉ c.gids := by
  induction l generalizing c' with
  | nil => rfl
  | cons s l ih =>
      have hsame : (c'.groups.lookup (c.shards s)).isSome ↔ c.shards s ∈ c.gids := by
        rw [hgs]
        exact lookup_isSome
      have hnext : (c.visit c' s).groups = c.groups := (visit_groups c c' s).trans hgs
      unfold placements
      by_cases hin : c.shards s ∈ c.gids
      · rw [if_pos (hsame.mpr hin), ih _ hnext, List.filter_cons_of_neg (by simpa using hin)]
      · rw [if_neg (fun h => hin (hsame.mp h)), List.map_cons, ih _ hnext,
          List.filter_cons_of_pos (by simpa using hin)]

/-! ## 4. The second loop -/

/-- What the second loop writes to `Shards`. -/
def shifts : ℕ → ShardConfig → List (Tshid × Tgid)
  | 0, _ => []
  | fuel + 1, c =>
      let l := c.analyze
      if l.mn < l.ln + 2 then []
      else
        match (List.finRange nShards).find? fun s => c.shards s = l.mg with
        | some s => (s, l.lg) :: shifts fuel (c.setShard s l.lg)
        | none => shifts fuel c

theorem balance_succ (fuel : ℕ) (c : ShardConfig) : balance (fuel + 1) c =
    if c.analyze.mn < c.analyze.ln + 2 then some c
    else
      match (List.finRange nShards).find? fun s => c.shards s = c.analyze.mg with
      | some s => balance fuel (c.setShard s c.analyze.lg)
      | none => balance fuel c := rfl

theorem shifts_succ (fuel : ℕ) (c : ShardConfig) : shifts (fuel + 1) c =
    if c.analyze.mn < c.analyze.ln + 2 then []
    else
      match (List.finRange nShards).find? fun s => c.shards s = c.analyze.mg with
      | some s => (s, c.analyze.lg) :: shifts fuel (c.setShard s c.analyze.lg)
      | none => shifts fuel c := rfl

/-- A shard `s` of a fullest group and an emptiest group `h`, two or more below it. -/
structure Shift (c : ShardConfig) (s : Tshid) (h : Tgid) : Prop where
  mem : c.shards s ∈ c.gids
  most : ∀ g ∈ c.gids, load c.shards g ≤ load c.shards (c.shards s)
  to_mem : h ∈ c.gids
  least : ∀ g ∈ c.gids, load c.shards h ≤ load c.shards g
  gap : load c.shards h + 2 ≤ load c.shards (c.shards s)

/-- **One turn of the loop**: it ends at a level configuration, or moves one shard from a fullest to
    an emptiest group. -/
theorem balance_turn {c : ShardConfig} (hg : c.groups ≠ []) (fuel : ℕ) :
    Level c.gids c.shards ∧ balance (fuel + 1) c = some c ∧ shifts (fuel + 1) c = [] ∨
      ∃ s h, Shift c s h ∧ balance (fuel + 1) c = balance fuel (c.setShard s h) ∧
        shifts (fuel + 1) c = (s, h) :: shifts fuel (c.setShard s h) := by
  have hl := analyze_loaded hg
  rw [balance_succ, shifts_succ]
  by_cases hend : c.analyze.mn < c.analyze.ln + 2
  · rw [if_pos hend, if_pos hend]
    refine Or.inl ⟨fun g hg h hh => ?_, rfl, rfl⟩
    have h1 := hl.most g hg
    have h2 := hl.least h hh
    rw [hl.mn_eq, hl.ln_eq] at hend
    omega
  · rw [if_neg hend, if_neg hend]
    rw [hl.mn_eq, hl.ln_eq] at hend
    have hgap : load c.shards c.analyze.lg + 2 ≤ load c.shards c.analyze.mg := by omega
    cases hf : (List.finRange nShards).find? fun s => c.shards s = c.analyze.mg with
    | none =>
        obtain ⟨s, hs⟩ := exists_of_load_pos (a := c.shards) (g := c.analyze.mg) (by omega)
        have := List.find?_eq_none.mp hf s (List.mem_finRange s)
        simp [hs] at this
    | some s =>
        have hs : c.shards s = c.analyze.mg := by simpa using List.find?_some hf
        refine Or.inr ⟨s, c.analyze.lg, ⟨?_, ?_, hl.lg_mem, hl.least, ?_⟩, rfl, rfl⟩
        · rw [hs]
          exact hl.mg_mem
        · rw [hs]
          exact hl.most
        · rw [hs]
          exact hgap

/-- `c'` is level, and `ws` are the writes that have led to it from `c`, which had been reached from
    the assignment `a₀`. -/
structure Levelled (c : ShardConfig) (a₀ : Tshid → Tgid) (ws : List (Tshid × Tgid))
    (c' : ShardConfig) : Prop where
  num : c'.num = c.num
  groups : c'.groups = c.groups
  thrifty : Thrifty c.gids a₀ c'.shards
  into : Into c.gids c'.shards
  level : Level c.gids c'.shards
  written : ws.foldl (fun c' w => c'.setShard w.1 w.2) c = c'
  once : (ws.map Prod.fst).Nodup
  unmoved : ∀ w ∈ ws, c.shards w.1 = a₀ w.1

theorem Shift.ne {c : ShardConfig} {s : Tshid} {h : Tgid} (hsh : Shift c s h) :
    c.shards s ≠ h := by
  intro e
  have hgap := hsh.gap
  rw [e] at hgap
  omega

theorem Shift.into {c : ShardConfig} {s : Tshid} {h : Tgid} (hsh : Shift c s h)
    (hin : Into c.gids c.shards) : Into c.gids (c.setShard s h).shards := by
  intro t
  show update c.shards s h t ∈ c.gids
  by_cases e : t = s
  · rw [e, update_self]
    exact hsh.to_mem
  · rw [update_of_ne e]
    exact hin t

/-- A turn before a run. A later turn takes a shard that is where it was in `a₀`, so not
    this one. -/
theorem Levelled.cons {a₀ : Tshid → Tgid} {c c' : ShardConfig} {s : Tshid} {h : Tgid}
    {ws : List (Tshid × Tgid)} (hsh : Shift c s h) (hstay : c.shards s = a₀ s)
    (hl : Levelled (c.setShard s h) a₀ ws c') : Levelled c a₀ ((s, h) :: ws) c' := by
  have hlater : ∀ w ∈ ws, w.1 ≠ s ∧ c.shards w.1 = a₀ w.1 := by
    intro w hw
    have hw' : update c.shards s h w.1 = a₀ w.1 := hl.unmoved w hw
    by_cases e : w.1 = s
    · rw [e, update_self] at hw'
      exact absurd (hstay.trans hw'.symm) hsh.ne
    · rw [update_of_ne e] at hw'
      exact ⟨e, hw'⟩
  refine ⟨hl.num, hl.groups, hl.thrifty, hl.into, hl.level, hl.written, ?_, ?_⟩
  · refine List.nodup_cons.mpr ⟨fun hmem => ?_, hl.once⟩
    obtain ⟨w, hw, e⟩ := List.mem_map.mp hmem
    exact (hlater w hw).1 e
  · intro w hw
    rcases List.mem_cons.mp hw with rfl | hw
    · exact hstay
    · exact (hlater w hw).2

/-- **A whole run of the loop.** Every turn moves a shard that has not moved, so there are at most
    as many turns as shards. -/
theorem balance_run {a₀ : Tshid → Tgid} (fuel : ℕ) {c : ShardConfig} (hg : c.groups ≠ [])
    (ht : Thrifty c.gids a₀ c.shards) (hin : Into c.gids c.shards)
    (hfuel : nShards < fuel + moved a₀ c.shards) :
    ∃ c', balance fuel c = some c' ∧ Levelled c a₀ (shifts fuel c) c' := by
  induction fuel generalizing c with
  | zero =>
      have : moved a₀ c.shards ≤ nShards := moved_le_card _ _
      omega
  | succ fuel ih =>
      rcases balance_turn hg fuel with ⟨hlev, he, hs⟩ | ⟨s, h, hsh, he, hs⟩
      · rw [he, hs]
        exact ⟨c, rfl, rfl, rfl, ht, hin, hlev, rfl, List.nodup_nil, fun w hw => nomatch hw⟩
      · have hstay : c.shards s = a₀ s := ht.stays hsh.mem hsh.to_mem hsh.gap
        have hmoved : moved a₀ (c.setShard s h).shards = moved a₀ c.shards + 1 :=
          moved_update hstay hsh.ne
        have hshift := ht.shift hsh.mem hsh.most hsh.to_mem hsh.least hsh.gap
        obtain ⟨c', hb, hl⟩ := ih (c := c.setShard s h) hg hshift (hsh.into hin) (by omega)
        rw [he, hs]
        exact ⟨c', hb, hl.cons hsh hstay⟩

/-! ## 5. Rebalance -/

/-- Everything `Rebalance` writes to `Shards` when there is a group. -/
def writes (c : ShardConfig) : List (Tshid × Tgid) :=
  c.placements (List.finRange nShards) c ++ shifts (nShards * nShards) c.assign

theorem rebalance_of_groups {c : ShardConfig} (hg : c.groups ≠ []) :
    c.rebalance = balance (nShards * nShards) c.assign := by
  have hpos := List.length_pos_iff.mpr hg
  exact if_neg (Nat.not_lt.mpr hpos)

theorem rebalance_run {c : ShardConfig} (hg : c.groups ≠ []) :
    ∃ c', c.rebalance = some c' ∧ Levelled c c.shards c.writes c' := by
  obtain ⟨hp, hin⟩ := assign_placing hg
  have hgs : c.assign.gids = c.gids := hp.gids
  have hg' : c.assign.groups ≠ [] := by
    rw [hp.groups]
    exact hg
  have hthrifty : Thrifty c.assign.gids c.shards c.assign.shards := by
    rw [hgs]
    exact hp.thrifty
  have hinto : Into c.assign.gids c.assign.shards := by
    rw [hgs]
    exact hin
  have hfuel : nShards < nShards * nShards + moved c.shards c.assign.shards :=
    Nat.lt_of_lt_of_le (by decide) (Nat.le_add_right _ _)
  obtain ⟨c', hb, hnum, hgroups, ht, hin', hlev, hfold, hnd, hold⟩ :=
    balance_run (nShards * nShards) hg' hthrifty hinto hfuel
  rw [hgs] at ht hin' hlev
  refine ⟨c', (rebalance_of_groups hg).trans hb, hnum.trans hp.num, hgroups.trans hp.groups, ht,
    hin', hlev, ?_, ?_, fun _ _ => rfl⟩
  · rw [writes, List.foldl_append, foldl_placements, ← assign_eq]
    exact hfold
  · -- the first loop writes to shards without a group, the second to shards that had one
    rw [writes, List.map_append, placements_fst _ c rfl]
    refine List.nodup_append.mpr ⟨(List.nodup_finRange nShards).filter _, hnd, ?_⟩
    intro s hs t ht e
    obtain ⟨w, hw, rfl⟩ := List.mem_map.mp ht
    have hout : c.shards s ∉ c.gids := by simpa using (List.mem_filter.mp hs).2
    rw [e, ← hold w hw] at hout
    exact hout (hin w.1)

/-! ## 6. The order of the groups -/

/-- `c` with its groups iterated in another order. -/
def withGroups (c : ShardConfig) (l : List (Tgid × List Bytes)) : ShardConfig :=
  { c with groups := l }

section Order

variable {c : ShardConfig} {l : List (Tgid × List Bytes)} (hl : l.Perm c.groups)

include hl

theorem gids_withGroups : (c.withGroups l).gids = c.gids :=
  List.toFinset_eq_of_perm _ _ (hl.map Prod.fst)

theorem analyze_withGroups : (c.withGroups l).analyze = c.analyze := by
  have hsort : (l.map Prod.fst).insertionSort (· ≤ ·) =
      (c.groups.map Prod.fst).insertionSort (· ≤ ·) := by
    have hperm := (List.perm_insertionSort (· ≤ ·) _).trans
      ((hl.map Prod.fst).trans (List.perm_insertionSort (· ≤ ·) _).symm)
    exact hperm.eq_of_sortedLE List.sortedLE_insertionSort List.sortedLE_insertionSort
  rw [analyze_eq, analyze_eq]
  show ((l.map Prod.fst).insertionSort (· ≤ ·)).foldl (Load.see c.count) _ = _
  rw [hsort]

theorem visit_withGroups (c₀ : ShardConfig) (s : Tshid) :
    (c₀.withGroups l).visit (c.withGroups l) s = (c₀.visit c s).withGroups l := by
  have hsame : ((c.withGroups l).groups.lookup (c₀.shards s)).isSome ↔
      (c.groups.lookup (c₀.shards s)).isSome := by
    rw [lookup_isSome, lookup_isSome, gids_withGroups hl]
  have hleast : (c.withGroups l).least = c.least := congrArg Load.lg (analyze_withGroups hl)
  by_cases h : (c.groups.lookup (c₀.shards s)).isSome
  · have hvisit : c₀.visit c s = c := if_pos h
    rw [hvisit]
    exact if_pos (hsame.mpr h)
  · have hvisit : c₀.visit c s = c.setShard s c.least := if_neg h
    rw [hvisit, ← hleast]
    exact if_neg fun h' => h (hsame.mp h')

end Order

theorem foldl_visit_withGroups {c₀ : ShardConfig} {l : List (Tgid × List Bytes)}
    (ss : List Tshid) {c : ShardConfig} (hl : l.Perm c.groups) :
    ss.foldl (c₀.withGroups l).visit (c.withGroups l) = (ss.foldl c₀.visit c).withGroups l := by
  induction ss generalizing c with
  | nil => rfl
  | cons s ss ih =>
      rw [List.foldl_cons, List.foldl_cons, visit_withGroups hl]
      refine ih ?_
      rw [visit_groups]
      exact hl

theorem balance_withGroups {l : List (Tgid × List Bytes)} (fuel : ℕ) {c : ShardConfig}
    (hl : l.Perm c.groups) :
    balance fuel (c.withGroups l) = (balance fuel c).map (·.withGroups l) := by
  induction fuel generalizing c with
  | zero => rfl
  | succ fuel ih =>
      rw [balance_succ, balance_succ, analyze_withGroups hl]
      by_cases hend : c.analyze.mn < c.analyze.ln + 2
      · rw [if_pos hend, if_pos hend]
        rfl
      · rw [if_neg hend, if_neg hend]
        show (match (List.finRange nShards).find? fun s => c.shards s = c.analyze.mg with
          | some s => balance fuel ((c.setShard s c.analyze.lg).withGroups l)
          | none => balance fuel (c.withGroups l)) = _
        cases (List.finRange nShards).find? fun s => c.shards s = c.analyze.mg with
        | none => exact ih hl
        | some s => exact ih (c := c.setShard s c.analyze.lg) hl

/-! ## 7. Main results -/

/-- **`Rebalance` ends in a level assignment**: from any assignment and any groups, with `Num` and
    `Groups` as they were, and the same one in whatever order the groups are iterated. -/
theorem rebalance_level (c : ShardConfig) (hg : c.groups ≠ []) :
    ∃ c', c.rebalance = some c' ∧ c'.num = c.num ∧ c'.groups = c.groups ∧
      (∀ s, c'.shards s ∈ c.gids) ∧
      (∀ g ∈ c.gids, ∀ h ∈ c.gids, c'.count g ≤ c'.count h + 1) ∧
      ∀ l, l.Perm c.groups → (c.withGroups l).rebalance = some (c'.withGroups l) := by
  obtain ⟨c', hc', hl⟩ := rebalance_run hg
  refine ⟨c', hc', hl.num, hl.groups, hl.into, ?_, ?_⟩
  · intro g hg h hh
    have hlev := hl.level g hg h hh
    rw [count_eq_load, count_eq_load]
    omega
  · intro l hperm
    have hne : (c.withGroups l).groups ≠ [] := by
      intro e
      have hnil : l = [] := e
      rw [hnil] at hperm
      exact hg (List.nil_perm.mp hperm)
    have hassign : (c.withGroups l).assign = c.assign.withGroups l := foldl_visit_withGroups _ hperm
    have hperm' : l.Perm c.assign.groups := by
      rw [(assign_placing hg).1.groups]
      exact hperm
    rw [rebalance_of_groups hne, hassign, balance_withGroups _ hperm', ← rebalance_of_groups hg,
      hc']
    rfl

/-- **`Rebalance` moves as few shards as possible**, and no shard twice: `writes` is all it does. -/
theorem rebalance_fewest (c : ShardConfig) (hg : c.groups ≠ []) :
    ∃ c', c.rebalance = some c' ∧
      IsLeast { n | ∃ a : Tshid → Tgid, (∀ s, a s ∈ c.gids) ∧
        (∀ g ∈ c.gids, ∀ h ∈ c.gids, load a g ≤ load a h + 1) ∧ n = moved c.shards a }
        (moved c.shards c'.shards) ∧
      c.writes.foldl (fun c' w => c'.setShard w.1 w.2) c = c' ∧
      (c.writes.map Prod.fst).Nodup := by
  obtain ⟨c', hc', hl⟩ := rebalance_run hg
  refine ⟨c', hc', ⟨⟨c'.shards, hl.into, hl.level, rfl⟩, ?_⟩, hl.written, hl.once⟩
  intro n hn
  obtain ⟨a, hin, hlev, rfl⟩ := hn
  exact hl.thrifty.moved_le hl.into hl.level hin hlev

/-- Two groups, and shards that are all on a third one that does not exist. -/
def orphaned : ShardConfig := ⟨4, fun _ => 9, [(2, []), (7, [])]⟩

theorem rebalance_level_orphaned : orphaned.groups ≠ [] ∧
    ∃ c', orphaned.rebalance = some c' ∧ ∀ s, c'.shards s ∈ orphaned.gids := by
  have hg : orphaned.groups ≠ [] := by decide
  obtain ⟨c', hc', _, _, hin, _⟩ := rebalance_level orphaned hg
  exact ⟨hg, c', hc', hin⟩

theorem rebalance_fewest_orphaned : orphaned.groups ≠ [] ∧
    ∃ c', orphaned.rebalance = some c' ∧ (orphaned.writes.map Prod.fst).Nodup := by
  have hg : orphaned.groups ≠ [] := by decide
  obtain ⟨c', hc', _, _, hnd⟩ := rebalance_fewest orphaned hg
  exact ⟨hg, c', hc', hnd⟩

/-! ## 8. CheckConfig -/

/-- The calls of `fatalf` in `CheckConfig`, with the values they print. -/
inductive CheckError where
  | wanted (groups got : ℕ)
  | missing (g : Tgid)
  | invalid (s : Tshid) (g : Tgid)
  | uneven (max min : ℤ)
  deriving DecidableEq

/-- The smallest and the largest count, as the last loop of `CheckConfig` finds them. -/
def extremes (c : ShardConfig) : ℤ × ℤ :=
  (c.groups.map Prod.fst).foldl
    (fun e g =>
      (if c.count g < e.1 then c.count g else e.1, if c.count g > e.2 then c.count g else e.2))
    (257, 0)

def checkConfig (c : ShardConfig) (groups : List Tgid) : Except CheckError Unit :=
  if c.groups.length ≠ groups.length then .error (.wanted groups.length c.groups.length)
  else
    match groups.find? fun g => (c.groups.lookup g).isNone with
    | some g => .error (.missing g)
    | none =>
        match if groups.length > 0 then
            (List.finRange nShards).find? fun s => (c.groups.lookup (c.shards s)).isNone
          else none with
        | some s => .error (.invalid s (c.shards s))
        | none =>
            if c.extremes.2 > c.extremes.1 + 1 then .error (.uneven c.extremes.2 c.extremes.1)
            else .ok ()

theorem extremes_spec (c : ShardConfig) :
    (c.extremes.1 = 257 ∨ ∃ g ∈ c.gids, c.extremes.1 = c.count g) ∧
      (c.extremes.2 = 0 ∨ ∃ g ∈ c.gids, c.extremes.2 = c.count g) := by
  unfold extremes gids
  simp only [List.mem_toFinset]
  induction c.groups.map Prod.fst using List.reverseRecOn with
  | nil => exact ⟨Or.inl rfl, Or.inl rfl⟩
  | append_singleton ks g ih =>
      simp only [List.foldl_append, List.foldl_cons, List.foldl_nil]
      generalize ks.foldl _ _ = e at ih
      grind

theorem lookup_isNone {c : ShardConfig} {g : Tgid} (hg : g ∈ c.gids) :
    (c.groups.lookup g).isNone = false := by
  rw [Option.isNone_eq_false_iff]
  exact lookup_isSome.mpr hg

/-- **What `Rebalance` returns passes `CheckConfig`** for the groups of the configuration. -/
theorem rebalance_checkConfig {c c' : ShardConfig} (hg : c.groups ≠ [])
    (h : c.rebalance = some c') : c'.checkConfig (c.groups.map Prod.fst) = .ok () := by
  obtain ⟨c'', hc'', hl⟩ := rebalance_run hg
  obtain rfl : c' = c'' := Option.some.inj (h.symm.trans hc'')
  have hgids : c'.gids = c.gids := by
    unfold gids
    rw [hl.groups]
  have hmissing : (c.groups.map Prod.fst).find? (fun g => (c'.groups.lookup g).isNone) = none := by
    refine List.find?_eq_none.mpr fun g hg => ?_
    rw [lookup_isNone (hgids ▸ List.mem_toFinset.mpr hg)]
    exact Bool.false_ne_true
  have hinvalid : (List.finRange nShards).find?
      (fun s => (c'.groups.lookup (c'.shards s)).isNone) = none := by
    refine List.find?_eq_none.mpr fun s _ => ?_
    rw [lookup_isNone (hgids ▸ hl.into s)]
    exact Bool.false_ne_true
  have heven : ¬ c'.extremes.2 > c'.extremes.1 + 1 := by
    obtain ⟨hmin, hmax⟩ := c'.extremes_spec
    have hle : ∀ g, load c'.shards g ≤ 12 := load_le_card c'.shards
    simp only [count_eq_load, hgids] at hmin hmax
    rcases hmax with hmax | ⟨g, hg, hmax⟩
    · rcases hmin with hmin | ⟨k, _, hmin⟩
      · omega
      · omega
    · have hg12 := hle g
      rcases hmin with hmin | ⟨k, hk, hmin⟩
      · omega
      · have hlev := hl.level g hg k hk
        omega
  unfold checkConfig
  rw [if_neg (by simp [hl.groups]), hmissing]
  simp only [hinvalid, ite_self, if_neg heven]

end ShardConfig

end RaftLab.Shardkv1

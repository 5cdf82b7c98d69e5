/-
  File:      RaftLab/Lib/Balance.lean
  Subject:   Items in bins: levelling the loads of the bins with as few moves as possible.

  An assignment is a function from items to bins, and `load a g` the number of items in `g`. Only
  the bins of a set `G` are in use; items may start anywhere. The two moves of the greedy algorithm
  are `update a s h` for an item outside `G` and the least loaded bin `h`, and for an item of the
  most loaded bin and the least loaded one, if these two loads differ by two or more.

  * `Thrifty G a₀ a` relates the assignment the algorithm began with to the one it has reached; both
    moves keep it (`Thrifty.place`, `Thrifty.shift`);
  * **`Thrifty.moved_le`**: an assignment it relates to `a₀`, into `G` and level, has moved at most
    as many items as any other level assignment into `G`;
  * `Thrifty.stays`: the second move takes an item that is still where it was in `a₀`. So the number
    of moved items grows, which bounds the number of moves.
-/
import Mathlib.Algebra.BigOperators.Group.Finset.Basic
import Mathlib.Algebra.Order.BigOperators.Group.Finset
import Mathlib.Data.Fintype.BigOperators

namespace RaftLab.Lib.Balance

open Finset Function

variable {ι β : Type*} [Fintype ι] [DecidableEq β]

/-! ## 1. Loads -/

def load (a : ι → β) (g : β) : ℕ := #{s | a s = g}

def Into (G : Finset β) (a : ι → β) : Prop := ∀ s, a s ∈ G

/-- The loads of the bins of `G` differ by at most one. -/
def Level (G : Finset β) (a : ι → β) : Prop := ∀ g ∈ G, ∀ h ∈ G, load a g ≤ load a h + 1

theorem load_le_card (a : ι → β) (g : β) : load a g ≤ Fintype.card ι := card_le_univ _

theorem exists_of_load_pos {a : ι → β} {g : β} (h : 0 < load a g) : ∃ s, a s = g := by
  obtain ⟨s, hs⟩ := card_pos.mp h
  exact ⟨s, (mem_filter.mp hs).2⟩

theorem load_update_target [DecidableEq ι] {a : ι → β} {s : ι} {h : β} (hne : a s ≠ h) :
    load (update a s h) h = load a h + 1 := by
  have heq : ({t | update a s h t = h} : Finset ι) =
      insert s ({t | a t = h} : Finset ι) := by
    ext t
    by_cases ht : t = s
    · simp [ht]
    · simp [ht]
  have hnot : s ∉ ({t | a t = h} : Finset ι) := by
    simpa using hne
  unfold load
  rw [heq, card_insert_of_notMem hnot]

theorem load_update_source [DecidableEq ι] {a : ι → β} {s : ι} {h : β} (hne : a s ≠ h) :
    load (update a s h) (a s) + 1 = load a (a s) := by
  have heq : ({t | update a s h t = a s} : Finset ι) = ({t | a t = a s} : Finset ι).erase s := by
    ext t
    by_cases ht : t = s
    · simp [ht, hne.symm]
    · simp [ht]
  have hmem : s ∈ ({t | a t = a s} : Finset ι) := by simp
  unfold load
  rw [heq, card_erase_add_one hmem]

theorem load_update_of_ne [DecidableEq ι] {a : ι → β} {s : ι} {h k : β} (hs : k ≠ a s)
    (hh : k ≠ h) : load (update a s h) k = load a k := by
  unfold load
  congr 1
  ext t
  by_cases ht : t = s
  · simp [ht, hs.symm, hh.symm]
  · simp [ht]

theorem sum_load {G : Finset β} {a : ι → β} (ha : Into G a) :
    ∑ g ∈ G, load a g = Fintype.card ι :=
  (card_eq_sum_card_fiberwise fun s _ => ha s).symm

section Extremes

variable {G : Finset β} {a b : ι → β} (ha : Into G a) (hb : Into G b) (hlev : Level G b)

include ha hb hlev

/-- No bin of a level assignment has more than the fullest bin of another one. -/
theorem load_le_of_max {g h : β} (hmax : ∀ k ∈ G, load a k ≤ load a g) (hh : h ∈ G) :
    load b h ≤ load a g := by
  refine Nat.le_of_not_lt fun hlt => ?_
  have hle : ∀ k ∈ G, load a k ≤ load b k := by
    intro k hk
    have h1 := hmax k hk
    have h2 := hlev h hh k hk
    omega
  have hsum : ∑ k ∈ G, load a k < ∑ k ∈ G, load b k :=
    sum_lt_sum hle ⟨h, hh, (hmax h hh).trans_lt hlt⟩
  rw [sum_load ha, sum_load hb] at hsum
  exact lt_irrefl _ hsum

/-- No bin of a level assignment has less than the emptiest bin of another one. -/
theorem le_load_of_min {g h : β} (hmin : ∀ k ∈ G, load a g ≤ load a k) (hh : h ∈ G) :
    load a g ≤ load b h := by
  refine Nat.le_of_not_lt fun hlt => ?_
  have hle : ∀ k ∈ G, load b k ≤ load a k := by
    intro k hk
    have h1 := hmin k hk
    have h2 := hlev k hk h hh
    omega
  have hsum : ∑ k ∈ G, load b k < ∑ k ∈ G, load a k :=
    sum_lt_sum hle ⟨h, hh, hlt.trans_le (hmin h hh)⟩
  rw [sum_load ha, sum_load hb] at hsum
  exact lt_irrefl _ hsum

end Extremes

/-! ## 2. Moved items -/

def moved (a b : ι → β) : ℕ := #{s | a s ≠ b s}

/-- How many items have left `g` from `a` to `b`; from `b` to `a`, how many have come to it. -/
def left (a b : ι → β) (g : β) : ℕ := #{s | a s = g ∧ b s ≠ g}

theorem moved_comm (a b : ι → β) : moved a b = moved b a := by
  unfold moved
  simp only [ne_comm]

theorem moved_le_card (a b : ι → β) : moved a b ≤ Fintype.card ι := card_le_univ _

/-- **Counted by the bins they have left.** -/
theorem moved_eq_sum {S : Finset β} {a : ι → β} (b : ι → β) (ha : Into S a) :
    moved a b = ∑ g ∈ S, left a b g := by
  unfold moved
  rw [card_eq_sum_card_fiberwise fun s _ => ha s]
  refine sum_congr rfl fun g _ => ?_
  unfold left
  rw [filter_filter]
  congr 1
  ext s
  simp only [mem_filter, mem_univ, true_and]
  constructor
  · intro h
    exact ⟨h.2, fun e => h.1 (h.2.trans e.symm)⟩
  · intro h
    exact ⟨fun e => h.2 (e.symm.trans h.1), h.1⟩

theorem moved_update [DecidableEq ι] {a₀ a : ι → β} {s : ι} {h : β} (hs : a s = a₀ s)
    (hne : a s ≠ h) : moved a₀ (update a s h) = moved a₀ a + 1 := by
  have heq : ({t | a₀ t ≠ update a s h t} : Finset ι) =
      insert s ({t | a₀ t ≠ a t} : Finset ι) := by
    ext t
    by_cases ht : t = s
    · simp [ht, ← hs, hne]
    · simp [ht]
  have hnot : s ∉ ({t | a₀ t ≠ a t} : Finset ι) := by simp [hs]
  unfold moved
  rw [heq, card_insert_of_notMem hnot]

theorem load_eq_stay_add_left (a b : ι → β) (g : β) :
    load a g = #{s | a s = g ∧ b s = g} + left a b g := by
  unfold load left
  rw [← card_filter_add_card_filter_not fun s => b s = g, filter_filter, filter_filter]

/-- What a bin has more is what came to it, less what left it. -/
theorem load_add_left (a b : ι → β) (g : β) : load a g + left b a g = load b g + left a b g := by
  have h1 := load_eq_stay_add_left a b g
  have h2 := load_eq_stay_add_left b a g
  have hstay : #{s | a s = g ∧ b s = g} = #{s | b s = g ∧ a s = g} :=
    congrArg card (filter_congr fun s _ => and_comm)
  omega

/-! ## 3. Greedy assignments -/

def Loses (a b : ι → β) (g : β) : Prop := ∃ s, a s = g ∧ b s ≠ g

def Gains (a b : ι → β) (g : β) : Prop := Loses b a g

theorem left_eq_zero {a b : ι → β} {g : β} (h : ¬ Loses a b g) : left a b g = 0 := by
  refine card_eq_zero.mpr (filter_eq_empty_iff.mpr fun s _ hs => h ⟨s, hs⟩)

/-- Bins that gained are among the emptiest, bins that lost among the fullest, up to one; and no bin
    did both. -/
structure Thrifty (G : Finset β) (a₀ a : ι → β) : Prop where
  apart : ∀ g ∈ G, Gains a₀ a g → ¬ Loses a₀ a g
  low : ∀ g ∈ G, Gains a₀ a g → ∀ h ∈ G, load a g ≤ load a h + 1
  high : ∀ g ∈ G, Loses a₀ a g → ∀ h ∈ G, load a h ≤ load a g + 1
  below : ∀ g ∈ G, Gains a₀ a g → ∀ h ∈ G, Loses a₀ a h → load a g ≤ load a h

theorem thrifty_refl (G : Finset β) (a : ι → β) : Thrifty G a a := by
  have hno : ∀ g, ¬ Loses a a g := fun g ⟨_, e, hne⟩ => hne e
  exact ⟨fun g _ _ => hno g, fun g _ h => absurd h (hno g), fun g _ h => absurd h (hno g),
    fun g _ h => absurd h (hno g)⟩

section Update

omit [Fintype ι] [DecidableEq β]

variable [DecidableEq ι]

theorem Gains.of_update {a₀ a : ι → β} {s : ι} {h k : β} (hk : Gains a₀ (update a s h) k) :
    k = h ∨ Gains a₀ a k := by
  obtain ⟨t, ht, hne⟩ := hk
  by_cases e : t = s
  · subst e
    rw [update_self] at ht
    exact Or.inl ht.symm
  · rw [update_of_ne e] at ht
    exact Or.inr ⟨t, ht, hne⟩

theorem Loses.of_update {a₀ a : ι → β} {s : ι} {h k : β} (hk : Loses a₀ (update a s h) k) :
    k = a₀ s ∨ Loses a₀ a k := by
  obtain ⟨t, ht, hne⟩ := hk
  by_cases e : t = s
  · subst e
    exact Or.inl ht.symm
  · rw [update_of_ne e] at hne
    exact Or.inr ⟨t, ht, hne⟩

end Update

namespace Thrifty

variable {G : Finset β} {a₀ a : ι → β} {s : ι} {h : β}

/-- **An item without a bin goes to an emptiest one**, as long as no bin has lost an item. -/
theorem place [DecidableEq ι] (ht : Thrifty G a₀ a) (hkept : ∀ g ∈ G, ¬ Loses a₀ a g)
    (hs : a s = a₀ s) (hout : a₀ s ∉ G) (hmin : ∀ k ∈ G, load a h ≤ load a k) (hh : h ∈ G) :
    Thrifty G a₀ (update a s h) ∧ ∀ g ∈ G, ¬ Loses a₀ (update a s h) g := by
  have hne : ∀ k ∈ G, k ≠ a s := fun k hk e => hout (hs ▸ e ▸ hk)
  have hmore : load (update a s h) h = load a h + 1 := load_update_target (hne h hh).symm
  have hsame : ∀ k ∈ G, k ≠ h → load (update a s h) k = load a k :=
    fun k hk e => load_update_of_ne (hne k hk) e
  have hle : ∀ k ∈ G, load a k ≤ load (update a s h) k := by
    intro k hk
    by_cases e : k = h
    · rw [e, hmore]
      exact Nat.le_succ _
    · exact (hsame k hk e).ge
  have hno : ∀ g ∈ G, ¬ Loses a₀ (update a s h) g := by
    intro g hg hl
    rcases hl.of_update with e | hl
    · exact hout (e ▸ hg)
    · exact hkept g hg hl
  refine ⟨⟨fun g hg _ => hno g hg, ?_, fun g hg hl => absurd hl (hno g hg),
    fun g _ _ k hk hl => absurd hl (hno k hk)⟩, hno⟩
  intro g hg hgain k hk
  have hk' := hle k hk
  by_cases e : g = h
  · rw [e, hmore]
    have := hmin k hk
    omega
  · rw [hsame g hg e]
    have := ht.low g hg (hgain.of_update.resolve_left e) k hk
    omega

/-- An item of a bin that has two more than another one is still where it was. -/
theorem stays (ht : Thrifty G a₀ a) (hs : a s ∈ G) (hh : h ∈ G)
    (hgap : load a h + 2 ≤ load a (a s)) : a s = a₀ s := by
  by_contra hne
  have := ht.low (a s) hs ⟨s, rfl, Ne.symm hne⟩ h hh
  omega

/-- **An item of a fullest bin goes to an emptiest one.** -/
theorem shift [DecidableEq ι] (ht : Thrifty G a₀ a) (hs : a s ∈ G)
    (hmax : ∀ k ∈ G, load a k ≤ load a (a s)) (hh : h ∈ G) (hmin : ∀ k ∈ G, load a h ≤ load a k)
    (hgap : load a h + 2 ≤ load a (a s)) :
    Thrifty G a₀ (update a s h) := by
  have hstay := ht.stays hs hh hgap
  have hne : a s ≠ h := fun e => by rw [e] at hgap; omega
  have hmore : load (update a s h) h = load a h + 1 := load_update_target hne
  have hless : load (update a s h) (a s) + 1 = load a (a s) := load_update_source hne
  have hsame : ∀ k, k ≠ a s → k ≠ h → load (update a s h) k = load a k :=
    fun k => load_update_of_ne
  -- the bin it leaves has gained nothing, the one it comes to has lost nothing
  have hsource : ¬ Gains a₀ a (a s) := by
    intro hg
    have := ht.low _ hs hg h hh
    omega
  have htarget : ¬ Loses a₀ a h := by
    intro hl
    have := ht.high h hh hl _ hs
    omega
  have hgain : ∀ k, Gains a₀ (update a s h) k → k = h ∨ k ≠ a s ∧ k ≠ h ∧ Gains a₀ a k := by
    intro k hk
    by_cases e : k = h
    · exact Or.inl e
    · have hold := hk.of_update.resolve_left e
      exact Or.inr ⟨fun e' => hsource (e' ▸ hold), e, hold⟩
  have hlose : ∀ k, Loses a₀ (update a s h) k → k = a s ∨ k ≠ a s ∧ k ≠ h ∧ Loses a₀ a k := by
    intro k hk
    by_cases e : k = a s
    · exact Or.inl e
    · have hold := hk.of_update.resolve_left (hstay ▸ e)
      exact Or.inr ⟨e, fun e' => htarget (e' ▸ hold), hold⟩
  have hlow : ∀ k ∈ G, Gains a₀ (update a s h) k → load (update a s h) k ≤ load a h + 1 := by
    intro k hk hg
    rcases hgain k hg with rfl | ⟨hks, hkh, hg⟩
    · exact hmore.le
    · rw [hsame k hks hkh]
      exact ht.low k hk hg h hh
  have hhigh : ∀ k ∈ G, Loses a₀ (update a s h) k →
      load a (a s) ≤ load (update a s h) k + 1 := by
    intro k hk hl
    rcases hlose k hl with rfl | ⟨hks, hkh, hl⟩
    · exact hless.ge
    · rw [hsame k hks hkh]
      exact ht.high k hk hl _ hs
  have hmid : ∀ k ∈ G, load a h ≤ load (update a s h) k ∧
      load (update a s h) k ≤ load a (a s) := by
    intro k hk
    by_cases hks : k = a s
    · rw [hks]
      omega
    · by_cases hkh : k = h
      · rw [hkh]
        omega
      · rw [hsame k hks hkh]
        exact ⟨hmin k hk, hmax k hk⟩
  refine ⟨?_, ?_, ?_, ?_⟩
  · intro k hk hg hl
    rcases hgain k hg with rfl | ⟨hks, _, hg⟩
    · rcases hlose k hl with e | ⟨_, hkh, _⟩
      · exact hne e.symm
      · exact hkh rfl
    · rcases hlose k hl with e | ⟨_, _, hl⟩
      · exact hks e
      · exact ht.apart k hk hg hl
  · intro k hk hg j hj
    exact (hlow k hk hg).trans (Nat.succ_le_succ (hmid j hj).1)
  · intro k hk hl j hj
    exact (hmid j hj).2.trans (hhigh k hk hl)
  · intro k hk hg j hj hl
    have h1 := hlow k hk hg
    have h2 := hhigh j hj hl
    omega

/-! ## 4. The fewest moves -/

/-- Where every bin that lost is a fullest one: what left a bin had to leave it. -/
theorem left_le_of_fullest {b : ι → β} (ht : Thrifty G a₀ a) (ha : Into G a) (hb : Into G b)
    (hlev : Level G b) (hfull : ∀ g ∈ G, Loses a₀ a g → ∀ k ∈ G, load a k ≤ load a g) (g : β) :
    left a₀ a g ≤ left a₀ b g := by
  by_cases hg : g ∈ G
  · by_cases hl : Loses a₀ a g
    · have hnone : left a a₀ g = 0 := left_eq_zero fun hgain => ht.apart g hg hgain hl
      have h1 := load_add_left a₀ a g
      have h2 := load_add_left a₀ b g
      have h3 := load_le_of_max ha hb hlev (hfull g hg hl) hg
      omega
    · rw [left_eq_zero hl]
      exact Nat.zero_le _
  · -- everything that was outside the bins in use has to move
    refine card_le_card fun t hmem => ?_
    obtain ⟨ht0, _⟩ := (mem_filter.mp hmem).2
    exact mem_filter.mpr ⟨mem_univ t, ht0, fun e => hg (e ▸ hb t)⟩

/-- Where every bin that gained is an emptiest one: what came to a bin had to come to it. -/
theorem left_le_of_emptiest {b : ι → β} (ht : Thrifty G a₀ a) (ha : Into G a) (hb : Into G b)
    (hlev : Level G b) (hempty : ∀ g ∈ G, Gains a₀ a g → ∀ k ∈ G, load a g ≤ load a k) {g : β}
    (hg : g ∈ G) : left a a₀ g ≤ left b a₀ g := by
  by_cases hgain : Gains a₀ a g
  · have hnone : left a₀ a g = 0 := left_eq_zero (ht.apart g hg hgain)
    have h1 := load_add_left a₀ a g
    have h2 := load_add_left a₀ b g
    have h3 := le_load_of_min ha hb hlev (hempty g hg hgain) hg
    omega
  · rw [left_eq_zero hgain]
    exact Nat.zero_le _

/-- **No level assignment moves fewer items.** -/
theorem moved_le {b : ι → β} (ht : Thrifty G a₀ a) (ha : Into G a) (hla : Level G a)
    (hb : Into G b) (hlb : Level G b) : moved a₀ a ≤ moved a₀ b := by
  by_cases hfull : ∀ g ∈ G, Loses a₀ a g → ∀ k ∈ G, load a k ≤ load a g
  · have hinto : Into (univ.image a₀) a₀ := fun t => mem_image_of_mem a₀ (mem_univ t)
    rw [moved_eq_sum a hinto, moved_eq_sum b hinto]
    exact sum_le_sum fun g _ => ht.left_le_of_fullest ha hb hlb hfull g
  · -- some bin that lost is not a fullest one, so it is an emptiest one, as is all that gained
    push Not at hfull
    obtain ⟨g, hg, hl, k, hk, hlt⟩ := hfull
    have hempty : ∀ h ∈ G, Gains a₀ a h → ∀ j ∈ G, load a h ≤ load a j := by
      intro h hh hgain j hj
      have h1 := ht.below h hh hgain g hg hl
      have h2 := hla k hk j hj
      omega
    rw [moved_comm a₀ a, moved_comm a₀ b, moved_eq_sum a₀ ha, moved_eq_sum a₀ hb]
    exact sum_le_sum fun h hh => ht.left_le_of_emptiest ha hb hlb hempty hh

end Thrifty

end RaftLab.Lib.Balance

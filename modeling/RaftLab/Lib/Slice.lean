/-
  File:      RaftLab/Lib/Slice.lean
  Subject:   Index and slice expressions on lists with a run-time bound check.

  `xs[i]`, `xs[lo:]`, `xs[:hi]` and `xs[lo:hi]` with signed bounds: `none` is the run-time panic.
  A slice bound past the length counts as a panic too, also where spare capacity would let it
  pass. `nilIfEmpty`: a copy that does not tell an empty slice from nil.
-/
import Mathlib.Data.List.Basic

namespace RaftLab.Lib.Slice

variable {α : Type*}

/-- `xs[i]` -/
def index (xs : List α) (i : Int) : Option α :=
  if 0 ≤ i then xs[i.toNat]? else none

/-- `xs[lo:]` -/
def from? (xs : List α) (lo : Int) : Option (List α) :=
  if 0 ≤ lo ∧ lo ≤ xs.length then some (xs.drop lo.toNat) else none

/-- `xs[:hi]` -/
def upto? (xs : List α) (hi : Int) : Option (List α) :=
  if 0 ≤ hi ∧ hi ≤ xs.length then some (xs.take hi.toNat) else none

/-- `xs[lo:hi]` -/
def between? (xs : List α) (lo hi : Int) : Option (List α) :=
  if 0 ≤ lo ∧ lo ≤ hi ∧ hi ≤ xs.length then some ((xs.take hi.toNat).drop lo.toNat) else none

theorem index_natCast (xs : List α) (i : ℕ) : index xs (i : Int) = xs[i]? := by
  simp [index]

theorem from?_natCast {xs : List α} {lo : ℕ} (h : lo ≤ xs.length) :
    from? xs (lo : Int) = some (xs.drop lo) := by
  have h' : (lo : Int) ≤ xs.length := by exact_mod_cast h
  simp [from?, h']

theorem upto?_natCast {xs : List α} {hi : ℕ} (h : hi ≤ xs.length) :
    upto? xs (hi : Int) = some (xs.take hi) := by
  have h' : (hi : Int) ≤ xs.length := by exact_mod_cast h
  simp [upto?, h']

theorem between?_natCast {xs : List α} {lo hi : ℕ} (h : lo ≤ hi) (h' : hi ≤ xs.length) :
    between? xs (lo : Int) (hi : Int) = some ((xs.take hi).drop lo) := by
  have h1 : (lo : Int) ≤ hi := by exact_mod_cast h
  have h2 : (hi : Int) ≤ xs.length := by exact_mod_cast h'
  simp [between?, h1, h2]

/-- A slice that did not panic. -/
theorem getElem?_of_between? {xs ys : List α} {lo hi : Int} (h : between? xs lo hi = some ys) :
    (ys.length : Int) = hi - lo ∧ ∀ i, i < ys.length → ys[i]? = index xs (lo + i) := by
  unfold between? at h
  split at h
  · rename_i hb
    obtain ⟨h0, h1, h2⟩ := hb
    cases h
    refine ⟨by simp only [List.length_drop, List.length_take]; omega, fun i hi => ?_⟩
    simp only [List.length_drop, List.length_take] at hi
    have e : (lo + i).toNat = lo.toNat + i := by omega
    rw [index, if_pos (by omega), e, List.getElem?_drop, List.getElem?_take, if_pos (by omega)]
  · cases h

theorem mem_of_index {xs : List α} {x : α} {i : Int} (h : index xs i = some x) : x ∈ xs := by
  unfold index at h
  split at h
  · exact List.mem_of_getElem? h
  · cases h

/-- What is behind the first element. -/
theorem from?_subset_tail {xs ys : List α} {lo : Int} (h : from? xs lo = some ys) (h1 : 1 ≤ lo) :
    ys ⊆ xs.tail := by
  unfold from? at h
  split at h
  · cases h
    rw [show lo.toNat = (lo.toNat - 1) + 1 by omega, ← List.drop_tail]
    exact List.drop_subset _ _
  · cases h

/-- A slice, nil or not, as it comes back from a copy that makes nil of an empty one. -/
def nilIfEmpty : Option (List α) → Option (List α)
  | some (x :: xs) => some (x :: xs)
  | _ => none

theorem nilIfEmpty_of_ne {xs : Option (List α)} (h : xs ≠ some []) : nilIfEmpty xs = xs := by
  match xs, h with
  | none, _ => rfl
  | some (_ :: _), _ => rfl
  | some [], h => exact absurd rfl h

theorem nilIfEmpty_some {xs : List α} (h : xs ≠ []) : nilIfEmpty (some xs) = some xs :=
  nilIfEmpty_of_ne fun e => h (Option.some.inj e)

end RaftLab.Lib.Slice

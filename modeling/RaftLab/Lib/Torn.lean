/-
  File:      RaftLab/Lib/Torn.lean
  Subject:   What a crash leaves of a sequence of operations.

  Operations run one after the other; a crash stops after some whole ones, and `cut op j` is what
  it leaves of the operation it falls into. `torn cut ops k j` is the sequence that has then taken
  effect: `k` whole operations and the cut one.

  * `torn_append_lt`, `torn_append_ge` -- a crash in a sequence of two parts falls into one of
    them; `torn_concat_last` -- into the last operation;
  * `torn_of_length_le` -- a crash after the end leaves everything;
  * `forall_torn` -- what holds of every operation and survives a cut holds of what is left.
-/
import Mathlib.Data.List.Basic

namespace RaftLab.Lib

variable {ω : Type*}

def torn (cut : ω → ℕ → List ω) (ops : List ω) (k j : ℕ) : List ω :=
  ops.take k ++
    match ops[k]? with
    | some op => cut op j
    | none => []

variable (cut : ω → ℕ → List ω) (j : ℕ)

@[simp] theorem torn_nil (k : ℕ) : torn cut [] k j = [] := by simp [torn]

@[simp] theorem torn_cons_zero (op : ω) (ops : List ω) : torn cut (op :: ops) 0 j = cut op j := by
  simp [torn]

@[simp] theorem torn_cons_succ (op : ω) (ops : List ω) (k : ℕ) :
    torn cut (op :: ops) (k + 1) j = op :: torn cut ops k j := by simp [torn]

theorem torn_of_length_le {ops : List ω} {k : ℕ} (hk : ops.length ≤ k) : torn cut ops k j = ops := by
  unfold torn
  rw [List.take_of_length_le hk, List.getElem?_eq_none hk, List.append_nil]

theorem torn_append_lt {xs : List ω} {k : ℕ} (hk : k < xs.length) (ys : List ω) :
    torn cut (xs ++ ys) k j = torn cut xs k j := by
  unfold torn
  rw [List.take_append_of_le_length (Nat.le_of_lt hk), List.getElem?_append_left hk]

theorem torn_append_ge {xs : List ω} {k : ℕ} (hk : xs.length ≤ k) (ys : List ω) :
    torn cut (xs ++ ys) k j = xs ++ torn cut ys (k - xs.length) j := by
  unfold torn
  rw [List.take_append, List.take_of_length_le hk, List.getElem?_append_right hk,
    List.append_assoc]

theorem torn_concat_last (xs : List ω) (op : ω) :
    torn cut (xs ++ [op]) xs.length j = xs ++ cut op j := by
  rw [torn_append_ge cut j (Nat.le_refl _), Nat.sub_self, torn_cons_zero]

variable {cut j}

/-- What holds of the operations, and of what a crash can leave of one, holds of all that is
    left. -/
theorem forall_torn {P : ω → Prop} {ops : List ω} (hops : ∀ op ∈ ops, P op)
    (hcut : ∀ op ∈ ops, ∀ x ∈ cut op j, P x) (k : ℕ) : ∀ x ∈ torn cut ops k j, P x := by
  intro x hx
  rcases List.mem_append.mp hx with hx | hx
  · exact hops x (List.mem_of_mem_take hx)
  · split at hx
    next op hop => exact hcut op (List.mem_of_getElem? hop) x hx
    next => exact absurd hx List.not_mem_nil

end RaftLab.Lib

/-
  File:      RaftLab/Lib/Unary.lean
  Subject:   A self-delimiting byte code for natural numbers: ones, then a zero.

  `decNat_encNat` and `decNat_encNat_end` are what a concrete encoding of records needs: a number
  is read back whatever follows it, or nothing follows it.
-/
import Mathlib.Data.List.Basic

namespace RaftLab.Lib

def encNat (n : ℕ) : List UInt8 := List.replicate n 1 ++ [0]

def decNat : List UInt8 → Option (ℕ × List UInt8)
  | [] => none
  | b :: bs => if b = 0 then some (0, bs) else (decNat bs).map fun (n, rest) => (n + 1, rest)

theorem decNat_encNat (n : ℕ) (rest : List UInt8) :
    decNat (encNat n ++ rest) = some (n, rest) := by
  induction n with
  | zero => rfl
  | succ n ih =>
      have e : encNat (n + 1) ++ rest = 1 :: (encNat n ++ rest) := by
        simp [encNat, List.replicate_succ]
      rw [e, decNat, if_neg (by decide), ih]
      rfl

theorem decNat_encNat_end (n : ℕ) : decNat (encNat n) = some (n, []) := by
  have h := decNat_encNat n []
  rwa [List.append_nil] at h

end RaftLab.Lib

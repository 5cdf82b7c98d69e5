/-
  File:      RaftLab/Lib/Quorum.lean
  Subject:   Quorum systems, and the majorities of a list of distinct members.
-/
import Mathlib.Data.Finset.Card
import Mathlib.Data.Finset.Dedup

namespace RaftLab.Lib

/-- A family of finite sets any two of which meet. -/
structure QuorumSystem (ν : Type*) where
  isQuorum : Finset ν → Prop
  meet : ∀ V W, isQuorum V → isQuorum W → ∃ n, n ∈ V ∧ n ∈ W

variable {ν : Type*} [DecidableEq ν]

/-- **The majorities of a duplicate-free list**: the sets of members with more than half of it. -/
def majority (members : List ν) (hnd : members.Nodup) : QuorumSystem ν where
  isQuorum V := V ⊆ members.toFinset ∧ members.length / 2 < V.card
  meet V W hV hW := by
    have hcard : members.toFinset.card = members.length := List.toFinset_card_of_nodup hnd
    have hlt : members.toFinset.card < V.card + W.card := by
      have h1 := hV.2
      have h2 := hW.2
      omega
    obtain ⟨n, hn⟩ := Finset.inter_nonempty_of_card_lt_card_add_card hV.1 hW.1 hlt
    exact ⟨n, (Finset.mem_inter.mp hn).1, (Finset.mem_inter.mp hn).2⟩

end RaftLab.Lib

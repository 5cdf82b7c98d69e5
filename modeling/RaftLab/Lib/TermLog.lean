/-
  File:      RaftLab/Lib/TermLog.lean
  Subject:   An abstract replicated log ordered by terms: what a cluster has durably decided,
             written with history variables and without messages, indexes or compaction.

  Each node holds a term and a log of entries, every entry stamped with the term it was made in.
  The record keeps, for ever, who voted for whom in a term and with which log (`vote`,
  `voteLog`), the log a candidate stood with (`cand`), who won a term and the log it has led with
  so far (`leader`, `elog`, `llog`), and which node has confirmed which prefix of a leader's log
  (`ack`). Seven kinds of step change it, each labelled with the node that takes it (`Step`):

  * `raise`    a node enters a later term;
  * `stand`    it stands as a candidate of its term with the log it has;
  * `grant`    it gives its vote of the term to a candidate whose log is not behind its own;
  * `elect`    a candidate with a quorum of votes becomes the leader of the term;
  * `append`   a leader adds an entry of its own term;
  * `adopt`    a node replaces its log by a prefix of the leader's that keeps what both share;
  * `confirm`  a node that holds a prefix of the leader's log says so.

  `Ext` is what no step takes back. The invariant and its consequences are in TermLogInv.lean.
-/
import RaftLab.Lib.Runs
import RaftLab.Lib.Quorum
import Mathlib.Data.List.Basic

namespace RaftLab.Lib

/-! ## 1. Terms along a log -/

section Terms

variable {ε : Type*} (tm : ε → ℕ)

/-- The term at index `i` of a log whose first entry has index 1; index 0 has term 0. -/
def termAt (l : List ε) : ℕ → ℕ
  | 0 => 0
  | i + 1 => (l[i]?.map tm).getD 0

/-- The term of the last entry, 0 for the empty log. -/
def lastTerm (l : List ε) : ℕ := termAt tm l l.length

/-- Log `l` is at least as up to date as `l'`: by last term, then by length. -/
def UpToDate (l l' : List ε) : Prop :=
  lastTerm tm l' < lastTerm tm l ∨ (lastTerm tm l = lastTerm tm l' ∧ l'.length ≤ l.length)

/-- Terms never fall along the log. -/
def Sorted (l : List ε) : Prop := l.Pairwise fun x y => tm x ≤ tm y

variable {tm}

@[simp] theorem termAt_zero (l : List ε) : termAt tm l 0 = 0 := rfl

theorem termAt_succ (l : List ε) (i : ℕ) : termAt tm l (i + 1) = (l[i]?.map tm).getD 0 := rfl

/-- An entry that ends a prefix gives the term at its index. -/
theorem termAt_of_isPrefix {p l : List ε} {e : ε} (h : p ++ [e] <+: l) :
    termAt tm l (p.length + 1) = tm e := by
  obtain ⟨r, rfl⟩ := h
  simp [termAt_succ]

/-- A bound of the terms of a log bounds the term at each index. -/
theorem termAt_le {l : List ε} {t : ℕ} (h : ∀ e ∈ l, tm e ≤ t) (i : ℕ) : termAt tm l i ≤ t := by
  cases i with
  | zero => exact Nat.zero_le t
  | succ i =>
      rw [termAt_succ]
      cases hi : l[i]? with
      | none => exact Nat.zero_le t
      | some e => exact h e (List.mem_of_getElem? hi)

/-- A prefix has the terms of the whole log. -/
theorem termAt_isPrefix {p l : List ε} (h : p <+: l) {i : ℕ} (hi : i ≤ p.length) :
    termAt tm p i = termAt tm l i := by
  obtain ⟨r, rfl⟩ := h
  cases i with
  | zero => rfl
  | succ i =>
      have hi' : i < p.length := hi
      simp [termAt_succ, List.getElem?_append_left hi']

/-- A positive index within the log ends a prefix. -/
theorem exists_prefix_at {l : List ε} {i : ℕ} (h0 : 0 < i) (hi : i ≤ l.length) :
    ∃ p e, p ++ [e] <+: l ∧ p.length + 1 = i ∧ l.take i = p ++ [e] := by
  obtain ⟨j, rfl⟩ : ∃ j, i = j + 1 := ⟨i - 1, by omega⟩
  have hj : j < l.length := hi
  have e : l.take (j + 1) = l.take j ++ [l[j]] := by simp
  refine ⟨l.take j, l[j], ?_, by simp; omega, e⟩
  rw [← e]
  exact List.take_prefix _ _

theorem Sorted.shorter {p l : List ε} (hl : Sorted tm l) (h : p <+: l) : Sorted tm p :=
  List.Pairwise.sublist h.sublist hl

/-- In a sorted log every prefix ends at or below the last term. -/
theorem Sorted.le_lastTerm {p l : List ε} {e : ε} (hl : Sorted tm l) (h : p ++ [e] <+: l) :
    tm e ≤ lastTerm tm l := by
  rcases List.eq_nil_or_concat l with rfl | ⟨q, x, rfl⟩
  · simp at h
  · have hx : lastTerm tm (q ++ [x]) = tm x := by
      simp [lastTerm, termAt_succ]
    rw [List.concat_eq_append] at h hl ⊢
    rw [hx]
    rcases List.prefix_concat_iff.mp h with he | hp
    · have := (List.append_inj' he rfl).2
      simp at this
      rw [this]
    · have hmem : e ∈ q := hp.subset (by simp)
      exact (List.pairwise_append.mp hl).2.2 e hmem x (by simp)

/-- A sorted log grows by an entry of a term no entry exceeds. -/
theorem Sorted.concat {l : List ε} {e : ε} (hl : Sorted tm l) (he : ∀ x ∈ l, tm x ≤ tm e) :
    Sorted tm (l ++ [e]) := by
  refine List.pairwise_append.mpr ⟨hl, List.pairwise_singleton _ _, fun x hx y hy => ?_⟩
  rw [List.mem_singleton.mp hy]
  exact he x hx

end Terms

/-! ## 2. The record and its steps -/

/-- The durable record of a term-ordered replicated log. -/
structure TermLog (ν ε : Type*) where
  term : ν → ℕ
  log : ν → List ε
  /-- The vote a node has cast in a term. -/
  vote : ℕ → ν → Option ν
  /-- The voter's log when it voted, kept for votes cast before the term had a leader. -/
  voteLog : ℕ → ν → Option (List ε)
  /-- The log a candidate of the term stands with. -/
  cand : ℕ → ν → Option (List ε)
  leader : ℕ → Option ν
  /-- The leader's log at its election. -/
  elog : ℕ → List ε
  /-- The leader's log as far as it has led. -/
  llog : ℕ → List ε
  /-- The node has confirmed the prefix of that length of the leader's log. -/
  ack : ℕ → ν → ℕ → Prop

namespace TermLog

variable {ν ε : Type*}

/-- Nothing has happened yet. -/
def init : TermLog ν ε where
  term _ := 0
  log _ := []
  vote _ _ := none
  voteLog _ _ := none
  cand _ _ := none
  leader _ := none
  elog _ := []
  llog _ := []
  ack _ _ _ := False

variable [DecidableEq ν]

/-- Change of a two-argument table at one place. -/
def set2 {β : Type*} (f : ℕ → ν → β) (t : ℕ) (n : ν) (v : β) : ℕ → ν → β :=
  fun t' n' => if t' = t ∧ n' = n then v else f t' n'

@[simp] theorem set2_self {β : Type*} (f : ℕ → ν → β) (t : ℕ) (n : ν) (v : β) :
    set2 f t n v t n = v := by simp [set2]

theorem set2_ne {β : Type*} (f : ℕ → ν → β) {t t' : ℕ} {n n' : ν} (v : β)
    (h : ¬ (t' = t ∧ n' = n)) : set2 f t n v t' n' = f t' n' := by simp [set2, h]

theorem set2_node {β : Type*} (f : ℕ → ν → β) {t t' : ℕ} {n n' : ν} (v : β) (h : n' ≠ n) :
    set2 f t n v t' n' = f t' n' := set2_ne f v fun e => h e.2

/-- An entry that was there when another one was written. -/
theorem set2_of_some {β : Type*} {f : ℕ → ν → Option β} {t t' : ℕ} {n n' : ν} {v : Option β}
    {x : β} (hnone : f t n = none) (hx : f t' n' = some x) : set2 f t n v t' n' = some x := by
  refine (set2_ne _ _ ?_).trans hx
  intro ⟨e1, e2⟩
  subst e1 e2
  rw [hnone] at hx
  cases hx

/-- An entry of afterwards is the one that was written, or was there before. -/
theorem set2_eq_some {β : Type*} {f : ℕ → ν → Option β} {t t' : ℕ} {n n' : ν} {v : Option β}
    {x : β} (hx : set2 f t n v t' n' = some x) :
    (t' = t ∧ n' = n ∧ v = some x) ∨ (¬ (t' = t ∧ n' = n) ∧ f t' n' = some x) := by
  by_cases he : t' = t ∧ n' = n
  · obtain ⟨rfl, rfl⟩ := he
    rw [set2_self] at hx
    exact Or.inl ⟨rfl, rfl, hx⟩
  · exact Or.inr ⟨he, (set2_ne _ _ he).symm.trans hx⟩

def raise (a : TermLog ν ε) (n : ν) (t : ℕ) : TermLog ν ε :=
  { a with term := Function.update a.term n t }

def stand (a : TermLog ν ε) (n : ν) : TermLog ν ε :=
  { a with cand := set2 a.cand (a.term n) n (some (a.log n)) }

def grant (a : TermLog ν ε) (n c : ν) (t : ℕ) : TermLog ν ε :=
  { a with
    vote := set2 a.vote t n (some c)
    voteLog := set2 a.voteLog t n (if a.leader t = none then some (a.log n) else none) }

def elect (a : TermLog ν ε) (c : ν) (t : ℕ) : TermLog ν ε :=
  { a with
    leader := Function.update a.leader t (some c)
    elog := Function.update a.elog t (a.log c)
    llog := Function.update a.llog t (a.log c) }

def append (a : TermLog ν ε) (c : ν) (t : ℕ) (e : ε) : TermLog ν ε :=
  { a with
    log := Function.update a.log c (a.log c ++ [e])
    llog := Function.update a.llog t (a.llog t ++ [e]) }

def adopt (a : TermLog ν ε) (n : ν) (l : List ε) : TermLog ν ε :=
  { a with log := Function.update a.log n l }

def confirm (a : TermLog ν ε) (n : ν) (t k : ℕ) : TermLog ν ε :=
  { a with ack := fun t' n' k' => (t' = t ∧ n' = n ∧ k' ≤ k) ∨ a.ack t' n' k' }

/-- One step, taken by the node that labels it. -/
inductive Step (Q : QuorumSystem ν) (tm : ε → ℕ) : ν → TermLog ν ε → TermLog ν ε → Prop where
  | raise {a : TermLog ν ε} {n : ν} (t : ℕ) (ht : a.term n < t) : Step Q tm n a (a.raise n t)
  | stand {a : TermLog ν ε} {n : ν} (hc : a.cand (a.term n) n = none)
      (hlt : ∀ e ∈ a.log n, tm e < a.term n) : Step Q tm n a (a.stand n)
  | grant {a : TermLog ν ε} {n : ν} (c : ν) (l : List ε) (hv : a.vote (a.term n) n = none)
      (hc : a.cand (a.term n) c = some l) (hup : UpToDate tm l (a.log n)) :
      Step Q tm n a (a.grant n c (a.term n))
  | elect {a : TermLog ν ε} {c : ν} (V : Finset ν) (hl : a.leader (a.term c) = none)
      (hc : a.cand (a.term c) c = some (a.log c)) (hV : Q.isQuorum V)
      (hvote : ∀ n ∈ V, a.vote (a.term c) n = some c) : Step Q tm c a (a.elect c (a.term c))
  | append {a : TermLog ν ε} {c : ν} (e : ε) (hl : a.leader (a.term c) = some c)
      (he : tm e = a.term c) : Step Q tm c a (a.append c (a.term c) e)
  | adopt {a : TermLog ν ε} {n : ν} (l : List ε) (hl : a.leader (a.term n) ≠ none)
      (hpre : l <+: a.llog (a.term n))
      (hkeep : ∀ p, p <+: a.log n → p <+: a.llog (a.term n) → p <+: l) :
      Step Q tm n a (a.adopt n l)
  | confirm {a : TermLog ν ε} {n : ν} (k : ℕ) (hl : a.leader (a.term n) ≠ none)
      (hk : k ≤ (a.llog (a.term n)).length) (hpre : (a.llog (a.term n)).take k <+: a.log n) :
      Step Q tm n a (a.confirm n (a.term n) k)

end TermLog

end RaftLab.Lib

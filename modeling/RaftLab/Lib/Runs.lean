/-
  File:      RaftLab/Lib/Runs.lean
  Subject:   Runs of a transition system: the invariant rule and the forward-simulation rule.

  A run is `Relation.ReflTransGen` of a step relation. Both rules are stated over arbitrary
  state types:

  * `run_inv` -- what every step preserves, every run preserves;
  * `run_sim` -- a relation every step carries to some abstract run is carried by every run;
  * `run_each` -- what can be done for one item after another can be done for all of them.

  Where steps carry labels a run is a `Trace`, with the labels in order; `Trace.sim` is the
  simulation rule that keeps them. Where steps are computed from actions, `play` follows a list of
  actions, and what it reaches is reached by a run. `Justified` says of a history that each event is
  warranted by those before it.
-/
import Mathlib.Logic.Relation
import Mathlib.Data.List.Induction

namespace RaftLab.Lib

open Relation

section Rules

variable {σ : Type*} {r : σ → σ → Prop}

/-- **The invariant rule.** -/
theorem run_inv {I : σ → Prop} (hs : ∀ s s', r s s' → I s → I s') {s s' : σ}
    (h : ReflTransGen r s s') (h0 : I s) : I s' := by
  induction h with
  | refl => exact h0
  | tail _ hstep ih => exact hs _ _ hstep ih

/-- **The rule for one thing after the other**: `I l` says that the items of `l` are left to do. -/
theorem run_each {ι : Type*} {I : List ι → σ → Prop}
    (hs : ∀ i l s, I (i :: l) s → ∃ s', ReflTransGen r s s' ∧ I l s') (l : List ι) {s : σ}
    (h0 : I l s) : ∃ s', ReflTransGen r s s' ∧ I [] s' := by
  induction l generalizing s with
  | nil => exact ⟨s, .refl, h0⟩
  | cons i l ih =>
      obtain ⟨s1, hrun, h1⟩ := hs i l s h0
      obtain ⟨s', hrun', h'⟩ := ih h1
      exact ⟨s', hrun.trans hrun', h'⟩

variable {τ : Type*} {q : τ → τ → Prop}

/-- **The forward-simulation rule**: the abstract run is chosen step by step. -/
theorem run_sim {R : σ → τ → Prop}
    (hs : ∀ s s' a, r s s' → R s a → ∃ a', ReflTransGen q a a' ∧ R s' a') {s s' : σ} {a : τ}
    (h : ReflTransGen r s s') (h0 : R s a) : ∃ a', ReflTransGen q a a' ∧ R s' a' := by
  induction h with
  | refl => exact ⟨a, .refl, h0⟩
  | tail _ hstep ih =>
      obtain ⟨a₁, hrun, hR⟩ := ih
      obtain ⟨a₂, hrun', hR'⟩ := hs _ _ _ hstep hR
      exact ⟨a₂, hrun.trans hrun', hR'⟩

end Rules

section Traces

variable {σ τ ε : Type*}

/-- A run with its labels. -/
inductive Trace (r : σ → ε → σ → Prop) : σ → List ε → σ → Prop where
  | nil {s : σ} : Trace r s [] s
  | snoc {s t u : σ} {es : List ε} {e : ε} (h : Trace r s es t) (hs : r t e u) :
      Trace r s (es ++ [e]) u

variable {r : σ → ε → σ → Prop} {q : τ → ε → τ → Prop}

/-- **Simulation step by step**, label by label. -/
theorem Trace.sim {R : σ → τ → Prop}
    (hs : ∀ s s' e a, r s e s' → R s a → ∃ a', q a e a' ∧ R s' a') {s s' : σ} {es : List ε} {a : τ}
    (h : Trace r s es s') (h0 : R s a) : ∃ a', Trace q a es a' ∧ R s' a' := by
  induction h with
  | nil => exact ⟨a, .nil, h0⟩
  | snoc _ hstep ih =>
      obtain ⟨a₁, hrun, hR⟩ := ih
      obtain ⟨a₂, hstep', hR'⟩ := hs _ _ _ _ hstep hR
      exact ⟨a₂, hrun.snoc hstep', hR'⟩

end Traces

section Schedules

variable {σ α : Type*} {next : σ → α → Option σ}

/-- The state after the actions of a list, if all of them can be taken. -/
def play (next : σ → α → Option σ) (s : σ) (acts : List α) : Option σ := acts.foldlM next s

theorem play_run {acts : List α} {s s' : σ} (h : play next s acts = some s') :
    ReflTransGen (fun s s' => ∃ act, next s act = some s') s s' := by
  induction acts generalizing s with
  | nil =>
      cases h
      exact .refl
  | cons act acts ih =>
      obtain ⟨s1, h1, h2⟩ := Option.bind_eq_some_iff.mp h
      exact .head ⟨act, h1⟩ (ih h2)

variable {cond : σ → α → Prop} [∀ s act, Decidable (cond s act)]

/-- Only the actions that meet a condition are taken. -/
def guarded (cond : σ → α → Prop) [∀ s act, Decidable (cond s act)] (next : σ → α → Option σ)
    (s : σ) (act : α) : Option σ := if cond s act then next s act else none

theorem guarded_eq_some {s s' : σ} {act : α} :
    guarded cond next s act = some s' ↔ cond s act ∧ next s act = some s' := by
  simp [guarded]

theorem play_guarded_run {acts : List α} {s s' : σ}
    (h : play (guarded cond next) s acts = some s') :
    ReflTransGen (fun s s' => ∃ act, cond s act ∧ next s act = some s') s s' := by
  refine (play_run h).lift id ?_
  intro s s' hs
  obtain ⟨act, hact⟩ := hs
  exact ⟨act, guarded_eq_some.mp hact⟩

end Schedules

section Histories

variable {ε : Type*} {P : List ε → ε → Prop}

/-- Every event of a history is in order after the events before it. -/
def Justified (P : List ε → ε → Prop) (hist : List ε) : Prop :=
  ∀ pre e post, hist = pre ++ e :: post → P pre e

theorem Justified.nil : Justified P [] := fun _ _ _ h => by simp at h

theorem Justified.concat {hist : List ε} {e : ε} (h : Justified P hist) (he : P hist e) :
    Justified P (hist ++ [e]) := by
  intro pre x post heq
  rcases List.eq_nil_or_concat post with rfl | ⟨q, y, rfl⟩
  · obtain ⟨rfl, hx⟩ := List.append_inj' heq rfl
    cases hx
    exact he
  · rw [List.concat_eq_append, ← List.cons_append, ← List.append_assoc] at heq
    exact h _ _ _ (List.append_inj' heq rfl).1

theorem Justified.of_concat {hist : List ε} {e : ε} (h : Justified P (hist ++ [e])) :
    Justified P hist ∧ P hist e :=
  ⟨fun pre x post heq => h pre x (post ++ [e]) (by rw [heq]; simp), h hist e [] rfl⟩

theorem Justified.imp {Q : List ε → ε → Prop} {hist : List ε} (h : Justified P hist)
    (hpq : ∀ pre e, P pre e → Q pre e) : Justified Q hist :=
  fun pre e post heq => hpq pre e (h pre e post heq)

/-- What warrants an event warrants its image in a view of the history. -/
theorem Justified.filterMap {δ : Type*} {Q : List δ → δ → Prop} {f : ε → Option δ}
    (hf : ∀ pre e e', Justified P pre → P pre e → f e = some e' → Q (pre.filterMap f) e')
    {hist : List ε}
    (h : Justified P hist) : Justified Q (hist.filterMap f) := by
  induction hist using List.reverseRecOn with
  | nil => exact .nil
  | append_singleton l e ih =>
      obtain ⟨hl, he⟩ := h.of_concat
      rw [List.filterMap_append]
      cases hfe : f e with
      | none => simpa [hfe] using ih hl
      | some e' => simpa [hfe] using (ih hl).concat (hf l e e' hl he hfe)

/-- A part of the history is justified by what stands in the whole one. -/
theorem Justified.filter {Q : List ε → ε → Prop} {p : ε → Bool} {hist : List ε}
    (h : Justified P hist)
    (hf : ∀ pre e post, hist = pre ++ e :: post → p e = true → P pre e → Q (pre.filter p) e) :
    Justified Q (hist.filter p) := by
  intro pre' e post' heq
  obtain ⟨l1, l2, rfl, rfl, h2⟩ := List.filter_eq_append_iff.mp heq
  obtain ⟨m1, m2, rfl, hm1, he, _⟩ := List.filter_eq_cons_iff.mp h2
  have hsplit : l1 ++ (m1 ++ e :: m2) = (l1 ++ m1) ++ e :: m2 := (List.append_assoc _ _ _).symm
  have hpre : (l1 ++ m1).filter p = l1.filter p := by
    rw [List.filter_append, List.filter_eq_nil_iff.mpr hm1, List.append_nil]
  rw [← hpre]
  exact hf _ _ _ hsplit he (h _ _ _ hsplit)

theorem Justified.of_append {pre post : List ε} (h : Justified P (pre ++ post)) : Justified P pre :=
  fun p e q heq => h p e (q ++ post) (by rw [heq]; simp)

/-- An event of the history, and what warrants it. -/
theorem Justified.of_mem {hist : List ε} {e : ε} (h : Justified P hist) (he : e ∈ hist) :
    ∃ pre post, hist = pre ++ e :: post ∧ P pre e := by
  obtain ⟨pre, post, heq⟩ := List.append_of_mem he
  exact ⟨pre, post, heq, h pre e post heq⟩

/-- Two events neither of which can come after the other are one. -/
theorem Justified.eq_of_mem {hist : List ε} {a b : ε} (h : Justified P hist) (ha : a ∈ hist)
    (hb : b ∈ hist) (hab : ∀ pre, P pre b → a ∉ pre) (hba : ∀ pre, P pre a → b ∉ pre) : a = b := by
  obtain ⟨p, q, e, hp⟩ := h.of_mem ha
  rw [e] at hb
  rcases List.mem_append.mp hb with hbp | hbq
  · exact absurd hbp (hba p hp)
  · rcases List.mem_cons.mp hbq with hbe | hbq
    · exact hbe.symm
    · obtain ⟨q1, q2, e2⟩ := List.append_of_mem hbq
      have hpb : P (p ++ a :: q1) b := h _ b q2 (by rw [e, e2]; simp)
      exact absurd (by simp) (hab _ hpb)

end Histories

end RaftLab.Lib

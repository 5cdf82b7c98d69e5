/-
  File:      RaftLab/Lib/Substitution.lean
  Subject:   An implementation that puts its calls in order as it runs can be taken for an atomic
             object, by whatever uses it.

  An implementation (`Impl`) takes calls, works on them step by step and answers them. It is
  `Linearized` if its states go with a sequence of calls that only grows, at its end, and has every
  answered call with its answer. An order that is only found afterwards would not do: what uses the
  object may depend on an answer while other calls are still open.

  An `Env` is anything that uses objects: it sends operations, it gets answers, and it has steps of
  its own. `Composed` runs it with implementations. `Atomic` runs it with objects that execute a call
  in one step, once, at any time after it was sent, or never.

  **`composed_refines`**: every run of `Composed` is one of `Atomic` in which the environment goes
  through the same states.
-/
import RaftLab.Lib.Linearizable
import Mathlib.Logic.Function.Basic

namespace RaftLab.Lib

open Relation

/-! ## 1. Implementations -/

/-- Calls are numbered in the order in which they come. -/
structure Impl (S ι ο : Type*) where
  init : S
  calls : S → List ι
  Answered : S → ℕ → ο → Prop
  Call : S → ι → S → Prop
  Step : S → S → Prop

/-- `T s lin`: in state `s` the calls `lin` have taken effect, in this order. -/
structure Linearized {S σ ι ο : Type*} (m : Machine σ ι ο) (imp : Impl S ι ο) (allowed : ι → Prop)
    (T : S → List (ℕ × ι) → Prop) : Prop where
  init : T imp.init [] ∧ imp.calls imp.init = []
  call : ∀ s s' lin op, T s lin → allowed op → imp.Call s op s' →
    T s' lin ∧ imp.calls s' = imp.calls s ++ [op]
  step : ∀ s s' lin, T s lin → imp.Step s s' →
    (∃ l, T s' (lin ++ l)) ∧ imp.calls s' = imp.calls s
  once : ∀ s lin, T s lin → (lin.map Prod.fst).Nodup
  called : ∀ s lin, T s lin → ∀ x ∈ lin, (imp.calls s)[x.1]? = some x.2
  answered : ∀ s lin, T s lin → ∀ c res, imp.Answered s c res →
    ∃ (k : ℕ) (op : ι), lin[k]? = some (c, op) ∧ m.resultAt (lin.map Prod.snd) k = some res

/-! ## 2. What uses them -/

/-- A step of an environment: its own, a call of object `g`, or the answer to a call. -/
inductive Label (G ι ο : Type*) where
  | tau
  | send (g : G) (c : ℕ) (op : ι)
  | recv (g : G) (c : ℕ) (res : ο)

structure Env (E G ι ο : Type*) where
  init : E
  Next : E → Label G ι ο → E → Prop

section Systems

variable {E G S σ ι ο : Type*} [DecidableEq G] (env : Env E G ι ο)

/-- The environment with implementations. -/
inductive Composed.Step (imp : G → Impl S ι ο) : E × (G → S) → E × (G → S) → Prop where
  | tau {e e' s} (he : env.Next e .tau e') : Step imp (e, s) (e', s)
  | send {e e' s s'} (g op) (hs : (imp g).Call (s g) op s')
      (he : env.Next e (.send g ((imp g).calls (s g)).length op) e') :
      Step imp (e, s) (e', Function.update s g s')
  | step {e s s'} (g) (hs : (imp g).Step (s g) s') : Step imp (e, s) (e, Function.update s g s')
  | recv {e e' s} (g c res) (hs : (imp g).Answered (s g) c res)
      (he : env.Next e (.recv g c res) e') : Step imp (e, s) (e', s)

def Composed.Reachable (imp : G → Impl S ι ο) (x : E × (G → S)) : Prop :=
  ReflTransGen (Composed.Step env imp) (env.init, fun g => (imp g).init) x

/-- The environment, the calls of the objects, and those that have been executed. -/
structure Atomic (E G ι : Type*) where
  env : E
  calls : G → List ι
  log : G → List (ℕ × ι)

namespace Atomic

variable (m : G → Machine σ ι ο)

def init : Atomic E G ι := ⟨env.init, fun _ => [], fun _ => []⟩

inductive Step : Atomic E G ι → Atomic E G ι → Prop where
  | tau {a e'} (he : env.Next a.env .tau e') : Step a { a with env := e' }
  | send {a e'} (g op) (he : env.Next a.env (.send g (a.calls g).length op) e') :
      Step a { a with env := e', calls := Function.update a.calls g (a.calls g ++ [op]) }
  | exec {a} (g c op) (hc : (a.calls g)[c]? = some op) (hnew : c ∉ (a.log g).map Prod.fst) :
      Step a { a with log := Function.update a.log g (a.log g ++ [(c, op)]) }
  | recv {a e'} (g c op res) (k : ℕ) (hk : (a.log g)[k]? = some (c, op))
      (hres : (m g).resultAt ((a.log g).map Prod.snd) k = some res)
      (he : env.Next a.env (.recv g c res) e') : Step a { a with env := e' }

def Reachable (a : Atomic E G ι) : Prop := ReflTransGen (Step env m) (.init env) a

/-- The state of an object. -/
def obj (a : Atomic E G ι) (g : G) : σ := (m g).after ((a.log g).map Prod.snd) (a.log g).length

variable {env m}

/-- An execution is one more step of the object. -/
theorem obj_exec (a : Atomic E G ι) (g : G) (c : ℕ) (op : ι) :
    obj m { a with log := Function.update a.log g (a.log g ++ [(c, op)]) } = Function.update
      (a.obj m) g (((m g).step ((a.log g).length + 1) (a.obj m g) op).1) := by
  funext g'
  by_cases e : g' = g
  · subst e
    simp only [obj, Function.update_self, List.map_append, List.length_append, List.map_cons,
      List.map_nil, List.length_singleton]
    have := Machine.after_concat (m := m g') ((a.log g').map Prod.snd) op
    rw [List.length_map] at this
    exact this
  · simp only [obj, Function.update_of_ne e]

omit [DecidableEq G] in
/-- The answer of an execution. -/
theorem resultAt_exec (a : Atomic E G ι) (g : G) (op : ι) :
    (m g).resultAt ((a.log g).map Prod.snd ++ [op]) (a.log g).length =
      some ((m g).step ((a.log g).length + 1) (a.obj m g) op).2 := by
  have := Machine.resultAt_concat (m := m g) ((a.log g).map Prod.snd) op
  rw [List.length_map] at this
  exact this

/-- Calls that have not been executed are executed, one after the other. -/
theorem Reachable.execAll {a : Atomic E G ι} (h : a.Reachable env m) {g : G} {l : List (ℕ × ι)}
    (honce : ((a.log g ++ l).map Prod.fst).Nodup)
    (hcalled : ∀ x ∈ l, (a.calls g)[x.1]? = some x.2) :
    Reachable env m { a with log := Function.update a.log g (a.log g ++ l) } := by
  induction l using List.reverseRecOn with
  | nil =>
      rw [List.append_nil, Function.update_eq_self]
      exact h
  | append_singleton l x ih =>
      rw [← List.append_assoc, List.map_append] at honce
      obtain ⟨hl, _, hx⟩ := List.nodup_append.mp honce
      have hprev := ih hl fun y hy => hcalled y (List.mem_append_left _ hy)
      have hlog : (Function.update a.log g (a.log g ++ l)) g = a.log g ++ l :=
        Function.update_self _ _ _
      have hstep := hprev.tail (.exec g x.1 x.2
        (hcalled x (List.mem_append_right _ (List.mem_singleton_self x))) fun hmem => by
          dsimp only at hmem
          rw [hlog] at hmem
          exact hx x.1 hmem x.1 (List.mem_singleton_self _) rfl)
      dsimp only at hstep
      rw [hlog, Function.update_idem, List.append_assoc] at hstep
      exact hstep

end Atomic

/-! ## 3. The refinement -/

variable {env} {m : G → Machine σ ι ο} {imp : G → Impl S ι ο} {allowed : G → ι → Prop}
  {T : G → S → List (ℕ × ι) → Prop}

/-- The same environment, and the executed calls are those that have taken effect. -/
structure Refines (T : G → S → List (ℕ × ι) → Prop) (imp : G → Impl S ι ο) (x : E × (G → S))
    (a : Atomic E G ι) : Prop where
  env : a.env = x.1
  calls : ∀ g, a.calls g = (imp g).calls (x.2 g)
  log : ∀ g, T g (x.2 g) (a.log g)

/-- **What uses implementations that are linearized as they run uses atomic objects.** The
    environment has to send what the implementations allow. -/
theorem composed_refines (hlin : ∀ g, Linearized (m g) (imp g) (allowed g) (T g))
    (hsend : ∀ a : Atomic E G ι, a.Reachable env m → ∀ g c op e',
      env.Next a.env (.send g c op) e' → allowed g op)
    {x : E × (G → S)} (h : Composed.Reachable env imp x) :
    ∃ a : Atomic E G ι, a.Reachable env m ∧ Refines T imp x a := by
  induction h with
  | refl =>
      exact ⟨.init env, .refl, rfl, fun g => ((hlin g).init.2).symm, fun g => (hlin g).init.1⟩
  | tail _ hstep ih =>
      obtain ⟨a, ha, henv, hcalls, hlog⟩ := ih
      cases hstep with
      | tau he =>
          dsimp only at henv
          rw [← henv] at he
          exact ⟨_, ha.tail (.tau he), rfl, hcalls, hlog⟩
      | @send e e' s s' g op hs he =>
          dsimp only at henv hcalls hlog
          rw [← henv, ← hcalls g] at he
          obtain ⟨hT, hc⟩ := (hlin g).call _ _ _ op (hlog g) (hsend a ha _ _ _ _ he) hs
          refine ⟨_, ha.tail (.send g op he), rfl, fun g' => ?_, ?_⟩
          · dsimp only
            by_cases e : g' = g
            · subst e
              rw [Function.update_self, Function.update_self, hc, hcalls]
            · rw [Function.update_of_ne e, Function.update_of_ne e, hcalls]
          · exact (Function.forall_update_iff s fun g' t => T g' t (a.log g')).mpr
              ⟨hT, fun g' _ => hlog g'⟩
      | @step e s s' g hs =>
          dsimp only at henv hcalls hlog
          obtain ⟨⟨l, hT⟩, hc⟩ := (hlin g).step _ _ _ (hlog g) hs
          have hcalled : ∀ y ∈ l, (a.calls g)[y.1]? = some y.2 := by
            intro y hy
            rw [hcalls, ← hc]
            exact (hlin g).called _ _ hT y (List.mem_append_right _ hy)
          refine ⟨_, ha.execAll ((hlin g).once _ _ hT) hcalled, henv, ?_, fun g' => ?_⟩
          · exact (Function.forall_update_iff s fun g' t => a.calls g' = (imp g').calls t).mpr
              ⟨(hcalls g).trans hc.symm, fun g' _ => hcalls g'⟩
          · dsimp only
            by_cases e : g' = g
            · subst e
              rw [Function.update_self, Function.update_self]
              exact hT
            · rw [Function.update_of_ne e, Function.update_of_ne e]
              exact hlog g'
      | recv g c res hs he =>
          dsimp only at henv hlog
          rw [← henv] at he
          obtain ⟨k, op, hk, hres⟩ := (hlin g).answered _ _ (hlog g) c res hs
          exact ⟨_, ha.tail (.recv g c op res k hk hres he), rfl, hcalls, hlog⟩

end Systems

end RaftLab.Lib

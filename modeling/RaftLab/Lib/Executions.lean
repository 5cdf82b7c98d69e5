/-
  File:      RaftLab/Lib/Executions.lean
  Subject:   Linearizable histories of calls whose operation may be executed more than once.

  A caller that gets no answer sends its operation again, so the object may execute the operation of
  one call several times. A history has the calls, the executions (`exec c i` is execution `i` of
  call `c`) and the returns; clients see the calls and the returns (`visible`).

  **`linearizesBy_picked`**: if at most one execution of each call is picked, the others leave the
  object as it was, and what a call returns is allowed for its picked execution, then the picked
  executions linearize what the clients see. Which execution is picked may depend on the whole
  history: an execution without effect counts only if the call returns its answer. `Loose` is what a
  history has when executions may come in any order, also after their call has returned.
-/
import RaftLab.Lib.Linearizable

namespace RaftLab.Lib

/-! ## 1. Objects and executions -/

structure Object (σ ι ο : Type*) where
  init : σ
  step : σ → ι → σ × ο

/-- Calls are numbered. A return names the execution whose answer the caller has got. -/
inductive Ev (ι ο ρ : Type*) where
  | call (c : ℕ) (op : ι)
  | exec (c i : ℕ) (op : ι) (res : ο)
  | ret (c i : ℕ) (out : ρ)
  deriving DecidableEq

variable {σ ι ο ρ : Type*}

namespace Object

variable (o : Object σ ι ο)

def machine : Machine σ ι ο := ⟨o.init, fun _ => o.step⟩

/-- The state after the executions of a history. -/
def after (hist : List (Ev ι ο ρ)) : σ :=
  hist.foldl (fun s e =>
    match e with
    | .exec _ _ op _ => (o.step s op).1
    | _ => s) o.init

theorem after_exec (hist : List (Ev ι ο ρ)) (c i : ℕ) (op : ι) (res : ο) :
    o.after (hist ++ [.exec c i op res]) = (o.step (o.after hist) op).1 := by
  simp only [after, List.foldl_append, List.foldl_cons, List.foldl_nil]

theorem after_call (hist : List (Ev ι ο ρ)) (c : ℕ) (op : ι) :
    o.after (hist ++ [.call c op]) = o.after hist := by
  simp only [after, List.foldl_append, List.foldl_cons, List.foldl_nil]

theorem after_ret (hist : List (Ev ι ο ρ)) (c i : ℕ) (out : ρ) :
    o.after (hist ++ [.ret c i out]) = o.after hist := by
  simp only [after, List.foldl_append, List.foldl_cons, List.foldl_nil]

/-- Only the executions count. -/
theorem after_filter {p : Ev ι ο ρ → Bool} (hp : ∀ c i op res, p (.exec c i op res) = true)
    (hist : List (Ev ι ο ρ)) : o.after (hist.filter p) = o.after hist := by
  induction hist using List.reverseRecOn with
  | nil => rfl
  | append_singleton l e ih =>
      rw [List.filter_append, List.filter_singleton]
      cases e with
      | exec c i op res =>
          rw [hp, after_exec]
          show o.after (l.filter p ++ [.exec c i op res]) = _
          rw [after_exec, ih]
      | call c op =>
          rw [after_call, ← ih]
          cases p (.call c op) with
          | true => exact o.after_call _ _ _
          | false => exact congrArg o.after (List.append_nil _)
      | ret c i out =>
          rw [after_ret, ← ih]
          cases p (.ret c i out) with
          | true => exact o.after_ret _ _ _ _
          | false => exact congrArg o.after (List.append_nil _)

/-- **What every step of the object keeps, every later part of the history keeps.** -/
theorem after_inv {P : σ → Prop} (hP : ∀ s op, P s → P (o.step s op).1) {pre : List (Ev ι ο ρ)}
    (h : P (o.after pre)) (post : List (Ev ι ο ρ)) : P (o.after (pre ++ post)) := by
  induction post using List.reverseRecOn with
  | nil =>
      rw [List.append_nil]
      exact h
  | append_singleton l e ih =>
      rw [← List.append_assoc]
      cases e with
      | call c op =>
          rw [after_call]
          exact ih
      | exec c i op res =>
          rw [after_exec]
          exact hP _ _ ih
      | ret c i out =>
          rw [after_ret]
          exact ih

end Object

/-! ## 2. What the clients see -/

def visible (hist : List (Ev ι ο ρ)) : List (Mark ℕ ι ρ) :=
  hist.filterMap fun e =>
    match e with
    | .call c op => some (.call c op)
    | .exec _ _ _ _ => none
    | .ret c _ out => some (.ret c out)

section Picked

variable (o : Object σ ι ο) (spec : σ → ι → ρ → σ → Prop) (pick : ℕ → ℕ → Prop)

/-- A call is new; at most one of its executions is picked, the others do nothing; it returns what
    the specification allows for the picked one. -/
def Picked (pre : List (Ev ι ο ρ)) : Ev ι ο ρ → Prop
  | .call c _ => ∀ op, .call c op ∉ pre
  | .exec c i op _ => .call c op ∈ pre ∧
      (pick c i → ∀ j op' res', pick c j → .exec c j op' res' ∉ pre) ∧
      (¬ pick c i → (o.step (o.after pre) op).1 = o.after pre)
  | .ret c _ out => ∃ p q i op res, pre = p ++ .exec c i op res :: q ∧ pick c i ∧
      spec (o.after p) op out (o.step (o.after p) op).1

open Classical in
/-- The picked executions as commits. -/
noncomputable def pickedMark : Ev ι ο ρ → Option (Mark ℕ ι ρ)
  | .call c op => some (.call c op)
  | .exec c i op _ => if pick c i then some (.commit c op) else none
  | .ret c _ out => some (.ret c out)

variable {o spec pick} {hist : List (Ev ι ο ρ)}

theorem pickedMark_pos {c i : ℕ} (h : pick c i) (op : ι) (res : ο) :
    pickedMark pick (.exec c i op res : Ev ι ο ρ) = some (.commit c op) := if_pos h

theorem pickedMark_neg {c i : ℕ} (h : ¬ pick c i) (op : ι) (res : ο) :
    pickedMark pick (.exec c i op res : Ev ι ο ρ) = none := if_neg h

theorem mem_pickedMark_call {c : ℕ} {op : ι} :
    .call c op ∈ hist.filterMap (pickedMark pick) ↔ .call c op ∈ hist := by
  rw [List.mem_filterMap]
  refine ⟨fun h => ?_, fun h => ⟨_, h, rfl⟩⟩
  obtain ⟨e, he, hx⟩ := h
  cases e with
  | call =>
      cases hx
      exact he
  | exec c' i op' res =>
      by_cases hp : pick c' i
      · rw [pickedMark_pos hp] at hx
        cases hx
      · rw [pickedMark_neg hp] at hx
        cases hx
  | ret => cases hx

theorem of_mem_pickedMark_commit {c : ℕ} {op : ι}
    (h : .commit c op ∈ hist.filterMap (pickedMark pick)) :
    ∃ i res, pick c i ∧ .exec c i op res ∈ hist := by
  obtain ⟨e, he, hx⟩ := List.mem_filterMap.mp h
  cases e with
  | call | ret => cases hx
  | exec c' i op' res =>
      by_cases hp : pick c' i
      · rw [pickedMark_pos hp] at hx
        cases hx
        exact ⟨i, res, hp, he⟩
      · rw [pickedMark_neg hp] at hx
        cases hx

/-- The clients see the marks without the commits. -/
theorem visible_eq_filter :
    visible hist = (hist.filterMap (pickedMark pick)).filter (!·.isCommit) := by
  induction hist with
  | nil => rfl
  | cons e l ih =>
      cases e with
      | call | ret => simpa [visible, pickedMark, Mark.isCommit] using ih
      | exec c i op res =>
          by_cases hp : pick c i
          · simpa [visible, pickedMark, hp, Mark.isCommit] using ih
          · simpa [visible, pickedMark, hp] using ih

/-- The operations of the picked executions. -/
noncomputable def pickedOps (pick : ℕ → ℕ → Prop) (hist : List (Ev ι ο ρ)) : List ι :=
  (commits (hist.filterMap (pickedMark pick))).map Prod.snd

theorem pickedOps_pos {c i : ℕ} (h : pick c i) (hist : List (Ev ι ο ρ)) (op : ι) (res : ο) :
    pickedOps pick (hist ++ [.exec c i op res]) = pickedOps pick hist ++ [op] := by
  rw [pickedOps, List.filterMap_append, commits_append, List.map_append]
  simp [pickedOps, commits, pickedMark_pos h]

theorem pickedOps_neg {c i : ℕ} (h : ¬ pick c i) (hist : List (Ev ι ο ρ)) (op : ι) (res : ο) :
    pickedOps pick (hist ++ [.exec c i op res]) = pickedOps pick hist := by
  rw [pickedOps, List.filterMap_append, commits_append, List.map_append]
  simp [pickedOps, commits, pickedMark_neg h]

/-- **The executions that are not picked can be left out.** -/
theorem after_pickedOps (h : Justified (Picked o spec pick) hist) :
    o.machine.after (pickedOps pick hist) (pickedOps pick hist).length = o.after hist := by
  induction hist using List.reverseRecOn with
  | nil => rfl
  | append_singleton l e ih =>
      obtain ⟨hl, he⟩ := h.of_concat
      have hl := ih hl
      cases e with
      | call c op =>
          rw [o.after_call, ← hl]
          simp [pickedOps, commits, pickedMark]
      | ret c i out =>
          rw [o.after_ret, ← hl]
          simp [pickedOps, commits, pickedMark]
      | exec c i op res =>
          rw [o.after_exec]
          by_cases hp : pick c i
          · rw [pickedOps_pos hp, List.length_append, List.length_singleton,
              Machine.after_succ List.getElem?_concat_length, Machine.after_append _ _ (Nat.le_refl _),
              hl]
            rfl
          · rw [pickedOps_neg hp, he.2.2 hp]
            exact hl

/-- **The rule of picked executions.** -/
theorem linearizesBy_picked (hspec : ∀ s op, ∃ out, spec s op out (o.step s op).1)
    (h : Justified (Picked o spec pick) hist) :
    ∃ lin state, LinearizesBy spec (visible hist) lin state ∧ state 0 = o.init ∧
      state lin.length = o.after hist := by
  refine ⟨commits (hist.filterMap (pickedMark pick)), o.machine.after (pickedOps pick hist), ?_,
    rfl, ?_⟩
  · rw [visible_eq_filter]
    refine (linearizesBy_commits (fun _ => hspec) (h.filterMap ?_)).filter
    intro pre e e' hpre he hee
    cases e with
    | call c op =>
        cases hee
        exact fun op' hop' => he op' (mem_pickedMark_call.mp hop')
    | exec c i op res =>
        by_cases hp : pick c i
        · rw [pickedMark_pos hp] at hee
          cases hee
          refine ⟨mem_pickedMark_call.mpr he.1, fun op' hop' => ?_⟩
          obtain ⟨j, res', hj, hmem⟩ := of_mem_pickedMark_commit hop'
          exact he.2.1 hp j op' res' hj hmem
        · rw [pickedMark_neg hp] at hee
          cases hee
    | ret c i out =>
        cases hee
        obtain ⟨p, q, j, op, res, rfl, hj, hs⟩ := he
        -- the execution that was picked is the commit behind those of `p`
        refine ⟨(pickedOps pick p).length, op, ?_, ?_⟩
        · rw [List.filterMap_append, List.filterMap_cons, pickedMark_pos hj]
          simp [commits, pickedOps]
        · have hp := after_pickedOps hpre.of_append
          have hops : (commits ((p ++ .exec c j op res :: q).filterMap (pickedMark pick))).map
              Prod.snd = pickedOps pick p ++ op :: pickedOps pick q := by
            rw [List.filterMap_append, List.filterMap_cons, pickedMark_pos hj]
            simp [commits, pickedOps]
          have hop : (pickedOps pick p ++ op :: pickedOps pick q)[(pickedOps pick p).length]? =
              some op := by simp
          rw [hops, Machine.after_succ hop, Machine.after_append _ _ (Nat.le_refl _), hp]
          exact hs
  · rw [← after_pickedOps h]
    simp [pickedOps]

end Picked

/-! ## 3. Histories without any order -/

/-- A call is new, what is executed for it is its operation, and it returns once. -/
def Once (pre : List (Ev ι ο ρ)) : Ev ι ο ρ → Prop
  | .call c _ => ∀ op, .call c op ∉ pre
  | .exec c _ op _ => .call c op ∈ pre
  | .ret c _ _ => ∀ j out, .ret c j out ∉ pre

section Once

variable {hist : List (Ev ι ο ρ)} (h : Justified Once hist) {c i j : ℕ} {op op' : ι} {res res' : ο}
  {out out' : ρ}

include h

/-- A call has one operation. -/
theorem Once.op_unique (h1 : .exec c i op res ∈ hist) (h2 : .exec c j op' res' ∈ hist) :
    op = op' := by
  obtain ⟨p1, q1, e1, hc1⟩ := h.of_mem h1
  obtain ⟨p2, q2, e2, hc2⟩ := h.of_mem h2
  have m1 : .call c op ∈ hist := by
    rw [e1]
    exact List.mem_append_left _ hc1
  have m2 : .call c op' ∈ hist := by
    rw [e2]
    exact List.mem_append_left _ hc2
  cases h.eq_of_mem m1 m2 (fun _ hp => hp op) (fun _ hp => hp op')
  rfl

theorem Once.ret_unique (h1 : .ret c i out ∈ hist) (h2 : .ret c j out' ∈ hist) : i = j := by
  cases h.eq_of_mem h1 h2 (fun _ hp => hp i out) (fun _ hp => hp j out')
  rfl

end Once

/-- A call is new; each of its RPCs is executed at most once, at any time after the call was made,
    and answers what the object answers; the call returns once, what `gives` makes of the answer of
    one of them. -/
def Loose (o : Object σ ι ο) (gives : ι → ο → ρ → Prop) (pre : List (Ev ι ο ρ)) : Ev ι ο ρ → Prop
  | .call c _ => ∀ op, .call c op ∉ pre
  | .exec c i op res => .call c op ∈ pre ∧ res = (o.step (o.after pre) op).2 ∧
      ∀ op' res', .exec c i op' res' ∉ pre
  | .ret c i out => (∃ op res, .exec c i op res ∈ pre ∧ gives op res out) ∧
      ∀ j out', .ret c j out' ∉ pre

theorem Loose.once {o : Object σ ι ο} {gives : ι → ο → ρ → Prop} {pre : List (Ev ι ο ρ)}
    {e : Ev ι ο ρ} (h : Loose o gives pre e) : Once pre e := by
  cases e with
  | call c op => exact h
  | exec c i op res => exact h.1
  | ret c i out => exact h.2

end RaftLab.Lib

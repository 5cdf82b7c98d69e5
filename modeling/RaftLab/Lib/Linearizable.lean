/-
  File:      RaftLab/Lib/Linearizable.lean
  Subject:   Linearizable histories of a deterministic machine, and the rule of commit points.

  A `Machine` answers operations in a sequence; `after` and `resultAt` are its state and its answers
  along a log. A history has calls and returns, and marks where a call was committed. A sequence of
  calls linearizes the history (`Linearizes`) if it has every returned call, with the answer it
  returned, and keeps the order of calls that did not overlap; it may have calls that have not
  returned.

  **`linearizes_commits`**: if a call is committed at most once, after it was made, and returns what
  the machine answers at its commit point, then the order of the commits linearizes the history.
  **`linearizesBy_commits`** is the same rule where a call may return anything that a specification
  allows at its commit point, and the specification may allow an answer for more than one effect.
-/
import RaftLab.Lib.Runs
import Mathlib.Data.List.Nodup

namespace RaftLab.Lib

/-! ## 1. Machines -/

/-- A machine; a step is told its number in the log, from 1. -/
structure Machine (σ ι ο : Type*) where
  init : σ
  step : ℕ → σ → ι → σ × ο

namespace Machine

variable {σ ι ο : Type*} (m : Machine σ ι ο)

/-- The state after the first `k` operations of a log. -/
def after (log : List ι) : ℕ → σ
  | 0 => m.init
  | k + 1 =>
      match log[k]? with
      | some op => (m.step (k + 1) (after log k) op).1
      | none => after log k

/-- The answer to the operation at place `k`, from 0. -/
def resultAt (log : List ι) (k : ℕ) : Option ο :=
  log[k]?.map fun op => (m.step (k + 1) (m.after log k) op).2

variable {m}

theorem after_succ {log : List ι} {k : ℕ} {op : ι} (h : log[k]? = some op) :
    m.after log (k + 1) = (m.step (k + 1) (m.after log k) op).1 := by
  simp only [after, h]

theorem resultAt_eq {log : List ι} {k : ℕ} {op : ι} (h : log[k]? = some op) :
    m.resultAt log k = some (m.step (k + 1) (m.after log k) op).2 := by
  rw [resultAt, h]
  rfl

/-- What comes later in the log changes nothing. -/
theorem after_append (log l : List ι) {k : ℕ} (h : k ≤ log.length) :
    m.after (log ++ l) k = m.after log k := by
  induction k with
  | zero => rfl
  | succ k ih =>
      simp only [after]
      rw [List.getElem?_append_left h, ih (Nat.le_of_succ_le h)]

theorem resultAt_append_left {log : List ι} (l : List ι) {k : ℕ} (h : k < log.length) :
    m.resultAt (log ++ l) k = m.resultAt log k := by
  rw [resultAt, resultAt, List.getElem?_append_left h, after_append log l (Nat.le_of_lt h)]

theorem resultAt_append {log : List ι} {k : ℕ} {res : ο} (l : List ι)
    (h : m.resultAt log k = some res) : m.resultAt (log ++ l) k = some res := by
  obtain ⟨op, hop, hres⟩ := Option.map_eq_some_iff.mp h
  rw [resultAt_append_left l (List.getElem?_eq_some_iff.mp hop).1]
  exact h

/-- A machine whose steps do not depend on their number. -/
theorem after_eq_foldl {f : σ → ι → σ × ο} (hf : ∀ i, m.step i = f) (log : List ι) (k : ℕ) :
    m.after log k = (log.take k).foldl (fun s op => (f s op).1) m.init := by
  induction k with
  | zero => rfl
  | succ k ih =>
      rw [after, List.take_add_one, List.foldl_append, ← ih, hf]
      cases log[k]? <;> rfl

/-- One more operation. -/
theorem after_concat (log : List ι) (op : ι) :
    m.after (log ++ [op]) (log.length + 1) =
      (m.step (log.length + 1) (m.after log log.length) op).1 := by
  rw [after_succ List.getElem?_concat_length, after_append _ _ (Nat.le_refl _)]

theorem resultAt_concat (log : List ι) (op : ι) :
    m.resultAt (log ++ [op]) log.length =
      some (m.step (log.length + 1) (m.after log log.length) op).2 := by
  rw [resultAt_eq List.getElem?_concat_length, after_append _ _ (Nat.le_refl _)]

end Machine

/-! ## 2. Histories -/

inductive Mark (κ ι ο : Type*) where
  | call (c : κ) (op : ι)
  | commit (c : κ) (op : ι)
  | ret (c : κ) (res : ο)
  deriving DecidableEq

def Mark.isCommit {κ ι ο : Type*} : Mark κ ι ο → Bool
  | .commit _ _ => true
  | _ => false

section Linearizable

variable {σ ι ο κ : Type*} {m : Machine σ ι ο}

/-- A sequence of calls that linearizes the calls and returns of a history. -/
structure Linearizes (m : Machine σ ι ο) (hist : List (Mark κ ι ο)) (lin : List (κ × ι)) : Prop where
  once : (lin.map Prod.fst).Nodup
  called : ∀ x ∈ lin, .call x.1 x.2 ∈ hist
  result : ∀ c res, .ret c res ∈ hist →
    ∃ (k : ℕ) (op : ι), lin[k]? = some (c, op) ∧ m.resultAt (lin.map Prod.snd) k = some res
  /-- A call that returned before another was made comes before it. -/
  order : ∀ pre mid post c res d op, hist = pre ++ .ret c res :: mid ++ .call d op :: post →
    ∀ (k l : ℕ) opc opd, lin[k]? = some (c, opc) → lin[l]? = some (d, opd) → k < l

/-- The committed calls, in order. -/
def commits (hist : List (Mark κ ι ο)) : List (κ × ι) :=
  hist.filterMap fun e =>
    match e with
    | .commit c op => some (c, op)
    | _ => none

/-- A call is new; it is committed once, after it was made; it returns what the machine answers. -/
def Lawful (m : Machine σ ι ο) (pre : List (Mark κ ι ο)) : Mark κ ι ο → Prop
  | .call c _ => ∀ op, .call c op ∉ pre
  | .commit c op => .call c op ∈ pre ∧ ∀ op', .commit c op' ∉ pre
  | .ret c res => ∃ (k : ℕ) (op : ι), (commits pre)[k]? = some (c, op) ∧
      m.resultAt ((commits pre).map Prod.snd) k = some res

theorem mem_commits {hist : List (Mark κ ι ο)} {x : κ × ι} :
    x ∈ commits hist ↔ .commit x.1 x.2 ∈ hist := by
  simp only [commits, List.mem_filterMap]
  refine ⟨fun h => ?_, fun h => ⟨_, h, rfl⟩⟩
  obtain ⟨e, he, hx⟩ := h
  cases e with
  | commit c op =>
      cases hx
      exact he
  | call | ret => cases hx

theorem commits_append (h h' : List (Mark κ ι ο)) : commits (h ++ h') = commits h ++ commits h' :=
  List.filterMap_append

/-- A call is new; it is committed once, after it was made, and before it returns. -/
def Ordered (pre : List (Mark κ ι ο)) : Mark κ ι ο → Prop
  | .call c _ => ∀ op, .call c op ∉ pre
  | .commit c op => .call c op ∈ pre ∧ ∀ op', .commit c op' ∉ pre
  | .ret c _ => ∃ (k : ℕ) (op : ι), (commits pre)[k]? = some (c, op)

theorem Lawful.ordered {pre : List (Mark κ ι ο)} {e : Mark κ ι ο} (h : Lawful m pre e) :
    Ordered pre e := by
  cases e with
  | call | commit => exact h
  | ret c res =>
      obtain ⟨k, op, hk, _⟩ := h
      exact ⟨k, op, hk⟩

theorem nodup_commits {hist : List (Mark κ ι ο)} (h : Justified Ordered hist) :
    ((commits hist).map Prod.fst).Nodup := by
  induction hist using List.reverseRecOn with
  | nil => exact List.nodup_nil
  | append_singleton l e ih =>
      obtain ⟨hl, he⟩ := h.of_concat
      rw [commits_append]
      cases e with
      | commit c op =>
          have hc : commits ([.commit c op] : List (Mark κ ι ο)) = [(c, op)] := rfl
          rw [hc, List.map_append]
          refine List.nodup_append.mpr ⟨ih hl, List.nodup_singleton _, fun a ha b hb hab => ?_⟩
          obtain ⟨x, hx, rfl⟩ := List.mem_map.mp ha
          have hx1 : x.1 = c := hab.trans (List.mem_singleton.mp hb)
          exact he.2 x.2 (hx1 ▸ mem_commits.mp hx)
      | call c op =>
          have hc : commits ([.call c op] : List (Mark κ ι ο)) = [] := rfl
          rw [hc, List.append_nil]
          exact ih hl
      | ret c res =>
          have hc : commits ([.ret c res] : List (Mark κ ι ο)) = [] := rfl
          rw [hc, List.append_nil]
          exact ih hl

/-- A call that is committed in a part of the history was made in it. -/
theorem called_of_commit {hist pre post : List (Mark κ ι ο)} {x : κ × ι}
    (h : Justified Ordered hist) (e : hist = pre ++ post) (hx : x ∈ commits pre) :
    .call x.1 x.2 ∈ pre := by
  obtain ⟨p, q, hpq⟩ := List.append_of_mem (mem_commits.mp hx)
  have hc : Ordered p (.commit x.1 x.2) := h p _ (q ++ post) (by rw [e, hpq]; simp)
  rw [hpq]
  exact List.mem_append_left _ hc.1

/-- A commit stands at one place only. -/
theorem commits_place {hist pre post : List (Mark κ ι ο)} (h : Justified Ordered hist)
    (e : hist = pre ++ post) {k k' : ℕ} {c : κ} {op op' : ι}
    (hk : (commits hist)[k]? = some (c, op)) (hk' : (commits pre)[k']? = some (c, op')) :
    k = k' ∧ op = op' := by
  have hlt : k' < (commits pre).length := (List.getElem?_eq_some_iff.mp hk').1
  have hk2 : (commits hist)[k']? = some (c, op') := by
    rw [e, commits_append, List.getElem?_append_left hlt]
    exact hk'
  have h1 : ((commits hist).map Prod.fst)[k]? = some c := by rw [List.getElem?_map, hk]; rfl
  have h2 : ((commits hist).map Prod.fst)[k']? = some c := by rw [List.getElem?_map, hk2]; rfl
  obtain ⟨_, e1⟩ := List.getElem?_eq_some_iff.mp h1
  obtain ⟨_, e2⟩ := List.getElem?_eq_some_iff.mp h2
  have hkk : k = k' := ((nodup_commits h).getElem_inj_iff).mp (e1.trans e2.symm)
  refine ⟨hkk, ?_⟩
  rw [hkk, hk2] at hk
  cases hk
  rfl

/-- The order of the commits keeps the order of calls that did not overlap. -/
theorem commits_order {hist pre mid post : List (Mark κ ι ο)} (h : Justified Ordered hist) {c d : κ}
    {res : ο} {op : ι} (e : hist = pre ++ .ret c res :: mid ++ .call d op :: post) {k l : ℕ}
    {opc opd : ι} (hk : (commits hist)[k]? = some (c, opc))
    (hl : (commits hist)[l]? = some (d, opd)) : k < l := by
  -- `c` was committed before its return, at a place that is the only one of `c`
  have hret : Ordered pre (.ret c res) := h pre _ (mid ++ .call d op :: post) (by rw [e]; simp)
  obtain ⟨k', opc', hk'⟩ := hret
  have hlt : k' < (commits pre).length := (List.getElem?_eq_some_iff.mp hk').1
  have hkk : k = k' := (commits_place h (e.trans (List.append_assoc _ _ _)) hk hk').1
  -- `d` was committed after it was made
  have hcall : Ordered (pre ++ .ret c res :: mid) (.call d op) := h _ _ post (by rw [e])
  have hge : (commits (pre ++ .ret c res :: mid)).length ≤ l := by
    refine Nat.le_of_not_lt fun hll => ?_
    rw [e, commits_append, List.getElem?_append_left hll] at hl
    have hmem : (d, opd) ∈ commits (pre ++ .ret c res :: mid) := List.mem_of_getElem? hl
    exact hcall opd (called_of_commit h e hmem)
  rw [commits_append, List.length_append] at hge
  omega

/-- **The rule of commit points.** -/
theorem linearizes_commits {hist : List (Mark κ ι ο)} (h : Justified (Lawful m) hist) :
    Linearizes m hist (commits hist) := by
  have hord : Justified Ordered hist := fun pre e post heq => (h pre e post heq).ordered
  refine ⟨nodup_commits hord, fun x hx => ?_, fun c res hr => ?_, ?_⟩
  · exact called_of_commit hord (List.append_nil hist).symm hx
  · obtain ⟨pre, post, e, k, op, hk, hres⟩ := h.of_mem hr
    refine ⟨k, op, ?_, ?_⟩
    · rw [e, commits_append, List.getElem?_append_left (List.getElem?_eq_some_iff.mp hk).1]
      exact hk
    · rw [e, commits_append, List.map_append]
      exact Machine.resultAt_append _ hres
  · intro pre mid post c res d op e k l opc opd hk hl
    exact commits_order hord e hk hl

/-- Two events of what is seen of a history are two events of the history. -/
theorem split_of_filter {α : Type*} {p : α → Bool} {hist pre mid post : List α} {x y : α}
    (e : hist.filter p = pre ++ x :: mid ++ y :: post) :
    ∃ pre' mid' post', hist = pre' ++ x :: mid' ++ y :: post' := by
  obtain ⟨l1, l2, rfl, e1, e2⟩ := List.filter_eq_append_iff.mp e
  obtain ⟨p1, p2, rfl, _, e12⟩ := List.filter_eq_append_iff.mp e1
  obtain ⟨a1, a2, rfl, _, _, _⟩ := List.filter_eq_cons_iff.mp e12
  obtain ⟨b1, b2, rfl, _, _, _⟩ := List.filter_eq_cons_iff.mp e2
  exact ⟨p1 ++ a1, a2 ++ b1, b2, by simp⟩

/-- The commits need not be seen. -/
theorem Linearizes.filter {hist : List (Mark κ ι ο)} {lin : List (κ × ι)}
    (h : Linearizes m hist lin) : Linearizes m (hist.filter (!·.isCommit)) lin := by
  refine ⟨h.once, fun x hx => List.mem_filter.mpr ⟨h.called x hx, rfl⟩,
    fun c res hr => h.result c res (List.mem_filter.mp hr).1, ?_⟩
  intro pre mid post c res d op e k l opc opd hk hl
  obtain ⟨pre', mid', post', e'⟩ := split_of_filter e
  exact h.order pre' mid' post' c res d op e' k l opc opd hk hl

/-- A machine that answers alike. -/
theorem Linearizes.congr {τ : Type*} {m' : Machine τ ι ο} {hist : List (Mark κ ι ο)}
    {lin : List (κ × ι)} (h : Linearizes m hist lin)
    (hres : ∀ log k, m'.resultAt log k = m.resultAt log k) : Linearizes m' hist lin := by
  refine ⟨h.once, h.called, fun c res hr => ?_, h.order⟩
  obtain ⟨k, op, hk, hop⟩ := h.result c res hr
  exact ⟨k, op, hk, (hres _ k).trans hop⟩

end Linearizable

/-! ## 3. Specifications that leave an answer open -/

section Loose

variable {σ ι ο ρ κ : Type*}

/-- A sequence of calls that linearizes a history by a specification: `spec s op out s'` allows the
    answer `out` to `op`, from `s` to `s'`. The call at place `k` takes `state k` to the next. -/
structure LinearizesBy (spec : σ → ι → ρ → σ → Prop) (hist : List (Mark κ ι ρ))
    (lin : List (κ × ι)) (state : ℕ → σ) : Prop where
  once : (lin.map Prod.fst).Nodup
  called : ∀ x ∈ lin, .call x.1 x.2 ∈ hist
  returned : ∀ c out, .ret c out ∈ hist → ∃ op, (c, op) ∈ lin
  /-- What a call returned is allowed; some answer is, if it has not returned. -/
  legal : ∀ (k : ℕ) c op, lin[k]? = some (c, op) →
    (∃ out, spec (state k) op out (state (k + 1))) ∧
      ∀ out, .ret c out ∈ hist → spec (state k) op out (state (k + 1))
  order : ∀ pre mid post c out d op, hist = pre ++ .ret c out :: mid ++ .call d op :: post →
    ∀ (k l : ℕ) opc opd, lin[k]? = some (c, opc) → lin[l]? = some (d, opd) → k < l

variable (m : Machine σ ι ο) (spec : σ → ι → ρ → σ → Prop)

/-- As `Lawful`; a call returns what the specification allows for the machine's step. -/
def LawfulBy (pre : List (Mark κ ι ρ)) : Mark κ ι ρ → Prop
  | .call c _ => ∀ op, .call c op ∉ pre
  | .commit c op => .call c op ∈ pre ∧ ∀ op', .commit c op' ∉ pre
  | .ret c out => ∃ (k : ℕ) (op : ι), (commits pre)[k]? = some (c, op) ∧
      spec (m.after ((commits pre).map Prod.snd) k) op out
        (m.after ((commits pre).map Prod.snd) (k + 1))

variable {m spec}

theorem LawfulBy.ordered {pre : List (Mark κ ι ρ)} {e : Mark κ ι ρ} (h : LawfulBy m spec pre e) :
    Ordered pre e := by
  cases e with
  | call | commit => exact h
  | ret c res =>
      obtain ⟨k, op, hk, _⟩ := h
      exact ⟨k, op, hk⟩

/-- **The rule of commit points**, for a specification that allows every step of the machine. -/
theorem linearizesBy_commits (hspec : ∀ k s op, ∃ out, spec s op out (m.step k s op).1)
    {hist : List (Mark κ ι ρ)} (h : Justified (LawfulBy m spec) hist) :
    LinearizesBy spec hist (commits hist) (m.after ((commits hist).map Prod.snd)) := by
  have hord : Justified Ordered hist := fun pre e post heq => (h pre e post heq).ordered
  refine ⟨nodup_commits hord, fun x hx => ?_, fun c out hr => ?_, fun k c op hk => ⟨?_, ?_⟩, ?_⟩
  · exact called_of_commit hord (List.append_nil hist).symm hx
  · obtain ⟨pre, post, e, k, op, hk, _⟩ := h.of_mem hr
    refine ⟨op, ?_⟩
    rw [e, commits_append]
    exact List.mem_append_left _ (List.mem_of_getElem? hk)
  · have hop : ((commits hist).map Prod.snd)[k]? = some op := by rw [List.getElem?_map, hk]; rfl
    rw [Machine.after_succ hop]
    exact hspec _ _ _
  · intro out hr
    obtain ⟨pre, post, e, k', op', hk', hs⟩ := h.of_mem hr
    obtain ⟨rfl, rfl⟩ := commits_place hord e hk hk'
    have hlt : k < ((commits pre).map Prod.snd).length := by
      rw [List.length_map]
      exact (List.getElem?_eq_some_iff.mp hk').1
    rw [e, commits_append, List.map_append, Machine.after_append _ _ (Nat.le_of_lt hlt),
      Machine.after_append _ _ hlt]
    exact hs
  · intro pre mid post c out d op e k l opc opd hk hl
    exact commits_order hord e hk hl

/-- The commits need not be seen. -/
theorem LinearizesBy.filter {hist : List (Mark κ ι ρ)} {lin : List (κ × ι)} {state : ℕ → σ}
    (h : LinearizesBy spec hist lin state) :
    LinearizesBy spec (hist.filter (!·.isCommit)) lin state := by
  refine ⟨h.once, fun x hx => ?_, fun c out hr => ?_, fun k c op hk => ⟨(h.legal k c op hk).1, ?_⟩,
    ?_⟩
  · exact List.mem_filter.mpr ⟨h.called x hx, rfl⟩
  · exact h.returned c out (List.mem_filter.mp hr).1
  · exact fun out hr => (h.legal k c op hk).2 out (List.mem_filter.mp hr).1
  · intro pre mid post c out d op e k l opc opd hk hl
    obtain ⟨pre', mid', post', e'⟩ := split_of_filter e
    exact h.order pre' mid' post' c out d op e' k l opc opd hk hl

end Loose

end RaftLab.Lib

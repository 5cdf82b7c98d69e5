/-
  File:      RaftLab/Lib/Retry.lean
  Subject:   Callers that send an operation to an object again until they have its answer.

  A `Service` is an object together with the code of its callers: what a caller makes of an RPC that
  has come back, with an answer or without one. It returns, or sends the operation again. The object
  may also refuse an RPC; a refusal does not say whether the RPC will be executed. An RPC that was
  sent is executed once or never, at any time, also when the caller no longer waits for it.

  `InOrder` is the condition that no RPC of a call is executed after a later one of the same call.
  **`inv_run`**: in every run that meets it, every event of the history is warranted by those before
  it (`Warranted`), and the object is what the executions have made of it. **`loose_run`** is what
  is left of that in every run (`Loose`).

  Without it there is also what calls show to a program that makes them: their operation, the
  answers of their executed RPCs (`HasOp`, `Answered`), and that a call returns what the caller
  makes of the answer of its last RPC (`LastAnswer`). `next_shows` says what a step does to these.
-/
import RaftLab.Lib.Executions

namespace RaftLab.Lib

open Relation

/-! ## 1. Services -/

/-- An object and its callers. `handle ck op resend reply` is what caller `ck` does when an RPC of
    `op` comes back with `reply`, `none` if there is no answer; `resend` says that the RPC was not
    the first one. `none` for the return value sends the operation again. -/
structure Service (γ σ ι ο ρ : Type) extends Object σ ι ο where
  handle : γ → ι → Bool → Option ο → γ × Option ρ
  refusal : ι → Option ο
  /-- A caller returns answers of the object only. -/
  handle_none : ∀ ck op resend, (handle ck op resend none).2 = none
  handle_refusal : ∀ ck op resend r, refusal op = some r → (handle ck op resend (some r)).2 = none

namespace Retry

inductive Pc (ρ : Type) where
  | idle
  | waiting
  | returned (out : ρ)
  deriving DecidableEq

/-- A call; `rpcs` has, for every RPC it sent, what its execution answered, `none` if it was not
    executed. -/
structure Call (ι ο ρ : Type) where
  who : ℕ
  op : ι
  rpcs : List (Option ο)
  pc : Pc ρ

structure System (γ σ ι ο ρ : Type) where
  obj : σ
  callers : ℕ → γ
  calls : List (Call ι ο ρ)
  /-- What has happened; the code does not read it. -/
  hist : List (Ev ι ο ρ)

inductive Action (ι : Type) where
  | call (p : ℕ) (op : ι)
  | send (c : ℕ)
  /-- The object executes RPC `i` of call `c`. -/
  | execute (c i : ℕ)
  /-- The last RPC of call `c` comes back: with its answer, refused, or without an answer. -/
  | answer (c : ℕ)
  | refuse (c : ℕ)
  | fail (c : ℕ)

variable {γ σ ι ο ρ : Type} (sv : Service γ σ ι ο ρ)

namespace System

def init (callers : ℕ → γ) : System γ σ ι ο ρ := ⟨sv.init, callers, [], []⟩

/-- Call `c`, which is `x`, returns or goes round again. -/
def goOn (s : System γ σ ι ο ρ) (c : ℕ) (x : Call ι ο ρ) (ck : γ) :
    Option ρ → System γ σ ι ο ρ
  | none =>
      { s with callers := Function.update s.callers x.who ck
               calls := s.calls.set c { x with pc := .idle } }
  | some out =>
      { s with callers := Function.update s.callers x.who ck
               calls := s.calls.set c { x with pc := .returned out }
               hist := s.hist ++ [.ret c (x.rpcs.length - 1) out] }

def comeBack (s : System γ σ ι ο ρ) (c : ℕ) (x : Call ι ο ρ) (reply : Option ο) :
    Option (System γ σ ι ο ρ) :=
  match x.pc with
  | .waiting =>
      let r := sv.handle (s.callers x.who) x.op (decide (1 < x.rpcs.length)) reply
      some (s.goOn c x r.1 r.2)
  | _ => none

def send (s : System γ σ ι ο ρ) (c : ℕ) (x : Call ι ο ρ) : Option (System γ σ ι ο ρ) :=
  match x.pc with
  | .idle => some { s with calls := s.calls.set c { x with rpcs := x.rpcs ++ [none]
                                                           pc := .waiting } }
  | _ => none

def execute (s : System γ σ ι ο ρ) (c i : ℕ) (x : Call ι ο ρ) : Option (System γ σ ι ο ρ) :=
  match x.rpcs[i]? with
  | some none =>
      let r := sv.step s.obj x.op
      some { s with obj := r.1
                    calls := s.calls.set c { x with rpcs := x.rpcs.set i (some r.2) }
                    hist := s.hist ++ [.exec c i x.op r.2] }
  | _ => none

def next (s : System γ σ ι ο ρ) : Action ι → Option (System γ σ ι ο ρ)
  | .call p op =>
      some { s with calls := s.calls ++ [⟨p, op, [], .idle⟩]
                    hist := s.hist ++ [.call s.calls.length op] }
  | .send c => s.calls[c]?.bind fun x => s.send c x
  | .execute c i => s.calls[c]?.bind fun x => s.execute sv c i x
  | .answer c => do
      let x ← s.calls[c]?
      let r ← x.rpcs.getLast?
      let res ← r
      s.comeBack sv c x (some res)
  | .refuse c => do
      let x ← s.calls[c]?
      let res ← sv.refusal x.op
      s.comeBack sv c x (some res)
  | .fail c => s.calls[c]?.bind fun x => s.comeBack sv c x none

/-- A run all of whose steps meet a condition. -/
def Run (cond : System γ σ ι ο ρ → Action ι → Prop) (s s' : System γ σ ι ο ρ) : Prop :=
  ReflTransGen (fun s s' => ∃ act, cond s act ∧ s.next sv act = some s') s s'

end System

/-- No RPC is executed after a later one of the same call. -/
def InOrder (s : System γ σ ι ο ρ) : Action ι → Prop
  | .execute c i => ∀ x ∈ s.calls[c]?, ∀ j ∈ List.range x.rpcs.length, i < j → x.rpcs[j]? = some none
  | _ => True

instance [DecidableEq ο] (s : System γ σ ι ο ρ) (act : Action ι) : Decidable (InOrder s act) := by
  unfold InOrder
  split <;> infer_instance

/-! ## 2. What a step does -/

variable {sv}

/-- Everything that a step can be; a caller returns nothing but the answer of its last RPC. -/
theorem next_cases {s s' : System γ σ ι ο ρ} {act : Action ι} (h : s.next sv act = some s') :
    (∃ p op, act = .call p op ∧
      s' = { s with calls := s.calls ++ [⟨p, op, [], .idle⟩]
                    hist := s.hist ++ [.call s.calls.length op] }) ∨
    (∃ c x, act = .send c ∧ s.calls[c]? = some x ∧ x.pc = .idle ∧
      s' = { s with calls := s.calls.set c { x with rpcs := x.rpcs ++ [none], pc := .waiting } }) ∨
    (∃ c i x, act = .execute c i ∧ s.calls[c]? = some x ∧ x.rpcs[i]? = some none ∧
      s' = { s with obj := (sv.step s.obj x.op).1
                    calls := s.calls.set c
                      { x with rpcs := x.rpcs.set i (some (sv.step s.obj x.op).2) }
                    hist := s.hist ++ [.exec c i x.op (sv.step s.obj x.op).2] }) ∨
    (∃ c x ck, s.calls[c]? = some x ∧ x.pc = .waiting ∧ s' = s.goOn c x ck none) ∨
    (∃ c x res out, act = .answer c ∧ s.calls[c]? = some x ∧ x.pc = .waiting ∧
      x.rpcs.getLast? = some (some res) ∧
      (sv.handle (s.callers x.who) x.op (decide (1 < x.rpcs.length)) (some res)).2 = some out ∧
      s' = s.goOn c x
        (sv.handle (s.callers x.who) x.op (decide (1 < x.rpcs.length)) (some res)).1 (some out)) := by
  have hback : ∀ {c x reply}, s.comeBack sv c x reply = some s' → x.pc = .waiting ∧
      s' = s.goOn c x (sv.handle (s.callers x.who) x.op (decide (1 < x.rpcs.length)) reply).1
        (sv.handle (s.callers x.who) x.op (decide (1 < x.rpcs.length)) reply).2 := by
    intro c x reply hb
    unfold System.comeBack at hb
    cases hpc : x.pc with
    | waiting =>
        rw [hpc] at hb
        cases hb
        exact ⟨rfl, rfl⟩
    | idle | returned =>
        rw [hpc] at hb
        cases hb
  cases act with
  | call p op =>
      cases h
      exact .inl ⟨p, op, rfl, rfl⟩
  | send c =>
      obtain ⟨x, hx, h⟩ := Option.bind_eq_some_iff.mp h
      unfold System.send at h
      cases hpc : x.pc with
      | idle =>
          rw [hpc] at h
          cases h
          exact .inr (.inl ⟨c, x, rfl, hx, hpc, rfl⟩)
      | waiting | returned =>
          rw [hpc] at h
          cases h
  | execute c i =>
      obtain ⟨x, hx, h⟩ := Option.bind_eq_some_iff.mp h
      unfold System.execute at h
      split at h
      next hi =>
        cases h
        exact .inr (.inr (.inl ⟨c, i, x, rfl, hx, hi, rfl⟩))
      · cases h
  | answer c =>
      obtain ⟨x, hx, h⟩ := Option.bind_eq_some_iff.mp h
      obtain ⟨r, hr, h⟩ := Option.bind_eq_some_iff.mp h
      obtain ⟨res, rfl, h⟩ := Option.bind_eq_some_iff.mp h
      obtain ⟨hpc, hs'⟩ := hback h
      cases hout : (sv.handle (s.callers x.who) x.op (decide (1 < x.rpcs.length)) (some res)).2 with
      | none =>
          rw [hout] at hs'
          exact .inr (.inr (.inr (.inl ⟨c, x, _, hx, hpc, hs'⟩)))
      | some out =>
          rw [hout] at hs'
          exact .inr (.inr (.inr (.inr ⟨c, x, res, out, rfl, hx, hpc, hr, hout, hs'⟩)))
  | refuse c =>
      obtain ⟨x, hx, h⟩ := Option.bind_eq_some_iff.mp h
      obtain ⟨res, hres, h⟩ := Option.bind_eq_some_iff.mp h
      obtain ⟨hpc, hs'⟩ := hback h
      rw [sv.handle_refusal _ _ _ _ hres] at hs'
      exact .inr (.inr (.inr (.inl ⟨c, x, _, hx, hpc, hs'⟩)))
  | fail c =>
      obtain ⟨x, hx, h⟩ := Option.bind_eq_some_iff.mp h
      obtain ⟨hpc, hs'⟩ := hback h
      rw [sv.handle_none] at hs'
      exact .inr (.inr (.inr (.inl ⟨c, x, _, hx, hpc, hs'⟩)))

/-! ## 3. The history -/

/-- A call is new; its executions are in the order of its RPCs and answer what the object answers;
    it returns once, and then what its caller makes of the last of them. -/
def Warranted (sv : Service γ σ ι ο ρ) (pre : List (Ev ι ο ρ)) : Ev ι ο ρ → Prop
  | .call c _ => ∀ op, .call c op ∉ pre
  | .exec c i op res => .call c op ∈ pre ∧ res = (sv.step (sv.after pre) op).2 ∧
      (∀ j op' res', .exec c j op' res' ∈ pre → j < i) ∧ ∀ j out, .ret c j out ∉ pre
  | .ret c i out => (∃ op res ck, .exec c i op res ∈ pre ∧
      (sv.handle ck op (decide (0 < i)) (some res)).2 = some out) ∧
      (∀ j out', .ret c j out' ∉ pre) ∧ ∀ j op res, .exec c j op res ∈ pre → j ≤ i

theorem Warranted.once {pre : List (Ev ι ο ρ)} {e : Ev ι ο ρ} (h : Warranted sv pre e) :
    Once pre e := by
  cases e with
  | call c op => exact h
  | exec c i op res => exact h.1
  | ret c i out => exact h.2.1

section History

variable {hist : List (Ev ι ο ρ)} (h : Justified (Warranted sv) hist) {c i j : ℕ} {op op' : ι}
  {res res' : ο} {out out' : ρ}

include h

theorem exec_unique (h1 : .exec c i op res ∈ hist) (h2 : .exec c i op' res' ∈ hist) :
    op = op' ∧ res = res' := by
  have := h.eq_of_mem h1 h2 (fun pre hp hmem => Nat.lt_irrefl i (hp.2.2.1 i _ _ hmem))
    (fun pre hp hmem => Nat.lt_irrefl i (hp.2.2.1 i _ _ hmem))
  cases this
  exact ⟨rfl, rfl⟩

/-- Earlier RPCs are executed earlier. -/
theorem exec_before (h1 : .exec c j op' res' ∈ hist) (h2 : .exec c i op res ∈ hist) (hlt : j < i) :
    ∃ p q, hist = p ++ .exec c i op res :: q ∧ .exec c j op' res' ∈ p := by
  obtain ⟨p, q, e⟩ := List.append_of_mem h2
  refine ⟨p, q, e, ?_⟩
  have hmem := h1
  rw [e] at hmem
  rcases List.mem_append.mp hmem with hp | hq
  · exact hp
  · rcases List.mem_cons.mp hq with he | hq
    · cases he
      exact absurd hlt (Nat.lt_irrefl _)
    · obtain ⟨q1, q2, e2⟩ := List.append_of_mem hq
      have hw : Warranted sv (p ++ .exec c i op res :: q1) (.exec c j op' res') :=
        h _ _ q2 (by rw [e, e2]; simp)
      exact absurd (hw.2.2.1 i op res (by simp)) (Nat.not_lt_of_lt hlt)

/-- A call that has returned is not executed any more. -/
theorem exec_before_ret {pre post : List (Ev ι ο ρ)} (e : hist = pre ++ .ret c i out :: post)
    (h1 : .exec c j op res ∈ hist) : .exec c j op res ∈ pre := by
  rw [e] at h1
  rcases List.mem_append.mp h1 with hp | hq
  · exact hp
  · rcases List.mem_cons.mp hq with he | hq
    · cases he
    · obtain ⟨q1, q2, e2⟩ := List.append_of_mem hq
      have hw : Warranted sv (pre ++ .ret c i out :: q1) (.exec c j op res) :=
        h _ _ q2 (by rw [e, e2]; simp)
      exact absurd (by simp) (hw.2.2.2 i out)

end History

/-- The calls and the history tell the same. -/
structure Tells (calls : List (Call ι ο ρ)) (hist : List (Ev ι ο ρ)) : Prop where
  call_mem : ∀ c op, .call c op ∈ hist ↔ ∃ x, calls[c]? = some x ∧ x.op = op
  exec_mem : ∀ c i op res, .exec c i op res ∈ hist ↔
    ∃ x, calls[c]? = some x ∧ x.op = op ∧ x.rpcs[i]? = some (some res)
  ret_mem : ∀ c i out, .ret c i out ∈ hist →
    ∃ x, calls[c]? = some x ∧ x.pc = .returned out ∧ x.rpcs.length = i + 1 ∧
      ∃ res, x.rpcs[i]? = some (some res)
  /-- A call that waits has sent an RPC. -/
  sent : ∀ (c : ℕ) (x : Call ι ο ρ), calls[c]? = some x → x.pc = .waiting → x.rpcs ≠ []

structure Inv (sv : Service γ σ ι ο ρ) (s : System γ σ ι ο ρ) : Prop where
  obj : s.obj = sv.after s.hist
  just : Justified (Warranted sv) s.hist
  tells : Tells s.calls s.hist

theorem inv_init (callers : ℕ → γ) : Inv sv (System.init sv callers) where
  obj := rfl
  just := .nil
  tells :=
    { call_mem := fun c op => by simp [System.init]
      exec_mem := fun c i op res => by simp [System.init]
      ret_mem := fun c i out h => absurd h List.not_mem_nil
      sent := fun c x h => by simp [System.init] at h }

/-- What holds of a call before and after it is replaced holds of the calls before and after. -/
theorem exists_set_iff {α : Type} {l : List α} {c d : ℕ} {x x' : α} {P : α → Prop}
    (hx : l[c]? = some x) (hP : d = c → (P x' ↔ P x)) :
    (∃ y, (l.set c x')[d]? = some y ∧ P y) ↔ ∃ y, l[d]? = some y ∧ P y := by
  by_cases hd : d = c
  · subst hd
    have hlt : d < l.length := (List.getElem?_eq_some_iff.mp hx).1
    simp [List.getElem?_set_self hlt, hx, hP rfl]
  · rw [List.getElem?_set_ne (Ne.symm hd)]

theorem exists_concat_iff {α : Type} {l : List α} {d : ℕ} {x : α} {P : α → Prop} :
    (∃ y, (l ++ [x])[d]? = some y ∧ P y) ↔ (∃ y, l[d]? = some y ∧ P y) ∨ d = l.length ∧ P x := by
  rw [List.getElem?_append]
  split
  next hlt =>
    refine ⟨Or.inl, fun h => h.resolve_right ?_⟩
    intro hd
    omega
  next hge =>
    have hnone : l[d]? = none := List.getElem?_eq_none (Nat.le_of_not_lt hge)
    by_cases hd : d = l.length
    · simp [hd]
    · have hnone' : [x][d - l.length]? = none :=
        List.getElem?_eq_none (by rw [List.length_singleton]; omega)
      simp [hnone, hd, hnone']

section Tells

variable {calls : List (Call ι ο ρ)} {hist : List (Ev ι ο ρ)} {c : ℕ} {x : Call ι ο ρ}

/-- A call that has not returned is not in the history as one that has. -/
theorem Tells.not_ret (h : Tells calls hist) (hx : calls[c]? = some x)
    (hpc : ∀ out, x.pc ≠ .returned out) (j : ℕ) (out : ρ) : .ret c j out ∉ hist := by
  intro hmem
  obtain ⟨y, hy, hret, _⟩ := h.ret_mem c j out hmem
  rw [hx] at hy
  cases hy
  exact hpc out hret

theorem Tells.call (h : Tells calls hist) (p : ℕ) (op : ι) :
    Tells (calls ++ [⟨p, op, [], .idle⟩]) (hist ++ [.call calls.length op]) where
  call_mem c op' := by
    rw [exists_concat_iff, List.mem_append, h.call_mem, List.mem_singleton]
    simp [eq_comm]
  exec_mem c i op' res := by
    rw [exists_concat_iff, List.mem_append, h.exec_mem, List.mem_singleton]
    simp
  ret_mem c i out hmem := by
    rcases List.mem_append.mp hmem with hmem | hmem
    · exact exists_concat_iff.mpr (.inl (h.ret_mem c i out hmem))
    · cases List.mem_singleton.mp hmem
  sent c x hx hpc := by
    rw [List.getElem?_append] at hx
    split at hx
    · exact h.sent c x hx hpc
    · obtain ⟨_, hx⟩ := List.getElem?_eq_some_iff.mp hx
      rw [List.getElem_singleton] at hx
      subst hx
      cases hpc

/-- A call is replaced by one with the same operation and the same executions. -/
theorem Tells.set (h : Tells calls hist) {x' : Call ι ο ρ} (hx : calls[c]? = some x)
    (hop : x'.op = x.op)
    (hrpcs : ∀ (i : ℕ) res, x'.rpcs[i]? = some (some res) ↔ x.rpcs[i]? = some (some res))
    (hpc : ∀ out, x.pc ≠ .returned out) (hsent : x'.pc = .waiting → x'.rpcs ≠ []) :
    Tells (calls.set c x') hist where
  call_mem d op := by
    rw [exists_set_iff hx (fun _ => by rw [hop])]
    exact h.call_mem d op
  exec_mem d i op res := by
    rw [exists_set_iff hx (fun _ => by rw [hop, hrpcs])]
    exact h.exec_mem d i op res
  ret_mem d i out hmem := by
    have hd : d ≠ c := fun e => h.not_ret hx hpc i out (e ▸ hmem)
    obtain ⟨y, hy, hy'⟩ := h.ret_mem d i out hmem
    exact ⟨y, by rw [List.getElem?_set_ne (Ne.symm hd)]; exact hy, hy'⟩
  sent d y hy hw := by
    by_cases hd : d = c
    · subst hd
      rw [List.getElem?_set_self (List.getElem?_eq_some_iff.mp hx).1] at hy
      cases hy
      exact hsent hw
    · rw [List.getElem?_set_ne (Ne.symm hd)] at hy
      exact h.sent d y hy hw

/-- A call sends an RPC. -/
theorem Tells.sent_more (h : Tells calls hist) (hx : calls[c]? = some x) (hpc : x.pc = .idle) :
    Tells (calls.set c { x with rpcs := x.rpcs ++ [none], pc := .waiting }) hist := by
  refine h.set hx rfl (fun i res => ?_) (by rw [hpc]; simp) (by simp)
  rw [List.getElem?_append]
  split
  · rfl
  next hge =>
    rw [List.getElem?_eq_none (Nat.le_of_not_lt hge)]
    cases hi : i - x.rpcs.length <;> simp

/-- The RPC that a call waits for has been answered. -/
theorem Tells.last_answer (h : Tells calls hist) (hx : calls[c]? = some x) (hpc : x.pc = .waiting)
    {res : ο} (hlast : x.rpcs.getLast? = some (some res)) :
    x.rpcs.length = (x.rpcs.length - 1) + 1 ∧
      x.rpcs[x.rpcs.length - 1]? = some (some res) := by
  have hpos := List.length_pos_iff.mpr (h.sent c x hx hpc)
  refine ⟨by omega, ?_⟩
  rw [← List.getLast?_eq_getElem?]
  exact hlast

theorem Tells.exec (h : Tells calls hist) (hx : calls[c]? = some x) {i : ℕ}
    (hi : x.rpcs[i]? = some none) (res : ο) :
    Tells (calls.set c { x with rpcs := x.rpcs.set i (some res) })
      (hist ++ [.exec c i x.op res]) where
  call_mem d op := by
    rw [List.mem_append, h.call_mem, List.mem_singleton]
    simp only [reduceCtorEq, or_false]
    exact (exists_set_iff hx (fun _ => by rfl)).symm
  exec_mem d j op res' := by
    rw [List.mem_append, h.exec_mem, List.mem_singleton]
    have hlt : i < x.rpcs.length := (List.getElem?_eq_some_iff.mp hi).1
    by_cases hd : d = c
    · subst hd
      rw [List.getElem?_set_self (List.getElem?_eq_some_iff.mp hx).1, hx]
      by_cases hj : j = i
      · subst hj
        simp [List.getElem?_set_self hlt, hi, eq_comm]
      · simp [List.getElem?_set_ne (Ne.symm hj), hj]
    · rw [List.getElem?_set_ne (Ne.symm hd)]
      simp [hd]
  ret_mem d j out hmem := by
    rcases List.mem_append.mp hmem with hmem | hmem
    · obtain ⟨y, hy, hpc, hlen, r, hr⟩ := h.ret_mem d j out hmem
      by_cases hd : d = c
      · subst hd
        rw [hx] at hy
        cases hy
        rw [List.getElem?_set_self (List.getElem?_eq_some_iff.mp hx).1]
        refine ⟨_, rfl, hpc, by rw [List.length_set]; exact hlen, r, ?_⟩
        rw [List.getElem?_set_ne fun e => by rw [e, hr] at hi; cases hi]
        exact hr
      · rw [List.getElem?_set_ne (Ne.symm hd)]
        exact ⟨y, hy, hpc, hlen, r, hr⟩
    · cases List.mem_singleton.mp hmem
  sent d y hy hw := by
    by_cases hd : d = c
    · subst hd
      rw [List.getElem?_set_self (List.getElem?_eq_some_iff.mp hx).1] at hy
      cases hy
      intro hnil
      have hlen := congrArg List.length hnil
      rw [List.length_set] at hlen
      exact h.sent d x hx hw (List.length_eq_zero_iff.mp hlen)
    · rw [List.getElem?_set_ne (Ne.symm hd)] at hy
      exact h.sent d y hy hw

theorem Tells.ret (h : Tells calls hist) (hx : calls[c]? = some x) {i : ℕ} {res : ο}
    (hlen : x.rpcs.length = i + 1) (hi : x.rpcs[i]? = some (some res)) (out : ρ)
    (hret : ∀ j out, .ret c j out ∉ hist) :
    Tells (calls.set c { x with pc := .returned out }) (hist ++ [.ret c i out]) where
  call_mem d op := by
    rw [List.mem_append, h.call_mem, List.mem_singleton]
    simp only [reduceCtorEq, or_false]
    exact (exists_set_iff hx (fun _ => by rfl)).symm
  exec_mem d j op res' := by
    rw [List.mem_append, h.exec_mem, List.mem_singleton]
    simp only [reduceCtorEq, or_false]
    exact (exists_set_iff hx (fun _ => by rfl)).symm
  ret_mem d j out' hmem := by
    rcases List.mem_append.mp hmem with hmem | hmem
    · have hd : d ≠ c := fun e => hret j out' (e ▸ hmem)
      rw [List.getElem?_set_ne (Ne.symm hd)]
      exact h.ret_mem d j out' hmem
    · cases List.mem_singleton.mp hmem
      rw [List.getElem?_set_self (List.getElem?_eq_some_iff.mp hx).1]
      exact ⟨_, rfl, rfl, hlen, res, hi⟩
  sent d y hy hw := by
    by_cases hd : d = c
    · subst hd
      rw [List.getElem?_set_self (List.getElem?_eq_some_iff.mp hx).1] at hy
      cases hy
      cases hw
    · rw [List.getElem?_set_ne (Ne.symm hd)] at hy
      exact h.sent d y hy hw

end Tells

/-- The executions of a call before RPC `i`, which is not executed, are those of earlier RPCs. -/
theorem InOrder.lt {s : System γ σ ι ο ρ} {c i : ℕ} (h : InOrder s (.execute c i))
    (ht : Tells s.calls s.hist) {x : Call ι ο ρ} (hx : s.calls[c]? = some x)
    (hi : x.rpcs[i]? = some none) {j : ℕ} {op : ι} {res : ο} (hj : .exec c j op res ∈ s.hist) :
    j < i := by
  obtain ⟨y, hy, _, hres⟩ := (ht.exec_mem c j op res).mp hj
  rw [hx] at hy
  cases hy
  refine Nat.lt_of_not_le fun hle => ?_
  rcases Nat.eq_or_lt_of_le hle with he | hlt
  · rw [← he, hi] at hres
    cases hres
  · have hnone := h x hx j (List.mem_range.mpr (List.getElem?_eq_some_iff.mp hres).1) hlt
    rw [hres] at hnone
    cases hnone

theorem Inv.next {s s' : System γ σ ι ο ρ} {act : Action ι} (hinv : Inv sv s)
    (hord : InOrder s act) (h : s.next sv act = some s') : Inv sv s' := by
  obtain ⟨hobj, hjust, ht⟩ := hinv
  rcases next_cases h with ⟨p, op, rfl, rfl⟩ | ⟨c, x, rfl, hx, hpc, rfl⟩ |
    ⟨c, i, x, rfl, hx, hi, rfl⟩ | ⟨c, x, ck, hx, hpc, rfl⟩ |
    ⟨c, x, res, out, rfl, hx, hpc, hlast, hout, rfl⟩
  · refine ⟨hobj.trans (sv.after_call _ _ _).symm, hjust.concat fun op' hmem => ?_, ht.call p op⟩
    obtain ⟨x, hx, _⟩ := (ht.call_mem _ _).mp hmem
    exact absurd (List.getElem?_eq_some_iff.mp hx).1 (Nat.lt_irrefl _)
  · exact ⟨hobj, hjust, ht.sent_more hx hpc⟩
  · have hret : ∀ j out, .ret c j out ∉ s.hist := by
      intro j out hmem
      obtain ⟨y, hy, _, hlen, res, hres⟩ := ht.ret_mem c j out hmem
      have hlt := hord.lt ht hx hi ((ht.exec_mem c j _ res).mpr ⟨y, hy, rfl, hres⟩)
      rw [hx] at hy
      cases hy
      have := (List.getElem?_eq_some_iff.mp hi).1
      omega
    refine ⟨?_, hjust.concat ⟨(ht.call_mem _ _).mpr ⟨x, hx, rfl⟩, by rw [← hobj],
      fun j op' res' hj => hord.lt ht hx hi hj, hret⟩, ht.exec hx hi _⟩
    dsimp only
    rw [sv.after_exec, ← hobj]
  · refine ⟨hobj, hjust, ht.set hx rfl (fun _ _ => Iff.rfl) (by rw [hpc]; simp) (by simp)⟩
  · obtain ⟨hlen, hi⟩ := ht.last_answer hx hpc hlast
    have hret := ht.not_ret hx (fun out => by rw [hpc]; simp)
    refine ⟨hobj.trans (sv.after_ret _ _ _ _).symm, hjust.concat ⟨?_, hret, ?_⟩,
      ht.ret hx hlen hi out hret⟩
    · refine ⟨x.op, res, s.callers x.who, (ht.exec_mem _ _ _ _).mpr ⟨x, hx, rfl, hi⟩, ?_⟩
      have hdec : decide (0 < x.rpcs.length - 1) = decide (1 < x.rpcs.length) := by
        congr 1
        exact propext (by omega)
      rw [hdec]
      exact hout
    · intro j op res' hj
      obtain ⟨y, hy, _, hres⟩ := (ht.exec_mem c j op res').mp hj
      rw [hx] at hy
      cases hy
      have := (List.getElem?_eq_some_iff.mp hres).1
      omega

/-- **Runs in order**: the history is in order, and the object is what it tells. -/
theorem inv_run {callers : ℕ → γ} {s : System γ σ ι ο ρ}
    (h : System.Run sv InOrder (.init sv callers) s) : Inv sv s :=
  run_inv (fun _ _ hstep hinv => by
    obtain ⟨act, hord, hnext⟩ := hstep
    exact hinv.next hord hnext) h (inv_init callers)

/-- What the callers make of the answer of an RPC. -/
def Gives (sv : Service γ σ ι ο ρ) (op : ι) (res : ο) (out : ρ) : Prop :=
  ∃ ck resend, (sv.handle ck op resend (some res)).2 = some out

/-- **Runs in any order**: every RPC is executed at most once, also after its call has returned. -/
theorem loose_run {callers : ℕ → γ} {s : System γ σ ι ο ρ}
    (h : System.Run sv (fun _ _ => True) (.init sv callers) s) :
    s.obj = sv.after s.hist ∧ Justified (Loose sv.toObject (Gives sv)) s.hist ∧
      Tells s.calls s.hist := by
  refine run_inv (I := fun s => s.obj = sv.after s.hist ∧
    Justified (Loose sv.toObject (Gives sv)) s.hist ∧ Tells s.calls s.hist)
    (fun s s' hstep hinv => ?_) h ⟨rfl, .nil, (inv_init callers : Inv sv _).tells⟩
  obtain ⟨act, _, hn⟩ := hstep
  obtain ⟨hobj, hjust, ht⟩ := hinv
  rcases next_cases hn with ⟨p, op, rfl, rfl⟩ | ⟨c, x, rfl, hx, hpc, rfl⟩ |
    ⟨c, i, x, rfl, hx, hi, rfl⟩ | ⟨c, x, ck, hx, hpc, rfl⟩ |
    ⟨c, x, res, out, rfl, hx, hpc, hlast, hout, rfl⟩
  · refine ⟨hobj.trans (sv.after_call _ _ _).symm, hjust.concat fun op' hmem => ?_, ht.call p op⟩
    obtain ⟨x, hx, _⟩ := (ht.call_mem _ _).mp hmem
    exact absurd (List.getElem?_eq_some_iff.mp hx).1 (Nat.lt_irrefl _)
  · exact ⟨hobj, hjust, ht.sent_more hx hpc⟩
  · refine ⟨?_, hjust.concat ⟨(ht.call_mem _ _).mpr ⟨x, hx, rfl⟩, by rw [← hobj], ?_⟩,
      ht.exec hx hi _⟩
    · dsimp only
      rw [sv.after_exec, ← hobj]
    · intro op' res' hmem
      obtain ⟨y, hy, _, hres⟩ := (ht.exec_mem c i op' res').mp hmem
      rw [hx] at hy
      cases hy
      rw [hi] at hres
      cases hres
  · exact ⟨hobj, hjust, ht.set hx rfl (fun _ _ => Iff.rfl) (by rw [hpc]; simp) (by simp)⟩
  · obtain ⟨hlen, hi⟩ := ht.last_answer hx hpc hlast
    have hret := ht.not_ret hx (fun out => by rw [hpc]; simp)
    refine ⟨hobj.trans (sv.after_ret _ _ _ _).symm, hjust.concat ⟨?_, hret⟩,
      ht.ret hx hlen hi out hret⟩
    exact ⟨x.op, res, (ht.exec_mem _ _ _ _).mpr ⟨x, hx, rfl, hi⟩, _, _, hout⟩

/-! ## 4. What calls show -/

def HasOp (calls : List (Call ι ο ρ)) (c : ℕ) (op : ι) : Prop :=
  ∃ x, calls[c]? = some x ∧ x.op = op

/-- An RPC of call `c` was executed and answered `res`. -/
def Answered (calls : List (Call ι ο ρ)) (c : ℕ) (res : ο) : Prop :=
  ∃ x, calls[c]? = some x ∧ some res ∈ x.rpcs

theorem HasOp.unique {calls : List (Call ι ο ρ)} {c : ℕ} {op op' : ι} (h : HasOp calls c op)
    (h' : HasOp calls c op') : op = op' := by
  obtain ⟨x, hx, rfl⟩ := h
  obtain ⟨y, hy, rfl⟩ := h'
  rw [hx] at hy
  cases hy
  rfl

theorem Answered.lt {calls : List (Call ι ο ρ)} {c : ℕ} {res : ο} (h : Answered calls c res) :
    c < calls.length := by
  obtain ⟨x, hx, _⟩ := h
  exact (List.getElem?_eq_some_iff.mp hx).1

/-- The calls show the same. -/
structure SameCalls (calls calls' : List (Call ι ο ρ)) : Prop where
  op : ∀ c op, HasOp calls' c op ↔ HasOp calls c op
  answered : ∀ c res, Answered calls' c res ↔ Answered calls c res

/-- There is one call more, which has no answer. -/
structure Grows (calls calls' : List (Call ι ο ρ)) (op : ι) : Prop where
  op : ∀ c op', HasOp calls' c op' ↔ HasOp calls c op' ∨ c = calls.length ∧ op' = op
  answered : ∀ c res, Answered calls' c res ↔ Answered calls c res

/-- There is one answer more, to an RPC of call `c`. -/
structure Gains (calls calls' : List (Call ι ο ρ)) (c : ℕ) (res : ο) : Prop where
  op : ∀ d op, HasOp calls' d op ↔ HasOp calls d op
  answered : ∀ d r, Answered calls' d r ↔ Answered calls d r ∨ d = c ∧ r = res

section Views

variable {calls calls' : List (Call ι ο ρ)}

theorem Grows.new {op : ι} (h : Grows calls calls' op) : HasOp calls' calls.length op :=
  (h.op _ _).mpr (.inr ⟨rfl, rfl⟩)

theorem Grows.not_answered {op : ι} (h : Grows calls calls' op) (res : ο) :
    ¬ Answered calls' calls.length res :=
  fun ha => Nat.lt_irrefl _ ((h.answered _ _).mp ha).lt

/-- A call with another operation shows the same. -/
theorem Gains.other {c d : ℕ} {res r : ο} {op op' : ι} (h : Gains calls calls' c res)
    (hc : HasOp calls c op) (hd : HasOp calls d op') (hne : op' ≠ op) :
    Answered calls' d r ↔ Answered calls d r := by
  rw [h.answered]
  refine ⟨fun hr => hr.resolve_right fun hx => ?_, .inl⟩
  rw [hx.1] at hd
  exact hne (hd.unique hc)

end Views

theorem SameCalls.set {calls : List (Call ι ο ρ)} {c : ℕ} {x x' : Call ι ο ρ}
    (hx : calls[c]? = some x) (hop : x'.op = x.op)
    (hrpcs : ∀ res, some res ∈ x'.rpcs ↔ some res ∈ x.rpcs) : SameCalls calls (calls.set c x') :=
  ⟨fun _ _ => exists_set_iff hx fun _ => by rw [hop],
    fun _ res => exists_set_iff hx fun _ => hrpcs res⟩

/-- A new answer does not replace another. -/
theorem some_mem_set_iff {rpcs : List (Option ο)} {i : ℕ} (hi : rpcs[i]? = some none)
    (res res' : ο) : some res' ∈ rpcs.set i (some res) ↔ some res' ∈ rpcs ∨ res' = res := by
  have hlt : i < rpcs.length := (List.getElem?_eq_some_iff.mp hi).1
  constructor
  · intro h
    rcases List.mem_or_eq_of_mem_set h with hold | he
    · exact .inl hold
    · exact .inr (Option.some.inj he)
  · intro h
    rcases h with hold | rfl
    · obtain ⟨j, hj⟩ := List.mem_iff_getElem?.mp hold
      have hne : i ≠ j := fun e => by rw [← e, hi] at hj; cases hj
      exact List.mem_iff_getElem?.mpr ⟨j, by rw [List.getElem?_set_ne hne]; exact hj⟩
    · exact List.mem_set hlt _

theorem call_shows {s s' : System γ σ ι ο ρ} {p : ℕ} {op : ι}
    (h : s.next sv (.call p op) = some s') : s'.obj = s.obj ∧ Grows s.calls s'.calls op := by
  cases h
  refine ⟨rfl, fun c op' => ?_, fun c res => ?_⟩
  · unfold HasOp
    rw [exists_concat_iff]
    simp [eq_comm]
  · unfold Answered
    rw [exists_concat_iff]
    simp

/-- **What a step does to what the calls show**: there is a new call, there is nothing to be seen,
    or an RPC is executed. -/
theorem next_shows {s s' : System γ σ ι ο ρ} {act : Action ι} (h : s.next sv act = some s') :
    (∃ p op, act = .call p op ∧ s'.obj = s.obj ∧ Grows s.calls s'.calls op) ∨
    (s'.obj = s.obj ∧ SameCalls s.calls s'.calls) ∨
    (∃ c op, HasOp s.calls c op ∧ s'.obj = (sv.step s.obj op).1 ∧
      Gains s.calls s'.calls c (sv.step s.obj op).2) := by
  rcases next_cases h with ⟨p, op, rfl, rfl⟩ | ⟨c, x, rfl, hx, hpc, rfl⟩ |
    ⟨c, i, x, rfl, hx, hi, rfl⟩ | ⟨c, x, ck, hx, hpc, rfl⟩ |
    ⟨c, x, res, out, rfl, hx, hpc, hlast, hout, rfl⟩
  · exact .inl ⟨p, op, rfl, call_shows h⟩
  · exact .inr (.inl ⟨rfl, .set hx rfl fun res => by simp⟩)
  · refine .inr (.inr ⟨c, x.op, ⟨x, hx, rfl⟩, rfl, fun d op' => ?_, fun d res => ?_⟩)
    · exact exists_set_iff hx fun _ => Iff.rfl
    · have hlt : c < s.calls.length := (List.getElem?_eq_some_iff.mp hx).1
      unfold Answered
      by_cases hd : d = c
      · subst hd
        simp [List.getElem?_set_self hlt, hx, some_mem_set_iff hi]
      · simp [List.getElem?_set_ne (Ne.symm hd), hd]
  · exact .inr (.inl ⟨rfl, .set hx rfl fun _ => Iff.rfl⟩)
  · exact .inr (.inl ⟨rfl, .set hx rfl fun _ => Iff.rfl⟩)

/-- A call that has returned has returned what the caller made of the answer of its last RPC. -/
def LastAnswer (sv : Service γ σ ι ο ρ) (x : Call ι ο ρ) : Prop :=
  ∀ out, x.pc = .returned out → ∃ res ck, x.rpcs.getLast? = some (some res) ∧
    (sv.handle ck x.op (decide (1 < x.rpcs.length)) (some res)).2 = some out

theorem LastAnswer.of_not_returned {x : Call ι ο ρ} (h : ∀ out, x.pc ≠ .returned out) :
    LastAnswer sv x := fun out hout => absurd hout (h out)

theorem LastAnswer.execute {x : Call ι ο ρ} (h : LastAnswer sv x) {i : ℕ}
    (hi : x.rpcs[i]? = some none) (res : ο) :
    LastAnswer sv { x with rpcs := x.rpcs.set i (some res) } := by
  intro out hout
  obtain ⟨last, ck, hlast, hres⟩ := h out hout
  refine ⟨last, ck, ?_, by rw [List.length_set]; exact hres⟩
  rw [List.getLast?_eq_getElem?] at hlast ⊢
  dsimp only
  rw [List.length_set]
  -- the last RPC was answered when the call returned
  have hne : i ≠ x.rpcs.length - 1 := fun e => by rw [← e, hi] at hlast; cases hlast
  rw [List.getElem?_set_ne hne]
  exact hlast

theorem lastAnswer_next {s s' : System γ σ ι ο ρ} {act : Action ι} (h : s.next sv act = some s')
    (hs : ∀ x ∈ s.calls, LastAnswer sv x) : ∀ x ∈ s'.calls, LastAnswer sv x := by
  have hset : ∀ {c : ℕ} {x' : Call ι ο ρ}, LastAnswer sv x' →
      ∀ x ∈ s.calls.set c x', LastAnswer sv x := by
    intro c x' hx' x hmem
    rcases List.mem_or_eq_of_mem_set hmem with hold | rfl
    · exact hs x hold
    · exact hx'
  rcases next_cases h with ⟨p, op, rfl, rfl⟩ | ⟨c, x, rfl, hx, hpc, rfl⟩ |
    ⟨c, i, x, rfl, hx, hi, rfl⟩ | ⟨c, x, ck, hx, hpc, rfl⟩ |
    ⟨c, x, res, out, rfl, hx, hpc, hlast, hout, rfl⟩
  · intro x hmem
    rcases List.mem_append.mp hmem with hold | hnew
    · exact hs x hold
    · rw [List.mem_singleton.mp hnew]
      exact .of_not_returned fun _ e => by cases e
  · exact hset (.of_not_returned fun _ e => by cases e)
  · exact hset ((hs x (List.mem_of_getElem? hx)).execute hi _)
  · exact hset (.of_not_returned fun _ e => by cases e)
  · refine hset fun out' hout' => ?_
    cases hout'
    exact ⟨res, _, hlast, hout⟩

/-- **What a returned call tells**: an answer, and if it was not that of a resend, the only one. -/
theorem LastAnswer.answered {calls : List (Call ι ο ρ)} {c : ℕ} {x : Call ι ο ρ} {out : ρ}
    (h : LastAnswer sv x) (hx : calls[c]? = some x) (hpc : x.pc = .returned out) :
    ∃ res ck resend, Answered calls c res ∧ (sv.handle ck x.op resend (some res)).2 = some out ∧
      (resend = false → ∀ res', Answered calls c res' → res' = res) := by
  obtain ⟨res, ck, hlast, hout⟩ := h out hpc
  refine ⟨res, ck, _, ⟨x, hx, List.mem_of_getLast? hlast⟩, hout, fun hf res' hres' => ?_⟩
  obtain ⟨y, hy, hmem⟩ := hres'
  rw [hx] at hy
  cases hy
  have hlen : ¬ 1 < x.rpcs.length := of_decide_eq_false hf
  cases hr : x.rpcs with
  | nil =>
      rw [hr] at hlast
      cases hlast
  | cons r rest =>
      rw [hr, List.length_cons] at hlen
      obtain rfl : rest = [] := List.length_eq_zero_iff.mp (by omega)
      rw [hr] at hlast hmem
      cases hlast
      exact Option.some.inj (List.mem_singleton.mp hmem)

end Retry

end RaftLab.Lib

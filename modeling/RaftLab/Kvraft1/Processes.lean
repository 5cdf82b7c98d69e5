/-
  File:      RaftLab/Kvraft1/Processes.lean
  Subject:   The Submits of a node, and the Submits of the processes it runs one after the other.

  A node that dies and is started again can be told in two ways. In Raftkvd.lean it has one RSM,
  which starts afresh, and its Submits count as returned when it dies. In Service.lean every process
  has an RSM of its own, and the Submits of a dead process never go on. `System.Alike` says that two
  systems of RSMs are the same node by node, up to what the state machines hold and up to answers
  that nobody waits for (`nil`); a step of a Submit or of `readApplyCh` in the first is the same step
  in the second, and so is the end of a process.
-/
import RaftLab.Kvraft1.Numbers
import Mathlib.Data.List.Forall2

namespace RaftLab.Kvraft1.Rsm

open RaftLab.Lib List
open RaftLab.Kvsrv1 (Err)

variable {σ Srv Req Res : Type}

/-! ## 1. Submits -/

/-- The Submit, at process `k` of its node. -/
def Submit.inProc (x : Submit Srv Req Res) (k : ℕ) : Submit (Srv × ℕ) Req Res :=
  ⟨(x.srv, k), x.req, x.hashNum, x.ch, x.pc⟩

/-- Two views of one Submit: its process runs, or has died. -/
inductive Submit.Alike (current : Srv → ℕ) (x : Submit Srv Req Res) :
    Submit (Srv × ℕ) Req Res → Prop where
  | live : Submit.Alike current x (x.inProc (current x.srv))
  | dead {y : Submit (Srv × ℕ) Req Res} {err : Err} {res : Option Res}
      (hpc : x.pc = .returned err res) (hlt : y.srv.2 < current y.srv.1)
      (hnum : y.hashNum = x.hashNum) : Submit.Alike current x y

theorem Submit.Alike.hashNum {current : Srv → ℕ} {x : Submit Srv Req Res}
    {y : Submit (Srv × ℕ) Req Res} (h : x.Alike current y) : y.hashNum = x.hashNum := by
  cases h with
  | live => rfl
  | dead _ _ hnum => exact hnum

/-- A Submit that has not returned belongs to a process that runs. -/
theorem Submit.Alike.eq_inProc {current : Srv → ℕ} {x : Submit Srv Req Res}
    {y : Submit (Srv × ℕ) Req Res} (h : x.Alike current y)
    (hpc : ∀ err res, x.pc ≠ .returned err res) : y = x.inProc (current x.srv) := by
  cases h with
  | live => rfl
  | dead hret _ _ => exact absurd hret (hpc _ _)

section

variable [DecidableEq Srv] {current : Srv → ℕ} {x : Submit Srv Req Res} {n : Srv}

/-- The process of another node has died. -/
theorem Submit.Alike.live_of_ne (hn : x.srv ≠ n) :
    x.Alike (Function.update current n (current n + 1)) (x.inProc (current x.srv)) := by
  have hlive : x.Alike (Function.update current n (current n + 1)) _ := .live
  rwa [Function.update_of_ne hn] at hlive

/-- The process of its own node has died. -/
theorem Submit.Alike.dead_of_eq {y : Submit Srv Req Res} {err : Err} {res : Option Res}
    (hn : x.srv = n) (hpc : y.pc = .returned err res) (hnum : x.hashNum = y.hashNum) :
    y.Alike (Function.update current n (current n + 1)) (x.inProc (current x.srv)) := by
  refine .dead hpc ?_ hnum
  show current x.srv < Function.update current n (current n + 1) x.srv
  rw [hn, Function.update_self]
  exact Nat.lt_succ_self _

end

/-- The Submits, one by one. -/
abbrev Paired (current : Srv → ℕ) (submits : List (Submit Srv Req Res))
    (submits' : List (Submit (Srv × ℕ) Req Res)) : Prop :=
  Forall₂ (Submit.Alike current) submits submits'

section Paired

variable {current : Srv → ℕ} {submits l : List (Submit Srv Req Res)}
  {submits' : List (Submit (Srv × ℕ) Req Res)} {c : ℕ} {x : Submit Srv Req Res}

theorem Paired.get (h : Paired current submits submits') (hx : submits[c]? = some x) :
    ∃ y, submits'[c]? = some y ∧ x.Alike current y := by
  induction h generalizing c with
  | nil => cases hx
  | cons hxy _ ih =>
      cases c with
      | zero =>
          cases hx
          exact ⟨_, rfl, hxy⟩
      | succ c => exact ih hx

theorem Paired.set (h : Paired current submits submits') (c : ℕ) (x : Submit Srv Req Res) :
    Paired current (submits.set c x) (submits'.set c (x.inProc (current x.srv))) := by
  induction h generalizing c with
  | nil => exact .nil
  | cons hxy ht ih =>
      cases c with
      | zero => exact .cons .live ht
      | succ c => exact .cons hxy (ih c)

/-- A number is new in both views. -/
theorem Paired.all_hashNum (h : Paired current submits submits') (n : ℕ) :
    (submits'.all fun y => y.hashNum ≠ some n) = submits.all fun x => x.hashNum ≠ some n := by
  induction h with
  | nil => rfl
  | cons hxy _ ih => rw [all_cons, all_cons, ih, hxy.hashNum]

/-- The channel of a Submit that has not returned. -/
theorem Paired.onChan (h : Paired current submits submits') (hx : submits[c]? = some x)
    (hpc : ∀ err res, x.pc ≠ .returned err res) {f : Chan Res → Option (Chan Res)}
    (hl : System.onChan submits c f = some l) :
    ∃ l', System.onChan submits' c f = some l' ∧ Paired current l l' := by
  obtain ⟨y, hy, hl⟩ := Option.bind_eq_some_iff.mp hl
  obtain ⟨ch, hch, hl⟩ := Option.bind_eq_some_iff.mp hl
  cases hx.symm.trans hy
  cases hl
  obtain ⟨y', hy', halike⟩ := h.get hx
  cases halike.eq_inProc hpc
  refine ⟨submits'.set c ({ x with ch := ch }.inProc (current x.srv)), ?_, h.set c _⟩
  exact Option.bind_eq_some_iff.mpr ⟨_, hy', Option.bind_eq_some_iff.mpr ⟨ch, hch, rfl⟩⟩

/-- A node's process dies and another takes its place. -/
theorem Paired.killed [DecidableEq Srv] (h : Paired current submits submits') (n : Srv) :
    Paired (Function.update current n (current n + 1)) (submits.map (·.killed n)) submits' := by
  have hle : ∀ m, current m ≤ Function.update current n (current n + 1) m := by
    intro m
    by_cases e : m = n
    · subst e
      rw [Function.update_self]
      exact Nat.le_succ _
    · exact Nat.le_of_eq (Function.update_of_ne e _ _).symm
  refine forall₂_map_left_iff.mpr (h.imp fun x y hxy => ?_)
  cases hxy with
  | live =>
      rcases killed_cases n x with ⟨e, hne | ⟨err, res, hpc⟩⟩ | ⟨e, hn⟩
      · rw [e]
        exact .live_of_ne hne
      · rw [e]
        by_cases hn : x.srv = n
        · exact .dead_of_eq hn hpc rfl
        · exact .live_of_ne hn
      · rw [e]
        exact .dead_of_eq hn rfl rfl
  | dead hpc hlt hnum =>
      have e : x.killed n = x := by
        unfold Submit.killed
        rw [hpc]
      rw [e]
      exact .dead hpc (Nat.lt_of_lt_of_le hlt (hle _)) hnum

end Paired

/-! ## 2. Servers -/

/-- Two readers at the same place; the answers may differ where the first has none to give. -/
inductive Loop.Alike (nil : Res) : Loop Req Res → Loop Req Res → Prop where
  | reading : Loop.Alike nil .reading .reading
  | done {index : ℕ} {op : Op Req} {res res' : Res} (hres : res = nil ∨ res' = res) :
      Loop.Alike nil (.done index op res) (.done index op res')
  | notified {index : ℕ} : Loop.Alike nil (.notified index) (.notified index)

theorem Loop.Alike.eq_reading {nil : Res} {loop : Loop Req Res}
    (h : Loop.Alike nil .reading loop) : loop = .reading := by
  cases h
  rfl

theorem Loop.Alike.eq_notified {nil : Res} {index : ℕ} {loop : Loop Req Res}
    (h : Loop.Alike nil (.notified index) loop) : loop = .notified index := by
  cases h
  rfl

/-- Two RSMs that are the same up to the state machine. -/
structure RSM.Alike (nil : Res) (r r' : RSM σ Req Res) : Prop where
  applied : r'.applied = r.applied
  chMap : r'.chMap = r.chMap
  hashNumMap : r'.hashNumMap = r.hashNumMap
  mu : r'.mu = r.mu
  loop : Loop.Alike nil r.loop r'.loop

/-- Both readers go on reading. -/
theorem RSM.Alike.readOn {nil : Res} {r r' : RSM σ Req Res} (h : RSM.Alike nil r r') :
    RSM.Alike nil ({ r with loop := .reading } : RSM σ Req Res) { r' with loop := .reading } :=
  ⟨h.applied, h.chMap, h.hashNumMap, h.mu, .reading⟩

/-- Both RSMs change the two maps at an index. -/
theorem RSM.Alike.update {nil : Res} {r r' : RSM σ Req Res} (h : RSM.Alike nil r r') (i : ℕ)
    (ch hash : Option ℕ) {mu mu' : Option ℕ} {loop loop' : Loop Req Res} (hmu : mu' = mu)
    (hloop : Loop.Alike nil loop loop') :
    RSM.Alike nil
      (⟨r.sm, r.applied, Function.update r.chMap i ch, Function.update r.hashNumMap i hash, mu,
        loop⟩ : RSM σ Req Res)
      ⟨r'.sm, r'.applied, Function.update r'.chMap i ch, Function.update r'.hashNumMap i hash, mu',
        loop'⟩ := by
  refine ⟨h.applied, ?_, ?_, hmu, hloop⟩
  · rw [h.chMap]
  · rw [h.hashNumMap]

/-- **The systems are alike**: every node with the process it runs. -/
structure System.Alike (nil : Res) (current : Srv → ℕ) (s : System σ Srv Req Res)
    (t : System σ (Srv × ℕ) Req Res) : Prop where
  rsm : ∀ n, RSM.Alike nil (s.rsm n) (t.rsm (n, current n))
  submits : Paired current s.submits t.submits
  marks : t.hist.filterMap mark = s.hist.filterMap mark

section Alike

variable {nil : Res} {current : Srv → ℕ} {s s' : System σ Srv Req Res}
  {t : System σ (Srv × ℕ) Req Res} {c : ℕ} {x : Submit Srv Req Res}

theorem System.Alike.goto (h : s.Alike nil current t) (c : ℕ) (x : Submit Srv Req Res)
    (pc : Pc Res) : (s.goto c x pc).Alike nil current (t.goto c (x.inProc (current x.srv)) pc) :=
  ⟨h.rsm, h.submits.set c { x with pc := pc }, h.marks⟩

theorem System.Alike.record {s : System σ Srv Req Res} {t : System σ (Srv × ℕ) Req Res}
    (h : s.Alike nil current t) {e : Ev Srv Req Res} {e' : Ev (Srv × ℕ) Req Res}
    (he : mark e' = mark e) : System.Alike nil current { s with hist := s.hist ++ [e] }
      { t with hist := t.hist ++ [e'] } := by
  refine ⟨h.rsm, h.submits, ?_⟩
  show (t.hist ++ [e']).filterMap mark = (s.hist ++ [e]).filterMap mark
  rw [filterMap_append, filterMap_append, h.marks, filterMap_cons, filterMap_cons, he]
  rfl

theorem System.Alike.ret (h : s.Alike nil current t) (c : ℕ) (x : Submit Srv Req Res) (err : Err)
    (res : Option Res) :
    (s.ret c x err res).Alike nil current (t.ret c (x.inProc (current x.srv)) err res) :=
  (h.goto c x (.returned err res)).record rfl

theorem System.Alike.setRsm [DecidableEq Srv] (h : s.Alike nil current t) (n : Srv)
    {r r' : RSM σ Req Res} (hr : RSM.Alike nil r r') :
    (s.setRsm n r).Alike nil current (t.setRsm (n, current n) r') := by
  refine ⟨fun m => ?_, h.submits, h.marks⟩
  show RSM.Alike nil (Function.update s.rsm n r m)
    (Function.update t.rsm (n, current n) r' (m, current m))
  by_cases e : m = n
  · subst e
    rw [Function.update_self, Function.update_self]
    exact hr
  · rw [Function.update_of_ne e, Function.update_of_ne fun e' => e (congrArg Prod.fst e')]
    exact h.rsm m

/-! ## 3. Steps -/

theorem System.Alike.submit (h : s.Alike nil current t) (n : Srv) (req : Req) :
    System.Alike nil current
      { s with
        submits := s.submits ++ [⟨n, req, none, .make, .called⟩]
        hist := s.hist ++ [.called s.submits.length n req] }
      { t with
        submits := t.submits ++ [⟨(n, current n), req, none, .make, .called⟩]
        hist := t.hist ++ [.called t.submits.length (n, current n) req] } := by
  have hsub : Paired current (s.submits ++ [⟨n, req, none, .make, .called⟩])
      (t.submits ++ [⟨(n, current n), req, none, .make, .called⟩]) :=
    rel_append h.submits (.cons .live .nil)
  have hadd : System.Alike nil current
      { s with submits := s.submits ++ [⟨n, req, none, .make, .called⟩] }
      { t with submits := t.submits ++ [⟨(n, current n), req, none, .make, .called⟩] } :=
    ⟨h.rsm, hsub, h.marks⟩
  rw [h.submits.length_eq]
  exact hadd.record rfl

variable [DecidableEq Srv]

/-- A Submit that has returned does not go on. -/
theorem not_returned_of_turn {tn : Turn} (ht : s.turn c x tn = some s') (err : Err)
    (res : Option Res) : x.pc ≠ .returned err res := by
  intro e
  cases tn <;> simp [System.turn, e] at ht

/-- **A step of a Submit** is the same step of the Submit in the other view, as long as whoever is
    registered has not returned. -/
theorem System.Alike.turn (h : s.Alike nil current t)
    (hwait : ∀ n i c', (s.rsm n).chMap i = some c' → ∃ x', s.submits[c']? = some x' ∧
      ∀ err res, x'.pc ≠ .returned err res)
    {tn : Turn} (ht : s.turn c x tn = some s') :
    ∃ t', t.turn c (x.inProc (current x.srv)) tn = some t' ∧ s'.Alike nil current t' := by
  have hr := h.rsm x.srv
  cases tn with
  | getState isLeader =>
      simp only [System.turn] at ht
      split at ht
      next hpc =>
        simp only [System.turn, show (x.inProc (current x.srv)).pc = .called from hpc]
        cases isLeader with
        | true =>
            cases ht
            exact ⟨_, rfl, h.goto c x _⟩
        | false =>
            cases ht
            exact ⟨_, rfl, h.ret c x _ _⟩
      next => cases ht
  | start n answer =>
      simp only [System.turn] at ht
      split at ht
      next hpc hmu =>
        split at ht
        next hall =>
          have hmu' : (t.rsm (x.inProc (current x.srv)).srv).mu = none := hr.mu.trans hmu
          have hall' : (t.submits.all fun y => y.hashNum ≠ some n) = true :=
            (h.submits.all_hashNum n).trans hall
          simp only [System.turn, show (x.inProc (current x.srv)).pc = .leading from hpc, hmu',
            hall', if_true]
          cases answer with
          | none =>
              cases ht
              exact ⟨_, rfl, h.ret c { x with hashNum := some n } _ _⟩
          | some a =>
              cases ht
              refine ⟨_, rfl, ?_⟩
              have hlock : RSM.Alike nil { s.rsm x.srv with mu := some c }
                  { t.rsm (x.srv, current x.srv) with mu := some c } :=
                ⟨hr.applied, hr.chMap, hr.hashNumMap, rfl, hr.loop⟩
              have hset := (h.goto c { x with hashNum := some n } (.locked a.1 a.2)).setRsm
                x.srv hlock
              have hmark : mark (.started c a.1 ⟨x.req, n⟩ : Ev (Srv × ℕ) Req Res) =
                  mark (.started c a.1 ⟨x.req, n⟩ : Ev Srv Req Res) := rfl
              exact ⟨hset.rsm, hset.submits, (hset.record hmark).marks⟩
        next => cases ht
      next => cases ht
  | register =>
      simp only [System.turn] at ht
      split at ht
      next logId term hpc =>
        obtain ⟨l, hl, ht⟩ := Option.bind_eq_some_iff.mp ht
        cases ht
        obtain ⟨l', hl', hpair⟩ : ∃ l', System.closeOld t.submits
            ((t.rsm (x.inProc (current x.srv)).srv).chMap logId) = some l' ∧
            Paired current l l' := by
          rw [show (t.rsm (x.inProc (current x.srv)).srv).chMap = _ from hr.chMap]
          cases hold : (s.rsm x.srv).chMap logId with
          | none =>
              rw [hold] at hl
              cases hl
              exact ⟨_, rfl, h.submits⟩
          | some c' =>
              rw [hold] at hl
              obtain ⟨x', hx', hpc'⟩ := hwait x.srv logId c' hold
              exact h.submits.onChan hx' hpc' hl
        simp only [System.turn, show (x.inProc (current x.srv)).pc = .locked logId term from hpc,
          hl', Option.bind_eq_bind, Option.bind_some]
        refine ⟨_, rfl, ?_⟩
        have hsub : System.Alike nil current { s with submits := l } { t with submits := l' } :=
          ⟨h.rsm, hpair, h.marks⟩
        exact (hsub.goto c x (.waiting logId term)).setRsm x.srv
          (hr.update logId (some c) x.hashNum rfl hr.loop)
      next => cases ht
  | receive =>
      simp only [System.turn] at ht
      split at ht
      next logId term hpc =>
        simp only [System.turn, show (x.inProc (current x.srv)).pc = .waiting logId term from hpc]
        split at ht
        next res hbuf =>
          cases ht
          simp only [show (x.inProc (current x.srv)).ch.buf = some res from hbuf]
          exact ⟨_, rfl, h.ret c { x with ch := { x.ch with buf := none } } _ _⟩
        next hbuf =>
          simp only [show (x.inProc (current x.srv)).ch.buf = none from hbuf]
          split at ht
          next hclosed =>
            cases ht
            simp only [show (x.inProc (current x.srv)).ch.closed = true from hclosed, if_true]
            exact ⟨_, rfl, h.ret c x _ _⟩
          next => cases ht
      next => cases ht
  | tick isLeader newTerm =>
      simp only [System.turn] at ht
      split at ht
      next logId term hpc =>
        simp only [System.turn, show (x.inProc (current x.srv)).pc = .waiting logId term from hpc]
        split at ht
        next hlost =>
          cases ht
          rw [if_pos hlost]
          exact ⟨_, rfl, h.goto c x _⟩
        next hlost =>
          cases ht
          rw [if_neg hlost]
          exact ⟨_, rfl, h⟩
      next => cases ht
  | timeout =>
      simp only [System.turn] at ht
      split at ht
      next logId term hpc =>
        cases ht
        simp only [System.turn, show (x.inProc (current x.srv)).pc = .waiting logId term from hpc]
        exact ⟨_, rfl, h.goto c x _⟩
      next => cases ht
  | cleanup =>
      simp only [System.turn] at ht
      split at ht
      next logId hpc hmu =>
        cases ht
        have hmu' : (t.rsm (x.inProc (current x.srv)).srv).mu = none := hr.mu.trans hmu
        simp only [System.turn, show (x.inProc (current x.srv)).pc = .cleanup logId from hpc, hmu']
        exact ⟨_, rfl, (h.ret c x _ _).setRsm x.srv
          (hr.update logId none none hmu.symm hr.loop)⟩
      next => cases ht

/-- **`readApplyCh` looks for the Submit that waits**, in both views, as long as nobody waits for an
    answer that is nil. -/
theorem System.Alike.notify (h : s.Alike nil current t) {n : Srv}
    (hwait : ∀ i c', (s.rsm n).chMap i = some c' → ∃ x', s.submits[c']? = some x' ∧
      ∀ err res, x'.pc ≠ .returned err res)
    (hown : ∀ i op res c', (s.rsm n).loop = .done i op res → (s.rsm n).chMap i = some c' →
      (s.rsm n).hashNumMap i = some op.hashNum → res ≠ nil)
    (ht : s.notify n = some s') :
    ∃ t', t.notify (n, current n) = some t' ∧ s'.Alike nil current t' := by
  have hr := h.rsm n
  have hloop := hr.loop
  simp only [System.notify] at ht
  split at ht
  next index op res hl hmu =>
    obtain ⟨l, hwake, ht⟩ := Option.bind_eq_some_iff.mp ht
    cases ht
    rw [hl] at hloop
    generalize hl' : (t.rsm (n, current n)).loop = loop' at hloop
    cases hloop with
    | @done _ _ _ res' hres =>
        obtain ⟨l', hwake', hpair⟩ : ∃ l', System.wake t.submits
            ((t.rsm (n, current n)).hashNumMap index = some op.hashNum) res'
            ((t.rsm (n, current n)).chMap index) = some l' ∧ Paired current l l' := by
          rw [hr.chMap, hr.hashNumMap]
          cases hc : (s.rsm n).chMap index with
          | none =>
              rw [hc] at hwake
              cases hwake
              exact ⟨_, rfl, h.submits⟩
          | some c' =>
              rw [hc] at hwake
              obtain ⟨x', hx', hpc'⟩ := hwait index c' hc
              simp only [System.wake] at hwake ⊢
              split at hwake
              next hmine =>
                have hne := hown index op res c' hl hc (of_decide_eq_true hmine)
                rw [if_pos hmine, hres.resolve_left hne]
                exact h.submits.onChan hx' hpc' hwake
              next hother =>
                rw [if_neg hother]
                exact h.submits.onChan hx' hpc' hwake
        have hmu' : (t.rsm (n, current n)).mu = none := hr.mu.trans hmu
        simp only [System.notify, hl', hmu', hwake', Option.bind_eq_bind, Option.bind_some]
        have hsub : System.Alike nil current { s with submits := l } { t with submits := l' } :=
          ⟨h.rsm, hpair, h.marks⟩
        exact ⟨_, rfl, hsub.setRsm n (hr.update index none none hmu.symm .notified)⟩
  next => cases ht

/-- **The process of a node dies** and another one is started. -/
theorem System.Alike.reboot (h : s.Alike nil current t) (n : Srv) {r r' : RSM σ Req Res}
    (hr : RSM.Alike nil r r') :
    System.Alike nil (Function.update current n (current n + 1))
      { s.setRsm n r with submits := s.submits.map (·.killed n) }
      (t.setRsm (n, current n + 1) r') := by
  refine ⟨fun m => ?_, h.submits.killed n, h.marks⟩
  show RSM.Alike nil (Function.update s.rsm n r m) (Function.update t.rsm (n, current n + 1) r'
    (m, Function.update current n (current n + 1) m))
  by_cases e : m = n
  · subst e
    rw [Function.update_self, Function.update_self, Function.update_self]
    exact hr
  · rw [Function.update_of_ne e, Function.update_of_ne e,
      Function.update_of_ne fun e' => e (congrArg Prod.fst e')]
    exact h.rsm m

end Alike

end RaftLab.Kvraft1.Rsm

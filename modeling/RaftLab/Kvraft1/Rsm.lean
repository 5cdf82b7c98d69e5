/-
  File:      RaftLab/Kvraft1/Rsm.lean
  Subject:   `src/kvraft1/rsm/rsm.go`: `Submit` and `readApplyCh` over Raft.

  Any number of servers each run an RSM; any number of Submits run at each. Raft is taken by its
  contract: `Start` appends an entry at an index and returns it, in one step, with any index, so that
  indexes are used again after a change of leader; one sequence of entries is committed, each at the
  index its `Start` returned, some never; every server is handed the sequence in order, or a snapshot
  that another server took in place of its beginning. What `GetState` answers and when a timer fires
  is open. `rand.Int63` never draws a number twice.

  A step is what happens between two points where another goroutine can come in: `mu` is held by a
  Submit from before `Start` until it has registered. The state machine is a `Machine`; `hist` is the
  history of the run.
-/
import RaftLab.Kvsrv1.Rpc
import RaftLab.Lib.Linearizable
import Mathlib.Logic.Function.Basic

namespace RaftLab.Kvraft1.Rsm

open RaftLab.Lib Relation
open RaftLab.Kvsrv1 (Err)

variable {σ Srv Req Res : Type}

/-! ## 1. Channels, Submits and servers -/

structure Op (Req : Type) where
  opcommad : Req
  hashNum : ℕ
  deriving DecidableEq

/-- A Go channel with one slot. -/
structure Chan (Res : Type) where
  buf : Option Res
  closed : Bool

namespace Chan

def make : Chan Res := ⟨none, false⟩

/-- `ch <- res`; it panics on a closed channel and blocks on a full one. -/
def send (ch : Chan Res) (res : Res) : Option (Chan Res) :=
  if ch.closed = false ∧ ch.buf.isNone then some { ch with buf := some res } else none

/-- `close(ch)`; it panics on a closed channel. -/
def close (ch : Chan Res) : Option (Chan Res) :=
  if ch.closed then none else some { ch with closed := true }

end Chan

/-- Where a Submit stands. -/
inductive Pc (Res : Type) where
  | called
  /-- `GetState` has said that this is the leader. -/
  | leading
  /-- `Start` has returned, the Submit holds `mu`. -/
  | locked (logId term : ℕ)
  | waiting (logId term : ℕ)
  /-- It gives up and is about to delete its entries. -/
  | cleanup (logId : ℕ)
  | returned (err : Err) (res : Option Res)

structure Submit (Srv Req Res : Type) where
  srv : Srv
  req : Req
  hashNum : Option ℕ
  ch : Chan Res
  pc : Pc Res

/-- Where `readApplyCh` stands. -/
inductive Loop (Req Res : Type) where
  | reading
  /-- `DoOp` has returned. -/
  | done (index : ℕ) (op : Op Req) (res : Res)
  | notified (index : ℕ)

/-- An `RSM`; `applied` is the index up to which Raft has handed over entries. A channel is named by
    the Submit that made it. -/
structure RSM (σ Req Res : Type) where
  sm : σ
  applied : ℕ
  chMap : ℕ → Option ℕ
  hashNumMap : ℕ → Option ℕ
  mu : Option ℕ
  loop : Loop Req Res

inductive Ev (Srv Req Res : Type) where
  | called (c : ℕ) (srv : Srv) (req : Req)
  | started (c index : ℕ) (op : Op Req)
  | committed (c index : ℕ) (op : Op Req)
  | applied (srv : Srv) (index : ℕ) (op : Op Req) (res : Res)
  | returned (c : ℕ) (err : Err) (res : Option Res)
  deriving DecidableEq

structure System (σ Srv Req Res : Type) where
  rsm : Srv → RSM σ Req Res
  submits : List (Submit Srv Req Res)
  /-- What `Start` was given: the Submit, the index, the entry. -/
  started : List (ℕ × ℕ × Op Req)
  /-- The committed entries. -/
  log : List (Op Req)
  snaps : List (ℕ × σ)
  hist : List (Ev Srv Req Res)

/-- A step of a Submit. -/
inductive Turn where
  | getState (isLeader : Bool)
  /-- `mu` is taken, a number is drawn and `Start` answers `!ok` or an index and a term. -/
  | start (hashNum : ℕ) (answer : Option (ℕ × ℕ))
  | register
  | receive
  /-- The check after 20 ms. -/
  | tick (isLeader : Bool) (newTerm : ℕ)
  /-- The timeout after 1 s. -/
  | timeout
  | cleanup

inductive Action (Srv Req : Type) where
  | submit (srv : Srv) (req : Req)
  | turn (c : ℕ) (t : Turn)
  | commit (k : ℕ)
  | deliver (srv : Srv)
  | notify (srv : Srv)
  | snapshot (srv : Srv) (take : Bool)
  | restore (srv : Srv) (k : ℕ)

/-! ## 2. The system -/

namespace System

variable (m : Machine σ Req Res)

def init : System σ Srv Req Res :=
  ⟨fun _ => ⟨m.init, 0, fun _ => none, fun _ => none, none, .reading⟩, [], [], [], [], []⟩

def goto (s : System σ Srv Req Res) (c : ℕ) (x : Submit Srv Req Res) (pc : Pc Res) :
    System σ Srv Req Res := { s with submits := s.submits.set c { x with pc := pc } }

def ret (s : System σ Srv Req Res) (c : ℕ) (x : Submit Srv Req Res) (err : Err)
    (res : Option Res) : System σ Srv Req Res :=
  { s.goto c x (.returned err res) with hist := s.hist ++ [.returned c err res] }

/-- The channel of Submit `c` is sent to or closed. -/
def onChan (submits : List (Submit Srv Req Res)) (c : ℕ) (f : Chan Res → Option (Chan Res)) :
    Option (List (Submit Srv Req Res)) := do
  let y ← submits[c]?
  let ch ← f y.ch
  some (submits.set c { y with ch := ch })

/-- A Submit that was registered at the index is told that its entry is lost. -/
def closeOld (submits : List (Submit Srv Req Res)) : Option ℕ → Option (List (Submit Srv Req Res))
  | some oldCh => onChan submits oldCh Chan.close
  | none => some submits

/-- A Submit that waits at the index gets the answer, if the entry is its own. -/
def wake (submits : List (Submit Srv Req Res)) (own : Bool) (res : Res) :
    Option ℕ → Option (List (Submit Srv Req Res))
  | some ch => if own then onChan submits ch (·.send res) else onChan submits ch Chan.close
  | none => some submits

variable [DecidableEq Srv]

def setRsm (s : System σ Srv Req Res) (srv : Srv) (r : RSM σ Req Res) : System σ Srv Req Res :=
  { s with rsm := Function.update s.rsm srv r }

/-- Submit `c`, which is `x`, goes on. -/
def turn (s : System σ Srv Req Res) (c : ℕ) (x : Submit Srv Req Res) :
    Turn → Option (System σ Srv Req Res)
  | .getState isLeader =>
      match x.pc with
      | .called =>
          if isLeader then some (s.goto c x .leading) else some (s.ret c x .errWrongLeader none)
      | _ => none
  | .start hashNum answer =>
      match x.pc, (s.rsm x.srv).mu with
      | .leading, none =>
          if s.submits.all fun y => y.hashNum ≠ some hashNum then
            match answer with
            | none => some (s.ret c { x with hashNum := some hashNum } .errWrongLeader none)
            | some (logId, term) =>
                let op : Op Req := ⟨x.req, hashNum⟩
                let s' := s.goto c { x with hashNum := some hashNum } (.locked logId term)
                some { s'.setRsm x.srv { s.rsm x.srv with mu := some c } with
                  started := s.started ++ [(c, logId, op)]
                  hist := s.hist ++ [.started c logId op] }
          else none
      | _, _ => none
  | .register =>
      match x.pc with
      | .locked logId term => do
          let r := s.rsm x.srv
          let submits ← closeOld s.submits (r.chMap logId)
          let s' := { s with submits := submits }.goto c x (.waiting logId term)
          some (s'.setRsm x.srv { r with
            hashNumMap := Function.update r.hashNumMap logId x.hashNum
            chMap := Function.update r.chMap logId (some c)
            mu := none })
      | _ => none
  | .receive =>
      match x.pc with
      | .waiting _ _ =>
          match x.ch.buf with
          | some res => some (s.ret c { x with ch := { x.ch with buf := none } } .ok (some res))
          | none => if x.ch.closed then some (s.ret c x .errWrongLeader none) else none
      | _ => none
  | .tick isLeader newTerm =>
      match x.pc with
      | .waiting logId term =>
          if !isLeader ∨ newTerm ≠ term then some (s.goto c x (.cleanup logId)) else some s
      | _ => none
  | .timeout =>
      match x.pc with
      | .waiting logId _ => some (s.goto c x (.cleanup logId))
      | _ => none
  | .cleanup =>
      match x.pc, (s.rsm x.srv).mu with
      | .cleanup logId, none =>
          let r := s.rsm x.srv
          some ((s.ret c x .errWrongLeader none).setRsm x.srv { r with
            chMap := Function.update r.chMap logId none
            hashNumMap := Function.update r.hashNumMap logId none })
      | _, _ => none

/-- Raft hands the next entry to the server and `DoOp` executes it. -/
def deliver (s : System σ Srv Req Res) (srv : Srv) : Option (System σ Srv Req Res) :=
  let r := s.rsm srv
  match r.loop, s.log[r.applied]? with
  | .reading, some op =>
      let (sm, res) := m.step (r.applied + 1) r.sm op.opcommad
      let r' := { r with sm := sm, applied := r.applied + 1, loop := .done (r.applied + 1) op res }
      some { s.setRsm srv r' with hist := s.hist ++ [.applied srv (r.applied + 1) op res] }
  | _, _ => none

/-- `readApplyCh` looks for a waiting Submit at the index. -/
def notify (s : System σ Srv Req Res) (srv : Srv) : Option (System σ Srv Req Res) :=
  let r := s.rsm srv
  match r.loop, r.mu with
  | .done index op res, none => do
      let submits ← wake s.submits (r.hashNumMap index = some op.hashNum) res (r.chMap index)
      some ({ s with submits := submits }.setRsm srv { r with
        hashNumMap := Function.update r.hashNumMap index none
        chMap := Function.update r.chMap index none
        loop := .notified index })
  | _, _ => none

def next (s : System σ Srv Req Res) : Action Srv Req → Option (System σ Srv Req Res)
  | .submit srv req =>
      some { s with
        submits := s.submits ++ [⟨srv, req, none, .make, .called⟩]
        hist := s.hist ++ [.called s.submits.length srv req] }
  | .turn c t => do
      let x ← s.submits[c]?
      s.turn c x t
  | .commit k => do
      let (c, index, op) ← s.started[k]?
      if index = s.log.length + 1 then
        some { s with log := s.log ++ [op], hist := s.hist ++ [.committed c index op] }
      else none
  | .deliver srv => s.deliver m srv
  | .notify srv => s.notify srv
  | .snapshot srv take =>
      let r := s.rsm srv
      match r.loop with
      | .notified index =>
          some { s.setRsm srv { r with loop := .reading } with
            snaps := if take then s.snaps ++ [(index, r.sm)] else s.snaps }
      | _ => none
  | .restore srv k => do
      let (index, sm) ← s.snaps[k]?
      let r := s.rsm srv
      match r.loop with
      | .reading =>
          if r.applied < index then some (s.setRsm srv { r with sm := sm, applied := index })
          else none
      | _ => none

def Reachable (s : System σ Srv Req Res) : Prop :=
  ReflTransGen (fun s s' => ∃ act, s.next m act = some s') (.init m) s

end System

/-! ## 3. What a Submit can do -/

section Turned

variable [DecidableEq Srv]

/-- The branches of `turn` in which the Submit goes on. -/
inductive Turned (s : System σ Srv Req Res) (c : ℕ) (x : Submit Srv Req Res) :
    Turn → System σ Srv Req Res → Prop where
  | lead (hpc : x.pc = .called) : Turned s c x (.getState true) (s.goto c x .leading)
  | refused (hpc : x.pc = .called) :
      Turned s c x (.getState false) (s.ret c x .errWrongLeader none)
  | rejected (n) (hpc : x.pc = .leading) (hfresh : ∀ y ∈ s.submits, y.hashNum ≠ some n) :
      Turned s c x (.start n none) (s.ret c { x with hashNum := some n } .errWrongLeader none)
  | start (n logId term) (hpc : x.pc = .leading) (hfresh : ∀ y ∈ s.submits, y.hashNum ≠ some n) :
      Turned s c x (.start n (some (logId, term)))
        { (s.goto c { x with hashNum := some n } (.locked logId term)).setRsm x.srv
            { s.rsm x.srv with mu := some c } with
          started := s.started ++ [(c, logId, ⟨x.req, n⟩)]
          hist := s.hist ++ [.started c logId ⟨x.req, n⟩] }
  | register (logId term submits) (hpc : x.pc = .locked logId term)
      (hold : System.closeOld s.submits ((s.rsm x.srv).chMap logId) = some submits) :
      Turned s c x .register
        (({ s with submits := submits }.goto c x (.waiting logId term)).setRsm x.srv
          { s.rsm x.srv with
            hashNumMap := Function.update (s.rsm x.srv).hashNumMap logId x.hashNum
            chMap := Function.update (s.rsm x.srv).chMap logId (some c)
            mu := none })
  | take (logId term res) (hpc : x.pc = .waiting logId term) (hbuf : x.ch.buf = some res) :
      Turned s c x .receive (s.ret c { x with ch := { x.ch with buf := none } } .ok (some res))
  | lost (logId term) (hpc : x.pc = .waiting logId term) (hbuf : x.ch.buf = none)
      (hclosed : x.ch.closed = true) :
      Turned s c x .receive (s.ret c x .errWrongLeader none)
  | tickOut (logId term isLeader newTerm) (hpc : x.pc = .waiting logId term)
      (hlost : isLeader = false ∨ newTerm ≠ term) :
      Turned s c x (.tick isLeader newTerm) (s.goto c x (.cleanup logId))
  | tickOn (isLeader newTerm) : Turned s c x (.tick isLeader newTerm) s
  | timeOut (logId term) (hpc : x.pc = .waiting logId term) :
      Turned s c x .timeout (s.goto c x (.cleanup logId))
  | cleanup (logId) (hpc : x.pc = .cleanup logId) :
      Turned s c x .cleanup
        ((s.ret c x .errWrongLeader none).setRsm x.srv
          { s.rsm x.srv with
            chMap := Function.update (s.rsm x.srv).chMap logId none
            hashNumMap := Function.update (s.rsm x.srv).hashNumMap logId none })

variable {s s' : System σ Srv Req Res} {c : ℕ} {x : Submit Srv Req Res} {t : Turn}

/-- **What a step of a Submit can do.** -/
theorem turned (ht : s.turn c x t = some s') : Turned s c x t s' := by
  cases t with
  | getState isLeader =>
      simp only [System.turn] at ht
      split at ht
      next hpc =>
        cases isLeader with
        | true =>
            cases ht
            exact .lead hpc
        | false =>
            cases ht
            exact .refused hpc
      next => cases ht
  | start n answer =>
      simp only [System.turn] at ht
      split at ht
      next hpc hmu =>
        split at ht
        next hall =>
          have hfresh : ∀ y ∈ s.submits, y.hashNum ≠ some n := fun y hy =>
            of_decide_eq_true (List.all_eq_true.mp hall y hy)
          cases answer with
          | none =>
              cases ht
              exact .rejected n hpc hfresh
          | some a =>
              cases ht
              exact .start n a.1 a.2 hpc hfresh
        next => cases ht
      next => cases ht
  | register =>
      simp only [System.turn] at ht
      split at ht
      next logId term hpc =>
        obtain ⟨submits, hs, ht⟩ := Option.bind_eq_some_iff.mp ht
        cases ht
        exact .register logId term submits hpc hs
      next => cases ht
  | receive =>
      simp only [System.turn] at ht
      split at ht
      next logId term hpc =>
        split at ht
        next res hbuf =>
          cases ht
          exact .take logId term res hpc hbuf
        next hbuf =>
          split at ht
          next hclosed =>
            cases ht
            exact .lost logId term hpc hbuf hclosed
          next => cases ht
      next => cases ht
  | tick isLeader newTerm =>
      simp only [System.turn] at ht
      split at ht
      next logId term hpc =>
        split at ht
        next hlost =>
          cases ht
          refine .tickOut logId term isLeader newTerm hpc ?_
          simpa using hlost
        next =>
          cases ht
          exact .tickOn isLeader newTerm
      next => cases ht
  | timeout =>
      simp only [System.turn] at ht
      split at ht
      next logId term hpc =>
        cases ht
        exact .timeOut logId term hpc
      next => cases ht
  | cleanup =>
      simp only [System.turn] at ht
      split at ht
      next logId hpc hmu =>
        cases ht
        exact .cleanup logId hpc
      next => cases ht

/-- **What `readApplyCh` does under the lock.** -/
theorem notified {srv : Srv} (ht : s.notify srv = some s') :
    ∃ index op res submits, (s.rsm srv).loop = .done index op res ∧
      System.wake s.submits ((s.rsm srv).hashNumMap index = some op.hashNum) res
        ((s.rsm srv).chMap index) = some submits ∧
      s' = { s with submits := submits }.setRsm srv { s.rsm srv with
        hashNumMap := Function.update (s.rsm srv).hashNumMap index none
        chMap := Function.update (s.rsm srv).chMap index none
        loop := .notified index } := by
  simp only [System.notify] at ht
  split at ht
  next index op res hloop _ =>
    obtain ⟨submits, hs, ht⟩ := Option.bind_eq_some_iff.mp ht
    cases ht
    exact ⟨index, op, res, submits, hloop, hs, rfl⟩
  next => cases ht

/-- The branches of `next` that are steps. -/
inductive Stepped (m : Machine σ Req Res) (s : System σ Srv Req Res) :
    Action Srv Req → System σ Srv Req Res → Prop where
  | submit {srv req} : Stepped m s (.submit srv req) { s with
      submits := s.submits ++ [⟨srv, req, none, .make, .called⟩]
      hist := s.hist ++ [.called s.submits.length srv req] }
  | turn {c : ℕ} {x : Submit Srv Req Res} {t : Turn} {s' : System σ Srv Req Res}
      (hx : s.submits[c]? = some x) (ht : s.turn c x t = some s') : Stepped m s (.turn c t) s'
  | commit {k c index : ℕ} {op : Op Req} (hk : s.started[k]? = some (c, index, op))
      (hidx : index = s.log.length + 1) :
      Stepped m s (.commit k) { s with
        log := s.log ++ [op], hist := s.hist ++ [.committed c index op] }
  | deliver {srv op} (hloop : (s.rsm srv).loop = .reading)
      (hop : s.log[(s.rsm srv).applied]? = some op) :
      Stepped m s (.deliver srv)
        { s.setRsm srv { s.rsm srv with
            sm := (m.step ((s.rsm srv).applied + 1) (s.rsm srv).sm op.opcommad).1
            applied := (s.rsm srv).applied + 1
            loop := .done ((s.rsm srv).applied + 1) op
              (m.step ((s.rsm srv).applied + 1) (s.rsm srv).sm op.opcommad).2 } with
          hist := s.hist ++ [.applied srv ((s.rsm srv).applied + 1) op
            (m.step ((s.rsm srv).applied + 1) (s.rsm srv).sm op.opcommad).2] }
  | notify {srv : Srv} {s' : System σ Srv Req Res} (ht : s.notify srv = some s') :
      Stepped m s (.notify srv) s'
  | snapshot {srv index} (take : Bool) (hloop : (s.rsm srv).loop = .notified index) :
      Stepped m s (.snapshot srv take) { s.setRsm srv { s.rsm srv with loop := .reading } with
        snaps := if take then s.snaps ++ [(index, (s.rsm srv).sm)] else s.snaps }
  | restore {srv k index sm} (hk : s.snaps[k]? = some (index, sm))
      (hloop : (s.rsm srv).loop = .reading) (hlt : (s.rsm srv).applied < index) :
      Stepped m s (.restore srv k) (s.setRsm srv { s.rsm srv with sm := sm, applied := index })

/-- **What a step can be.** -/
theorem stepped {m : Machine σ Req Res} {act : Action Srv Req} (hn : s.next m act = some s') :
    Stepped m s act s' := by
  cases act with
  | submit srv req =>
      cases hn
      exact .submit
  | turn c t =>
      obtain ⟨x, hx, ht⟩ := Option.bind_eq_some_iff.mp hn
      exact .turn hx ht
  | commit k =>
      obtain ⟨⟨c, index, op⟩, hk, hn⟩ := Option.bind_eq_some_iff.mp hn
      dsimp only at hn
      split at hn
      next hidx =>
        cases hn
        exact .commit hk hidx
      next => cases hn
  | deliver srv =>
      simp only [System.next, System.deliver] at hn
      split at hn
      next op hloop hop =>
        cases hn
        exact .deliver hloop hop
      next => cases hn
  | notify srv => exact .notify hn
  | snapshot srv take =>
      simp only [System.next] at hn
      split at hn
      next index hloop =>
        cases hn
        exact .snapshot take hloop
      next => cases hn
  | restore srv k =>
      obtain ⟨⟨index, sm⟩, hk, hn⟩ := Option.bind_eq_some_iff.mp hn
      dsimp only at hn
      split at hn
      next hloop =>
        split at hn
        next hlt =>
          cases hn
          exact .restore hk hloop hlt
        next => cases hn
      next => cases hn

/-- A Submit returns `OK` or `ErrWrongLeader`. -/
def Ev.CodeOk : Ev Srv Req Res → Prop
  | .returned _ err _ => err = .ok ∨ err = .errWrongLeader
  | _ => True

/-- **What a step adds to the history.** -/
theorem next_hist {m : Machine σ Req Res} {act : Action Srv Req} (hn : s.next m act = some s') :
    s'.hist = s.hist ∨ ∃ e : Ev Srv Req Res, s'.hist = s.hist ++ [e] ∧ e.CodeOk := by
  cases stepped hn with
  | submit | commit | deliver => exact Or.inr ⟨_, rfl, trivial⟩
  | turn _ ht =>
      cases turned ht with
      | lead | register | tickOut | tickOn | timeOut => exact Or.inl rfl
      | refused | rejected | lost | cleanup => exact Or.inr ⟨_, rfl, Or.inr rfl⟩
      | start => exact Or.inr ⟨_, rfl, trivial⟩
      | take => exact Or.inr ⟨_, rfl, Or.inl rfl⟩
  | notify ht =>
      obtain ⟨_, _, _, _, _, _, rfl⟩ := notified ht
      exact Or.inl rfl
  | snapshot | restore => exact Or.inl rfl

end Turned

end RaftLab.Kvraft1.Rsm

/-
  File:      RaftLab/Kvraft1/Waiters.lean
  Subject:   The channels that Submits wait on (Rsm.lean): who sends, closes and removes them.

  `Board` is the part of the system that this is about: the Submits with their channels, and the two
  maps of every server. `Move` says once what a step can do to it, `next_move` that a step does
  nothing else; the invariants are shown over `Move`.

  * `channels_safe` -- **a registered channel is open and empty**, so that neither a send nor a
    `close` fails.
  * `cleanup_steals` -- a clean-up deletes by index, and takes another Submit's channel away.
  * `waiter_kept` -- **if no clean-up finds a channel that is not its own** and a result that is
    there is taken, a channel leaves the map in three ways only, and a Submit whose entry is applied
    gets the result.
-/
import RaftLab.Kvraft1.RsmSafety

namespace RaftLab.Kvraft1.Rsm

open RaftLab.Lib Relation
open RaftLab.Kvsrv1 (Err)

variable {σ Srv Req Res : Type}

/-! ## 1. What a step does to the channels -/

structure Board (Srv Req Res : Type) where
  submits : List (Submit Srv Req Res)
  chMap : Srv → ℕ → Option ℕ
  hashNumMap : Srv → ℕ → Option ℕ

def System.board (s : System σ Srv Req Res) : Board Srv Req Res :=
  ⟨s.submits, fun srv => (s.rsm srv).chMap, fun srv => (s.rsm srv).hashNumMap⟩

/-- What a Submit does without `mu`. -/
inductive Goes (x : Submit Srv Req Res) : Turn → Submit Srv Req Res → Prop where
  | lead (hpc : x.pc = .called) : Goes x (.getState true) { x with pc := .leading }
  | refused (hpc : x.pc = .called) :
      Goes x (.getState false) { x with pc := .returned .errWrongLeader none }
  | rejected (n) (hpc : x.pc = .leading) :
      Goes x (.start n none)
        { x with hashNum := some n, pc := .returned .errWrongLeader none }
  | start (n logId term) (hpc : x.pc = .leading) :
      Goes x (.start n (some (logId, term))) { x with hashNum := some n, pc := .locked logId term }
  | take (logId term res) (hpc : x.pc = .waiting logId term) (hbuf : x.ch.buf = some res) :
      Goes x .receive { x with ch := { x.ch with buf := none }, pc := .returned .ok (some res) }
  | lost (logId term) (hpc : x.pc = .waiting logId term) (hbuf : x.ch.buf = none)
      (hclosed : x.ch.closed = true) :
      Goes x .receive { x with pc := .returned .errWrongLeader none }
  | tickOut (logId term isLeader newTerm) (hpc : x.pc = .waiting logId term)
      (hlost : isLeader = false ∨ newTerm ≠ term) :
      Goes x (.tick isLeader newTerm) { x with pc := .cleanup logId }
  | timeOut (logId term) (hpc : x.pc = .waiting logId term) :
      Goes x .timeout { x with pc := .cleanup logId }

section Moves

variable [DecidableEq Srv]

/-- The map of a server is set at an index. -/
def setAt (f : Srv → ℕ → Option ℕ) (srv : Srv) (i : ℕ) (v : Option ℕ) : Srv → ℕ → Option ℕ :=
  Function.update f srv (Function.update (f srv) i v)

theorem setAt_self (f : Srv → ℕ → Option ℕ) (srv : Srv) (i : ℕ) (v : Option ℕ) :
    setAt f srv i v srv i = v := by simp [setAt]

theorem setAt_of_ne (f : Srv → ℕ → Option ℕ) {srv srv' : Srv} {i i' : ℕ} (v : Option ℕ)
    (h : ¬ (srv' = srv ∧ i' = i)) : setAt f srv i v srv' i' = f srv' i' := by
  by_cases e : srv' = srv
  · subst e
    have hi : i' ≠ i := fun hi => h ⟨rfl, hi⟩
    simp [setAt, hi]
  · simp [setAt, e]

theorem setAt_setAt (f : Srv → ℕ → Option ℕ) (srv : Srv) (i : ℕ) (v w : Option ℕ) :
    setAt (setAt f srv i v) srv i w = setAt f srv i w := by simp [setAt]

/-- What a step does to the board; `loop` is where the readers of the servers stand before it. -/
inductive Move (loop : Srv → Loop Req Res) (b : Board Srv Req Res) :
    Action Srv Req → Board Srv Req Res → Prop where
  | submit (srv req) : Move loop b (.submit srv req)
      { b with submits := b.submits ++ [⟨srv, req, none, .make, .called⟩] }
  | go (c t x x') (hx : b.submits[c]? = some x) (hgo : Goes x t x') :
      Move loop b (.turn c t) { b with submits := b.submits.set c x' }
  | register (c x logId term submits) (hx : b.submits[c]? = some x)
      (hpc : x.pc = .locked logId term)
      (hold : System.closeOld b.submits (b.chMap x.srv logId) = some submits) :
      Move loop b (.turn c .register)
        ⟨submits.set c { x with pc := .waiting logId term }, setAt b.chMap x.srv logId (some c),
          setAt b.hashNumMap x.srv logId x.hashNum⟩
  | cleanup (c x logId) (hx : b.submits[c]? = some x) (hpc : x.pc = .cleanup logId) :
      Move loop b (.turn c .cleanup)
        ⟨b.submits.set c { x with pc := .returned .errWrongLeader none },
          setAt b.chMap x.srv logId none, setAt b.hashNumMap x.srv logId none⟩
  | notify (srv i op res submits) (hloop : loop srv = .done i op res)
      (hwake : System.wake b.submits (b.hashNumMap srv i = some op.hashNum) res (b.chMap srv i) =
        some submits) :
      Move loop b (.notify srv)
        ⟨submits, setAt b.chMap srv i none, setAt b.hashNumMap srv i none⟩
  | rest (act) (hact : ∀ srv, act ≠ .notify srv) : Move loop b act b

variable {s s' : System σ Srv Req Res} {m : Machine σ Req Res}

variable {loop : Srv → Loop Req Res} {act : Action Srv Req} {srv : Srv} {r : RSM σ Req Res}

/-- The maps are set at an index, by the server. -/
theorem Move.of_at {i : ℕ} {c n : Option ℕ} (hrsm : s'.rsm = Function.update s.rsm srv r)
    (hch : r.chMap = Function.update (s.rsm srv).chMap i c)
    (hhash : r.hashNumMap = Function.update (s.rsm srv).hashNumMap i n)
    (h : Move loop s.board act
      ⟨s'.submits, setAt s.board.chMap srv i c, setAt s.board.hashNumMap srv i n⟩) :
    Move loop s.board act s'.board := by
  have h1 := Function.comp_update (fun r : RSM σ Req Res => r.chMap) s.rsm srv r
  have h2 := Function.comp_update (fun r : RSM σ Req Res => r.hashNumMap) s.rsm srv r
  rw [← hrsm, hch] at h1
  rw [← hrsm, hhash] at h2
  have hb : s'.board =
      ⟨s'.submits, setAt s.board.chMap srv i c, setAt s.board.hashNumMap srv i n⟩ :=
    congrArg₂ (Board.mk s'.submits) h1 h2
  rw [hb]
  exact h

/-- The board where the maps are left alone. -/
theorem board_of_same (hrsm : s'.rsm = Function.update s.rsm srv r)
    (hch : r.chMap = (s.rsm srv).chMap) (hhash : r.hashNumMap = (s.rsm srv).hashNumMap) :
    s'.board = { s.board with submits := s'.submits } := by
  have h1 := Function.comp_update (fun r : RSM σ Req Res => r.chMap) s.rsm srv r
  have h2 := Function.comp_update (fun r : RSM σ Req Res => r.hashNumMap) s.rsm srv r
  rw [← hrsm, hch] at h1
  rw [← hrsm, hhash] at h2
  exact congrArg₂ (Board.mk s'.submits) (h1.trans (Function.update_eq_self srv _))
    (h2.trans (Function.update_eq_self srv _))

theorem Move.of_same (hrsm : s'.rsm = Function.update s.rsm srv r)
    (hch : r.chMap = (s.rsm srv).chMap) (hhash : r.hashNumMap = (s.rsm srv).hashNumMap)
    (h : Move loop s.board act { s.board with submits := s'.submits }) :
    Move loop s.board act s'.board := by
  rw [board_of_same hrsm hch hhash]
  exact h

theorem turn_move {c : ℕ} {x : Submit Srv Req Res} (hx : s.submits[c]? = some x) {t : Turn}
    (ht : s.turn c x t = some s') :
    Move loop s.board (.turn c t) s'.board := by
  cases turned ht with
  | lead hpc => exact .go c _ x _ hx (.lead hpc)
  | refused hpc => exact .go c _ x _ hx (.refused hpc)
  | rejected n hpc => exact .go c _ x _ hx (.rejected n hpc)
  | start n logId term hpc =>
      refine .of_same rfl rfl rfl ?_
      exact .go c _ x _ hx (.start n logId term hpc)
  | register logId term submits hpc hold =>
      refine .of_at rfl rfl rfl ?_
      exact .register c x logId term submits hx hpc hold
  | take logId term res hpc hbuf => exact .go c _ x _ hx (.take logId term res hpc hbuf)
  | lost logId term hpc hbuf hclosed => exact .go c _ x _ hx (.lost logId term hpc hbuf hclosed)
  | tickOut logId term isLeader newTerm hpc hlost =>
      exact .go c _ x _ hx (.tickOut logId term isLeader newTerm hpc hlost)
  | tickOn => exact .rest _ fun _ e => by cases e
  | timeOut logId term hpc => exact .go c _ x _ hx (.timeOut logId term hpc)
  | cleanup logId hpc =>
      refine .of_at rfl rfl rfl ?_
      exact .cleanup c x logId hx hpc

theorem notify_move (ht : s.notify srv = some s') :
    Move (fun srv => (s.rsm srv).loop) s.board (.notify srv) s'.board := by
  obtain ⟨index, op, res, submits, hloop, hs, rfl⟩ := notified ht
  refine .of_at rfl rfl rfl ?_
  exact .notify srv index op res submits hloop hs

/-- **What a step does to the channels.** -/
theorem next_move (hn : s.next m act = some s') :
    Move (fun srv => (s.rsm srv).loop) s.board act s'.board := by
  cases stepped hn with
  | @submit srv req => exact .submit srv req
  | turn hx ht => exact turn_move hx ht
  | commit => exact .rest _ fun _ e => by cases e
  | notify ht => exact notify_move ht
  | deliver | snapshot | restore =>
      refine .of_same rfl rfl rfl ?_
      exact .rest _ fun _ e => by cases e

end Moves

/-! ## 2. Registered channels are open and empty -/

/-- Before the Submit registers its channel. -/
def Pc.Early : Pc Res → Prop
  | .called | .leading | .locked _ _ => True
  | _ => False

/-- The Submit has registered at the index and has not returned. -/
def Pc.At (i : ℕ) : Pc Res → Prop
  | .waiting logId _ => logId = i
  | .cleanup logId => logId = i
  | _ => False

/-- **The invariant of the channels.** -/
structure Sound (b : Board Srv Req Res) : Prop where
  early : ∀ (c : ℕ) x, b.submits[c]? = some x → x.pc.Early → x.ch = .make
  drawn : ∀ (c : ℕ) x logId term, b.submits[c]? = some x → x.pc = .locked logId term →
    x.hashNum ≠ none
  waits : ∀ srv i c, b.chMap srv i = some c →
    ∃ x, b.submits[c]? = some x ∧ x.srv = srv ∧ x.pc.At i ∧ x.ch = .make
  keys : ∀ srv i, b.chMap srv i = none ↔ b.hashNumMap srv i = none

section Goes

variable {t : Turn} {x x' : Submit Srv Req Res}

theorem Goes.srv_eq (h : Goes x t x') : x'.srv = x.srv := by
  cases h with
  | lead | refused | rejected | start | take | lost | tickOut | timeOut => rfl

theorem Goes.early (h : Goes x t x') (he : x'.pc.Early) : x.pc.Early ∧ x'.ch = x.ch := by
  cases h with
  | lead hpc =>
      rw [hpc]
      exact ⟨trivial, rfl⟩
  | start _ _ _ hpc =>
      rw [hpc]
      exact ⟨trivial, rfl⟩
  | refused | rejected | take | lost | tickOut | timeOut => exact he.elim

theorem Goes.drawn (h : Goes x t x') {logId term : ℕ} (hpc : x'.pc = .locked logId term) :
    x'.hashNum ≠ none := by
  cases h with
  | start => exact fun e => (by cases e)
  | lead | refused | rejected | take | lost | tickOut | timeOut => cases hpc

/-- A Submit with an empty open channel gives up its wait, and nothing else. -/
theorem Goes.waits (h : Goes x t x') {i : ℕ} (hat : x.pc.At i) (hch : x.ch = .make) :
    x'.pc.At i ∧ x'.ch = .make := by
  cases h with
  | lead hpc =>
      rw [hpc] at hat
      exact hat.elim
  | refused hpc | rejected _ hpc =>
      rw [hpc] at hat
      exact hat.elim
  | start _ _ _ hpc =>
      rw [hpc] at hat
      exact hat.elim
  | take _ _ _ _ hbuf =>
      rw [hch] at hbuf
      cases hbuf
  | lost _ _ _ _ hclosed =>
      rw [hch] at hclosed
      cases hclosed
  | tickOut _ _ _ _ hpc =>
      rw [hpc] at hat
      exact ⟨hat, hch⟩
  | timeOut _ _ hpc =>
      rw [hpc] at hat
      exact ⟨hat, hch⟩

theorem Goes.not_returned (h : Goes x t x') {err : Err} {res : Option Res} :
    x.pc ≠ .returned err res := by
  intro e
  cases h with
  | lead hpc => cases e.symm.trans hpc
  | refused hpc => cases e.symm.trans hpc
  | rejected _ hpc => cases e.symm.trans hpc
  | start _ _ _ hpc => cases e.symm.trans hpc
  | take _ _ _ hpc => cases e.symm.trans hpc
  | lost _ _ hpc => cases e.symm.trans hpc
  | tickOut _ _ _ _ hpc => cases e.symm.trans hpc
  | timeOut _ _ hpc => cases e.symm.trans hpc

/-- A Submit with a result in its channel takes it, or gives up. -/
theorem Goes.full (h : Goes x t x') {i term : ℕ} {res : Res} (hpc : x.pc = .waiting i term)
    (hbuf : x.ch.buf = some res) : x'.pc = .returned .ok (some res) ∨ x'.pc = .cleanup i := by
  cases h with
  | lead hpc' => cases hpc.symm.trans hpc'
  | refused hpc' => cases hpc.symm.trans hpc'
  | rejected _ hpc' => cases hpc.symm.trans hpc'
  | start _ _ _ hpc' => cases hpc.symm.trans hpc'
  | take _ _ _ _ hbuf' =>
      cases hbuf.symm.trans hbuf'
      exact .inl rfl
  | lost _ _ _ hbuf' => cases hbuf.symm.trans hbuf'
  | tickOut _ _ _ _ hpc' =>
      cases hpc.symm.trans hpc'
      exact .inr rfl
  | timeOut _ _ hpc' =>
      cases hpc.symm.trans hpc'
      exact .inr rfl

end Goes

/-- What is looked up after a new Submit was added. -/
theorem lookup_concat {submits : List (Submit Srv Req Res)} {new y : Submit Srv Req Res} {c : ℕ}
    (hy : (submits ++ [new])[c]? = some y) : submits[c]? = some y ∨ y = new := by
  rcases Nat.lt_or_ge c submits.length with hlt | hge
  · exact .inl ((List.getElem?_append_left hlt).symm.trans hy)
  · rw [List.getElem?_append_right hge] at hy
    exact .inr (List.mem_singleton.mp (List.mem_of_getElem? hy))

/-- The channel registered at the index becomes `v`. -/
def Board.tell (b : Board Srv Req Res) (srv : Srv) (i : ℕ) (v : Chan Res) :
    List (Submit Srv Req Res) :=
  match b.chMap srv i with
  | some c => b.submits.modify c fun y => { y with ch := v }
  | none => b.submits

section Boards

variable {b : Board Srv Req Res} {srv srv' : Srv} {i i' c c' : ℕ} {x x' : Submit Srv Req Res}

theorem tell_length (b : Board Srv Req Res) (srv : Srv) (i : ℕ) (v : Chan Res) :
    (b.tell srv i v).length = b.submits.length := by
  unfold Board.tell
  split
  · exact List.length_modify _ _ _
  · rfl

theorem tell_self {v : Chan Res} (h : b.chMap srv i = some c) (hx : b.submits[c]? = some x) :
    (b.tell srv i v)[c]? = some { x with ch := v } := by
  simp [Board.tell, h, hx]

theorem tell_of_ne {v : Chan Res} (h : b.chMap srv i ≠ some c) :
    (b.tell srv i v)[c]? = b.submits[c]? := by
  unfold Board.tell
  split
  next c' hc' =>
    have hne : c' ≠ c := fun e => h (hc'.trans (congrArg some e))
    simp [hne]
  next => rfl

theorem onChan_eq {submits : List (Submit Srv Req Res)} {f : Chan Res → Option (Chan Res)}
    {v : Chan Res} (hx : submits[c]? = some x) (hf : f x.ch = some v) :
    System.onChan submits c f = some (submits.modify c fun y => { y with ch := v }) := by
  rw [List.modify_eq_set_getElem?, hx]
  simp [System.onChan, hx, hf]

/-- `close` does not fail. -/
theorem Sound.closeOld (h : Sound b) (srv : Srv) (i : ℕ) :
    System.closeOld b.submits (b.chMap srv i) = some (b.tell srv i ⟨none, true⟩) := by
  unfold Board.tell
  cases hc : b.chMap srv i with
  | none => rfl
  | some c =>
      obtain ⟨x, hx, _, _, hch⟩ := h.waits srv i c hc
      exact onChan_eq hx (by rw [hch]; rfl)

/-- Neither the send nor `close` fails. -/
theorem Sound.wake (h : Sound b) (srv : Srv) (i : ℕ) (own : Bool) (res : Res) :
    System.wake b.submits own res (b.chMap srv i) =
      some (b.tell srv i (if own then ⟨some res, false⟩ else ⟨none, true⟩)) := by
  unfold Board.tell
  cases hc : b.chMap srv i with
  | none => rfl
  | some c =>
      obtain ⟨x, hx, _, _, hch⟩ := h.waits srv i c hc
      cases own with
      | true =>
          have hsend : x.ch.send res = some ⟨some res, false⟩ := by
            rw [hch]
            rfl
          exact onChan_eq (f := (·.send res)) hx hsend
      | false =>
          have hclose : x.ch.close = some ⟨none, true⟩ := by
            rw [hch]
            rfl
          exact onChan_eq hx hclose

/-- A channel is registered once. -/
theorem Sound.once (h : Sound b) (h1 : b.chMap srv i = some c) (h2 : b.chMap srv' i' = some c) :
    srv' = srv ∧ i' = i := by
  obtain ⟨x, hx, hsrv, hat, _⟩ := h.waits srv i c h1
  obtain ⟨x', hx', hsrv', hat', _⟩ := h.waits srv' i' c h2
  cases hx.symm.trans hx'
  refine ⟨hsrv'.symm.trans hsrv, ?_⟩
  cases hpc : x.pc with
  | waiting logId term =>
      rw [hpc] at hat hat'
      exact hat'.symm.trans hat
  | cleanup logId =>
      rw [hpc] at hat hat'
      exact hat'.symm.trans hat
  | called | leading | locked | returned =>
      rw [hpc] at hat
      exact hat.elim

/-- A Submit changes; if it is registered, it still waits. -/
theorem Sound.set (h : Sound b) (hx : b.submits[c]? = some x) (hsrv : x'.srv = x.srv)
    (hearly : x'.pc.Early → x.pc.Early ∧ x'.ch = x.ch)
    (hdrawn : ∀ logId term, x'.pc = .locked logId term → x'.hashNum ≠ none)
    (hwaits : ∀ i, b.chMap x.srv i = some c → x'.pc.At i ∧ x'.ch = .make) :
    Sound { b with submits := b.submits.set c x' } := by
  have hlt : c < b.submits.length := (List.getElem?_eq_some_iff.mp hx).1
  refine ⟨?_, ?_, ?_, h.keys⟩
  · intro c' y hy he
    by_cases e : c = c'
    · subst e
      cases (List.getElem?_set_self hlt).symm.trans hy
      rw [(hearly he).2]
      exact h.early c x hx (hearly he).1
    · exact h.early c' y ((List.getElem?_set_ne e).symm.trans hy) he
  · intro c' y logId term hy hpc
    by_cases e : c = c'
    · subst e
      cases (List.getElem?_set_self hlt).symm.trans hy
      exact hdrawn logId term hpc
    · exact h.drawn c' y logId term ((List.getElem?_set_ne e).symm.trans hy) hpc
  · intro srv i c' hc'
    obtain ⟨y, hy, hys, hat, hch⟩ := h.waits srv i c' hc'
    by_cases e : c = c'
    · subst e
      cases hx.symm.trans hy
      refine ⟨x', List.getElem?_set_self hlt, hsrv.trans hys, hwaits i ?_⟩
      rw [hys]
      exact hc'
    · exact ⟨y, (List.getElem?_set_ne e).trans hy, hys, hat, hch⟩

variable [DecidableEq Srv]

/-- What is registered at an index is deleted. -/
def Board.unregister (b : Board Srv Req Res) (srv : Srv) (i : ℕ) : Board Srv Req Res :=
  ⟨b.submits, setAt b.chMap srv i none, setAt b.hashNumMap srv i none⟩

theorem Sound.unregister (h : Sound b) (srv : Srv) (i : ℕ) : Sound (b.unregister srv i) := by
  refine ⟨h.early, h.drawn, ?_, ?_⟩
  · intro srv' i' c hc
    by_cases e : srv' = srv ∧ i' = i
    · rw [e.1, e.2] at hc
      cases (setAt_self b.chMap srv i none).symm.trans hc
    · exact h.waits srv' i' c ((setAt_of_ne _ _ e).symm.trans hc)
  · intro srv' i'
    by_cases e : srv' = srv ∧ i' = i
    · rw [e.1, e.2]
      exact ⟨fun _ => setAt_self _ _ _ _, fun _ => setAt_self _ _ _ _⟩
    · show setAt b.chMap srv i none srv' i' = none ↔ setAt b.hashNumMap srv i none srv' i' = none
      rw [setAt_of_ne _ _ e, setAt_of_ne _ _ e]
      exact h.keys srv' i'

/-- What was registered at an index is told and deleted. -/
theorem Sound.tell (h : Sound b) (srv : Srv) (i : ℕ) (v : Chan Res) :
    Sound { b.unregister srv i with submits := b.tell srv i v } := by
  cases hc : b.chMap srv i with
  | none =>
      have he : b.tell srv i v = b.submits := by simp [Board.tell, hc]
      rw [he]
      exact h.unregister srv i
  | some c =>
      obtain ⟨x, hx, hs, hat, _⟩ := h.waits srv i c hc
      have he : b.tell srv i v = b.submits.set c { x with ch := v } := by
        rw [Board.tell, hc]
        simp [List.modify_eq_set_getElem?, hx]
      rw [he]
      have hnot : ¬ x.pc.Early := by
        intro hearly
        cases hpc : x.pc with
        | called | leading | locked =>
            rw [hpc] at hat
            exact hat.elim
        | waiting | cleanup | returned =>
            rw [hpc] at hearly
            exact hearly.elim
      refine (h.unregister srv i).set hx rfl (fun hearly => absurd hearly hnot) ?_ ?_
      · intro logId term hpc
        exact h.drawn c x logId term hx hpc
      · -- the Submit was registered here only
        intro j hj
        by_cases e : x.srv = srv ∧ j = i
        · rw [e.1, e.2] at hj
          cases (setAt_self b.chMap srv i none).symm.trans hj
        · exact absurd (h.once hc ((setAt_of_ne _ _ e).symm.trans hj)) e

/-- A Submit that waits is registered. -/
theorem Sound.register (h : Sound b) (hx : b.submits[c]? = some x) (hat : x.pc.At i)
    (hch : x.ch = .make) {n : Option ℕ} (hn : n ≠ none) :
    Sound ⟨b.submits, setAt b.chMap x.srv i (some c), setAt b.hashNumMap x.srv i n⟩ := by
  refine ⟨h.early, h.drawn, ?_, ?_⟩
  · intro srv' i' c' hc'
    by_cases e : srv' = x.srv ∧ i' = i
    · rw [e.1, e.2] at hc' ⊢
      cases (setAt_self b.chMap x.srv i (some c)).symm.trans hc'
      exact ⟨x, hx, rfl, hat, hch⟩
    · exact h.waits srv' i' c' ((setAt_of_ne _ _ e).symm.trans hc')
  · intro srv' i'
    by_cases e : srv' = x.srv ∧ i' = i
    · rw [e.1, e.2]
      refine ⟨fun hnone => ?_, fun hnone => ?_⟩
      · cases (setAt_self b.chMap x.srv i (some c)).symm.trans hnone
      · exact absurd ((setAt_self b.hashNumMap x.srv i n).symm.trans hnone) hn
    · show setAt b.chMap x.srv i (some c) srv' i' = none ↔
        setAt b.hashNumMap x.srv i n srv' i' = none
      rw [setAt_of_ne _ _ e, setAt_of_ne _ _ e]
      exact h.keys srv' i'

variable {loop : Srv → Loop Req Res} {act : Action Srv Req} {b' : Board Srv Req Res}

/-- **A step keeps the invariant.** -/
theorem Sound.move (h : Sound b) (hm : Move loop b act b') : Sound b' := by
  cases hm with
  | submit srv req =>
      refine ⟨?_, ?_, ?_, h.keys⟩
      · intro c y hy he
        rcases lookup_concat hy with hold | e
        · exact h.early c y hold he
        · rw [e]
      · intro c y logId term hy hpc
        rcases lookup_concat hy with hold | e
        · exact h.drawn c y logId term hold hpc
        · rw [e] at hpc
          cases hpc
      · intro srv' i c hc
        obtain ⟨x, hx, rest⟩ := h.waits srv' i c hc
        exact ⟨x, (List.getElem?_append_left (List.getElem?_eq_some_iff.mp hx).1).trans hx, rest⟩
  | go c t x x' hx hgo =>
      refine h.set hx hgo.srv_eq hgo.early (fun _ _ hpc => hgo.drawn hpc) ?_
      intro i hc
      obtain ⟨y, hy, _, hat, hch⟩ := h.waits x.srv i c hc
      cases hx.symm.trans hy
      exact hgo.waits hat hch
  | register c x logId term submits hx hpc hold =>
      have hnone : ∀ srv i, b.chMap srv i ≠ some c := by
        intro srv i hc
        obtain ⟨y, hy, _, hat, _⟩ := h.waits srv i c hc
        cases hx.symm.trans hy
        rw [hpc] at hat
        exact hat
      have hch : x.ch = .make := h.early c x hx (by rw [hpc]; trivial)
      -- the old channel is closed and deleted, then the Submit waits, then it is registered
      cases (h.closeOld x.srv logId).symm.trans hold
      have h1 := h.tell x.srv logId ⟨none, true⟩
      have hx1 : (b.tell x.srv logId ⟨none, true⟩)[c]? = some x := (tell_of_ne (hnone _ _)).trans hx
      have h2 : Sound { b.unregister x.srv logId with
          submits := (b.tell x.srv logId ⟨none, true⟩).set c
            { x with pc := .waiting logId term } } := by
        refine h1.set hx1 rfl (fun he => he.elim) (fun _ _ e => by cases e) ?_
        intro i hc
        by_cases e : x.srv = x.srv ∧ i = logId
        · rw [e.2] at hc
          cases (setAt_self b.chMap x.srv logId none).symm.trans hc
        · exact absurd ((setAt_of_ne _ _ e).symm.trans hc) (hnone _ _)
      have hlt : c < (b.tell x.srv logId ⟨none, true⟩).length :=
        (List.getElem?_eq_some_iff.mp hx1).1
      have h3 := h2.register (i := logId) (List.getElem?_set_self hlt) rfl hch
        (h.drawn c x logId term hx hpc)
      have e1 : setAt (b.unregister x.srv logId).chMap x.srv logId (some c) = _ :=
        setAt_setAt b.chMap x.srv logId none (some c)
      have e2 : setAt (b.unregister x.srv logId).hashNumMap x.srv logId x.hashNum = _ :=
        setAt_setAt b.hashNumMap x.srv logId none x.hashNum
      rw [← e1, ← e2]
      exact h3
  | cleanup c x logId hx hpc =>
      refine (h.unregister x.srv logId).set hx rfl (fun he => he.elim) (fun _ _ e => by cases e) ?_
      -- it was registered at its index only
      intro i hc
      by_cases e : x.srv = x.srv ∧ i = logId
      · rw [e.2] at hc
        cases (setAt_self b.chMap x.srv logId none).symm.trans hc
      · obtain ⟨y, hy, _, hat, _⟩ := h.waits x.srv i c ((setAt_of_ne _ _ e).symm.trans hc)
        cases hx.symm.trans hy
        rw [hpc] at hat
        exact absurd ⟨rfl, hat.symm⟩ e
  | notify srv i op res submits hloop hwake =>
      cases (h.wake srv i _ res).symm.trans hwake
      exact h.tell srv i _
  | rest => exact h

end Boards

section Reachable

variable [DecidableEq Srv] {m : Machine σ Req Res} {s : System σ Srv Req Res}

omit [DecidableEq Srv] in
theorem sound_init : Sound (System.init m : System σ Srv Req Res).board :=
  ⟨fun _ _ hx => (by cases hx), fun _ _ _ _ hx => (by cases hx), fun _ _ _ hc => (by cases hc),
    fun _ _ => ⟨fun _ => rfl, fun _ => rfl⟩⟩

theorem sound_reachable (h : s.Reachable m) : Sound s.board := by
  refine run_inv (I := fun s : System σ Srv Req Res => Sound s.board) (fun s s' hs hi => ?_) h
    sound_init
  obtain ⟨act, hn⟩ := hs
  exact hi.move (next_move hn)

/-- **The waiter channels are used safely.** In every reachable state, at every server: `chMap` and
    `hashNumMap` have the same keys; a channel in `chMap` is open and its slot is empty; what
    `readApplyCh` does after `DoOp`, with `mu` free, is never blocked and never panics, neither in
    the send nor in `close`; and neither does the `close` of a Submit that registers. -/
theorem channels_safe (h : s.Reachable m) :
    (∀ srv i, (s.rsm srv).chMap i = none ↔ (s.rsm srv).hashNumMap i = none) ∧
    (∀ srv i c, (s.rsm srv).chMap i = some c →
      ∃ x, s.submits[c]? = some x ∧ x.ch.closed = false ∧ x.ch.buf = none) ∧
    (∀ srv i op res, (s.rsm srv).loop = .done i op res → (s.rsm srv).mu = none →
      ∃ s', s.notify srv = some s') ∧
    ∀ (c : ℕ) x logId term, s.submits[c]? = some x → x.pc = .locked logId term →
      ∃ s', s.turn c x .register = some s' := by
  have hsound := sound_reachable h
  refine ⟨hsound.keys, ?_, ?_, ?_⟩
  · intro srv i c hc
    obtain ⟨x, hx, _, _, hch⟩ := hsound.waits srv i c hc
    refine ⟨x, hx, ?_, ?_⟩
    · rw [hch]
      rfl
    · rw [hch]
      rfl
  · intro srv i op res hloop hmu
    have hwake : System.wake s.submits ((s.rsm srv).hashNumMap i = some op.hashNum) res
        ((s.rsm srv).chMap i) = some _ := hsound.wake srv i _ res
    simp only [System.notify, hloop, hmu, hwake]
    exact ⟨_, rfl⟩
  · intro c x logId term hx hpc
    have hold : System.closeOld s.submits ((s.rsm x.srv).chMap logId) = some _ :=
      hsound.closeOld x.srv logId
    simp only [System.turn, hpc, hold]
    exact ⟨_, rfl⟩

/-- Server 0 starts an operation at index 1, loses the lead, and starts another one at index 1; this
    one is committed and executed. The reader is about to send. -/
def reused : List (Action ℕ ℕ) :=
  submitted 0 0 5 70 1 1 ++ submitted 1 0 3 80 1 2 ++ [.commit 1, .deliver 0]

/-- The result the reader is about to send. -/
def Loop.pending {Req Res : Type} : Loop Req Res → Option (ℕ × Op Req × Res)
  | .done i op res => some (i, op, res)
  | .reading => none
  | .notified _ => none

theorem Loop.eq_done {Req Res : Type} {loop : Loop Req Res} {i : ℕ} {op : Op Req} {res : Res}
    (h : loop.pending = some (i, op, res)) : loop = .done i op res := by
  cases loop with
  | done => cases h; rfl
  | reading => cases h
  | notified => cases h

theorem channels_safe_sample :
    ∃ s : System ℕ ℕ ℕ ℕ, s.Reachable adder ∧ (s.rsm 0).chMap 1 = some 1 ∧
      (∃ x, s.submits[1]? = some x ∧ x.ch.closed = false ∧ x.ch.buf = none) ∧
      ∃ s', s.notify 0 = some s' := by
  have hplay : ((play (System.next adder) (.init adder) reused).map fun s =>
      (decide ((s.rsm 0).chMap 1 = some 1 ∧ (s.rsm 0).mu = none), (s.rsm 0).loop.pending)) =
      some (true, some (1, ⟨3, 80⟩, 0)) := by
    decide +kernel
  obtain ⟨s, hs, hv⟩ := Option.map_eq_some_iff.mp hplay
  obtain ⟨hd, hloop⟩ := Prod.mk.inj hv
  obtain ⟨hc, hmu⟩ := of_decide_eq_true hd
  obtain ⟨_, hopen, hnotify, _⟩ := channels_safe (play_run hs)
  exact ⟨s, play_run hs, hc, hopen 0 1 1 hc, hnotify 0 1 _ _ (Loop.eq_done hloop) hmu⟩

end Reachable

/-! ## 3. A channel stays until its owner is answered -/

/-- The steps that do no harm: a clean-up finds its own channel or none at its index, and a Submit
    does not give up with the result in its channel. -/
def System.kept (s : System σ Srv Req Res) : Action Srv Req → Bool
  | .turn c t =>
      match s.submits[c]? with
      | some x =>
          match t, x.pc with
          | .cleanup, .cleanup logId =>
              (s.rsm x.srv).chMap logId = some c ∨ (s.rsm x.srv).chMap logId = none
          | .tick isLeader newTerm, .waiting _ term =>
              x.ch.buf.isNone ∨ isLeader = true ∧ newTerm = term
          | .timeout, _ => x.ch.buf.isNone
          | _, _ => true
      | none => true
  | _ => true

abbrev System.Kept (s : System σ Srv Req Res) (act : Action Srv Req) : Prop := s.kept act = true

section Kept

variable [DecidableEq Srv]

/-- The runs of such steps. -/
def System.KeptRun (m : Machine σ Req Res) : System σ Srv Req Res → System σ Srv Req Res → Prop :=
  ReflTransGen fun s s' => ∃ act, s.Kept act ∧ s.next m act = some s'

variable {m : Machine σ Req Res} {s s' : System σ Srv Req Res} {c i : ℕ}
  {x : Submit Srv Req Res} {srv : Srv} {act : Action Srv Req}

theorem System.KeptRun.reachable (h : System.KeptRun m (.init m) s) : s.Reachable m := by
  unfold System.KeptRun at h
  refine h.lift id ?_
  intro s s' hs
  obtain ⟨act, _, hn⟩ := hs
  exact ⟨act, hn⟩

omit [DecidableEq Srv] in
theorem kept_cleanup (h : s.Kept (.turn c .cleanup)) (hx : s.submits[c]? = some x)
    (hpc : x.pc = .cleanup i) :
    (s.rsm x.srv).chMap i = some c ∨ (s.rsm x.srv).chMap i = none := by
  simpa [System.Kept, System.kept, hx, hpc] using h

omit [DecidableEq Srv] in
/-- Who gives up has nothing in its channel. -/
theorem kept_goes {t : Turn} {x' : Submit Srv Req Res} (h : s.Kept (.turn c t))
    (hx : s.submits[c]? = some x) (hgo : Goes x t x') (hpc : x'.pc = .cleanup i) :
    x.ch.buf = none := by
  cases hgo with
  | tickOut logId term isLeader newTerm hw hlost =>
      simp only [System.Kept, System.kept, hx, hw] at h
      rcases of_decide_eq_true h with hnone | ⟨hl, ht⟩
      · exact Option.isNone_iff_eq_none.mp hnone
      · rcases hlost with hl' | ht'
        · exact absurd hl (by simp [hl'])
        · exact absurd ht ht'
  | timeOut logId term hw =>
      simp only [System.Kept, System.kept, hx] at h
      exact Option.isNone_iff_eq_none.mp h
  | lead | refused | rejected | start | take | lost => cases hpc

/-- **A channel leaves the map in three ways**: by the clean-up of its Submit, by a Submit that
    registers at the index, which closes it, or by the reader at this index. -/
theorem removed_by (h : Sound s.board) (hkept : s.Kept act) (hn : s.next m act = some s')
    (hc : (s.rsm srv).chMap i = some c) (hgone : (s'.rsm srv).chMap i ≠ some c) :
    act = .turn c .cleanup ∨
    (∃ c' x term y, act = .turn c' .register ∧ s.submits[c']? = some x ∧ x.srv = srv ∧
      x.pc = .locked i term ∧ s'.submits[c]? = some y ∧ y.ch.closed = true) ∨
    act = .notify srv ∧ ∃ op res, (s.rsm srv).loop = .done i op res := by
  have hc' : s.board.chMap srv i = some c := hc
  have hgone' : s'.board.chMap srv i ≠ some c := hgone
  have hmove := next_move hn
  generalize hb : s'.board = b' at hmove hgone'
  cases hmove with
  | submit | go | rest => exact absurd hc hgone'
  | register c1 x logId term submits hx hpc hold =>
      by_cases e : srv = x.srv ∧ i = logId
      · rw [e.1, e.2] at hc'
        obtain ⟨y, hy, _, hat, _⟩ := h.waits _ _ _ hc'
        have hne : c1 ≠ c := by
          intro hce
          subst hce
          cases hx.symm.trans hy
          rw [hpc] at hat
          exact hat
        cases (h.closeOld x.srv logId).symm.trans hold
        refine .inr (.inl ⟨c1, x, term, { y with ch := ⟨none, true⟩ }, rfl, hx, e.1.symm, e.2 ▸ hpc,
          ?_, rfl⟩)
        have hsub : s'.submits = _ := congrArg Board.submits hb
        rw [hsub, List.getElem?_set_ne hne]
        exact tell_self hc' hy
      · exact absurd ((setAt_of_ne _ _ e).trans hc') hgone'
  | cleanup c1 x logId hx hpc =>
      by_cases e : srv = x.srv ∧ i = logId
      · rw [e.1, e.2] at hc
        rcases kept_cleanup hkept hx hpc with hown | hnone
        · cases hc.symm.trans hown
          exact .inl rfl
        · cases hc.symm.trans hnone
      · exact absurd ((setAt_of_ne _ _ e).trans hc') hgone'
  | notify srv1 j op res submits hloop hwake =>
      by_cases e : srv = srv1 ∧ i = j
      · rw [e.1, e.2]
        exact .inr (.inr ⟨rfl, op, res, hloop⟩)
      · exact absurd ((setAt_of_ne _ _ e).trans hc') hgone'

/-- Who waits with an empty open channel is registered, with its number. -/
def Held (b : Board Srv Req Res) : Prop :=
  ∀ (c : ℕ) x i term, b.submits[c]? = some x → x.pc = .waiting i term → x.ch = .make →
    b.chMap x.srv i = some c ∧ b.hashNumMap x.srv i = x.hashNum

omit [DecidableEq Srv] in
/-- What is not registered at the index stays as it is when the index is cleared. -/
theorem Held.tell {b : Board Srv Req Res} (h : Held b) {srv : Srv} {i : ℕ} {v : Chan Res}
    (hv : v ≠ .make) {c : ℕ} {x : Submit Srv Req Res} {j term : ℕ}
    (hx : (b.tell srv i v)[c]? = some x) (hpc : x.pc = .waiting j term) (hch : x.ch = .make) :
    ¬ (x.srv = srv ∧ j = i) ∧ b.chMap x.srv j = some c ∧ b.hashNumMap x.srv j = x.hashNum := by
  by_cases hc : b.chMap srv i = some c
  · have hlt : c < b.submits.length := by
      rw [← tell_length b srv i v]
      exact (List.getElem?_eq_some_iff.mp hx).1
    have hself : (b.tell srv i v)[c]? = _ := tell_self hc (List.getElem?_eq_getElem hlt)
    cases hself.symm.trans hx
    exact absurd hch hv
  · obtain ⟨h1, h2⟩ := h c x j term ((tell_of_ne hc).symm.trans hx) hpc hch
    refine ⟨?_, h1, h2⟩
    intro e
    rw [e.1, e.2] at h1
    exact hc h1

/-- **A step that does no harm keeps who waits registered.** -/
theorem held_next (h : Sound s.board) (hheld : Held s.board) (hkept : s.Kept act)
    (hn : s.next m act = some s') : Held s'.board := by
  have hmove := next_move hn
  generalize s'.board = b' at hmove
  intro c y j t hy hpc hch
  cases hmove with
  | submit srv req =>
      rcases lookup_concat hy with hold | e
      · exact hheld c y j t hold hpc hch
      · rw [e] at hpc
        cases hpc
  | go c1 t1 x x' hx hgo =>
      by_cases e : c1 = c
      · subst e
        have hlt := (List.getElem?_eq_some_iff.mp hx).1
        cases (List.getElem?_set_self hlt).symm.trans hy
        cases hgo with
        | lead | refused | rejected | start | take | lost | tickOut | timeOut => cases hpc
      · exact hheld c y j t ((List.getElem?_set_ne e).symm.trans hy) hpc hch
  | register c1 x logId term submits hx hlocked hold =>
      cases (h.closeOld x.srv logId).symm.trans hold
      have hlt : c1 < (s.board.tell x.srv logId ⟨none, true⟩).length := by
        rw [tell_length]
        exact (List.getElem?_eq_some_iff.mp hx).1
      by_cases e : c1 = c
      · subst e
        cases (List.getElem?_set_self hlt).symm.trans hy
        cases hpc
        exact ⟨setAt_self _ _ _ _, setAt_self _ _ _ _⟩
      · -- a Submit that was registered here is closed now
        obtain ⟨hne, h1, h2⟩ := hheld.tell (fun e => by cases e)
          ((List.getElem?_set_ne e).symm.trans hy) hpc hch
        exact ⟨(setAt_of_ne _ _ hne).trans h1, (setAt_of_ne _ _ hne).trans h2⟩
  | cleanup c1 x logId hx hclean =>
      have hlt := (List.getElem?_eq_some_iff.mp hx).1
      by_cases e : c1 = c
      · subst e
        cases (List.getElem?_set_self hlt).symm.trans hy
        cases hpc
      · obtain ⟨h1, h2⟩ := hheld c y j t ((List.getElem?_set_ne e).symm.trans hy) hpc hch
        have hne : ¬ (y.srv = x.srv ∧ j = logId) := by
          intro he
          rw [he.1, he.2] at h1
          rcases kept_cleanup hkept hx hclean with hown | hnone
          · cases h1.symm.trans hown
            exact e rfl
          · cases h1.symm.trans hnone
        exact ⟨(setAt_of_ne _ _ hne).trans h1, (setAt_of_ne _ _ hne).trans h2⟩
  | notify srv i op res submits hloop hwake =>
      cases (h.wake srv i _ res).symm.trans hwake
      obtain ⟨hne, h1, h2⟩ := hheld.tell (fun e => by split at e <;> cases e) hy hpc hch
      exact ⟨(setAt_of_ne _ _ hne).trans h1, (setAt_of_ne _ _ hne).trans h2⟩
  | rest => exact hheld c y j t hy hpc hch

theorem held_run (h : System.KeptRun m (.init m) s) : Held s.board := by
  have hboth : Sound s.board ∧ Held s.board := by
    refine run_inv (I := fun s : System σ Srv Req Res => Sound s.board ∧ Held s.board)
      (fun s s' hs hi => ?_) h ⟨sound_init, fun _ _ _ _ hx => (by cases hx)⟩
    obtain ⟨act, hkept, hn⟩ := hs
    exact ⟨hi.1.move (next_move hn), held_next hi.1 hi.2 hkept hn⟩
  exact hboth.2

/-- The Submit has its answer: in its channel, or returned. -/
def Answered (c : ℕ) (res : Res) (b : Board Srv Req Res) : Prop :=
  ∃ y, b.submits[c]? = some y ∧
    ((∃ i term, y.pc = .waiting i term) ∧ y.ch = ⟨some res, false⟩ ∨
      y.pc = .returned .ok (some res))

omit [DecidableEq Srv] in
/-- What has its answer is not registered. -/
theorem Answered.not_registered {b : Board Srv Req Res} {res : Res} (h : Answered c res b)
    (hsound : Sound b) (srv : Srv) (i : ℕ) : b.chMap srv i ≠ some c := by
  intro hc
  obtain ⟨x, hx, _, hat, hch⟩ := hsound.waits srv i c hc
  obtain ⟨y, hy, hwait | hret⟩ := h
  · cases hx.symm.trans hy
    cases hch.symm.trans hwait.2
  · cases hx.symm.trans hy
    rw [hret] at hat
    exact hat

/-- **An answer is not lost by a step that does no harm.** -/
theorem Answered.next {res : Res} (h : Answered c res s.board) (hsound : Sound s.board)
    (hkept : s.Kept act) (hn : s.next m act = some s') : Answered c res s'.board := by
  have hreg := h.not_registered hsound
  have hmove := next_move hn
  obtain ⟨y, hy, hans⟩ := h
  generalize s'.board = b' at hmove
  cases hmove with
  | submit srv req =>
      exact ⟨y, (List.getElem?_append_left (List.getElem?_eq_some_iff.mp hy).1).trans hy, hans⟩
  | go c1 t x x' hx hgo =>
      by_cases e : c1 = c
      · subst e
        cases hx.symm.trans hy
        have hlt := (List.getElem?_eq_some_iff.mp hx).1
        refine ⟨x', List.getElem?_set_self hlt, ?_⟩
        rcases hans with ⟨⟨i, term, hpc⟩, hch⟩ | hret
        · have hbuf : y.ch.buf = some res := by rw [hch]
          rcases hgo.full hpc hbuf with hok | hclean
          · exact .inr hok
          · cases hbuf.symm.trans (kept_goes hkept hx hgo hclean)
        · exact absurd hret hgo.not_returned
      · exact ⟨y, (List.getElem?_set_ne e).trans hy, hans⟩
  | register c1 x logId term submits hx hlocked hold =>
      cases (hsound.closeOld x.srv logId).symm.trans hold
      have e : c1 ≠ c := by
        intro e
        subst e
        cases hx.symm.trans hy
        rcases hans with ⟨⟨i, t, hpc⟩, _⟩ | hret
        · cases hlocked.symm.trans hpc
        · cases hlocked.symm.trans hret
      exact ⟨y, (List.getElem?_set_ne e).trans ((tell_of_ne (hreg _ _)).trans hy), hans⟩
  | cleanup c1 x logId hx hclean =>
      have e : c1 ≠ c := by
        intro e
        subst e
        cases hx.symm.trans hy
        rcases hans with ⟨⟨i, t, hpc⟩, _⟩ | hret
        · cases hclean.symm.trans hpc
        · cases hclean.symm.trans hret
      exact ⟨y, (List.getElem?_set_ne e).trans hy, hans⟩
  | notify srv i op r submits hloop hwake =>
      cases (hsound.wake srv i _ r).symm.trans hwake
      exact ⟨y, (tell_of_ne (hreg _ _)).trans hy, hans⟩
  | rest => exact ⟨y, hy, hans⟩

/-- The reader sends the result to the Submit whose entry it has applied. -/
theorem answered_notify (h : s.Reachable m) (hheld : Held s.board) (hx : s.submits[c]? = some x)
    {term : ℕ} (hpc : x.pc = .waiting i term) (hch : x.ch = .make) {op : Op Req} {res : Res}
    (hstart : .started c i op ∈ s.hist) (hloop : (s.rsm x.srv).loop = .done i op res)
    (hn : s.notify x.srv = some s') : Answered c res s'.board := by
  obtain ⟨hreg, hnum⟩ := hheld c x i term hx hpc hch
  obtain ⟨y, hy, hdrawn⟩ := (inv_reachable h).submits.drawn c i op hstart
  cases hx.symm.trans hy
  have hmove := notify_move hn
  generalize s'.board = b' at hmove
  cases hmove with
  | notify _ j op' res' submits hloop' hwake =>
      cases hloop.symm.trans hloop'
      have hown : s.board.hashNumMap x.srv i = some op.hashNum := hnum.trans hdrawn
      rw [decide_eq_true hown, (sound_reachable h).wake x.srv i true res] at hwake
      cases hwake
      exact ⟨_, tell_self hreg hx, .inl ⟨⟨i, term, hpc⟩, rfl⟩⟩
  | rest _ hact => exact absurd rfl (hact _)

/-- **No Submit removes another Submit's waiter**, in every run in which each clean-up finds its own
    channel or none at its index and no Submit gives up with the result in its channel: a channel
    leaves `chMap` by the clean-up of its own Submit, by a Submit that registers at the index and
    closes it, or by the step of the reader for this index; and if the entry that a Submit has started
    is applied while the Submit waits with nothing in its channel, the result is sent to it, stays
    there until the Submit takes it, and `(OK, result)` is what it returns. -/
theorem waiter_kept (h : System.KeptRun m (.init m) s) :
    (∀ act s' srv i c, s.Kept act → s.next m act = some s' → (s.rsm srv).chMap i = some c →
      (s'.rsm srv).chMap i ≠ some c →
        act = .turn c .cleanup ∨
        (∃ c' x term y, act = .turn c' .register ∧ s.submits[c']? = some x ∧ x.srv = srv ∧
          x.pc = .locked i term ∧ s'.submits[c]? = some y ∧ y.ch.closed = true) ∨
        act = .notify srv ∧ ∃ op res, (s.rsm srv).loop = .done i op res) ∧
    ∀ (c : ℕ) x i term op res s' s'', s.submits[c]? = some x → x.pc = .waiting i term →
      x.ch = .make → .started c i op ∈ s.hist → (s.rsm x.srv).loop = .done i op res →
      s.notify x.srv = some s' → System.KeptRun m s' s'' →
        ∃ y, s''.submits[c]? = some y ∧
          (y.pc = .returned .ok (some res) ∨
            ∃ s3, s''.turn c y .receive = some s3 ∧ .returned c .ok (some res) ∈ s3.hist) := by
  have hreach := h.reachable
  refine ⟨?_, ?_⟩
  · intro act s' srv i c hkept hn hc hgone
    exact removed_by (sound_reachable hreach) hkept hn hc hgone
  · intro c x i term op res s' s'' hx hpc hch hstart hloop hn hrun
    have hans := answered_notify hreach (held_run h) hx hpc hch hstart hloop hn
    have hsound : Sound s'.board := (sound_reachable hreach).move (notify_move hn)
    have hboth : Sound s''.board ∧ Answered c res s''.board := by
      refine run_inv (I := fun s : System σ Srv Req Res => Sound s.board ∧ Answered c res s.board)
        (fun s s' hs hi => ?_) hrun ⟨hsound, hans⟩
      obtain ⟨act, hkept, hn⟩ := hs
      exact ⟨hi.1.move (next_move hn), hi.2.next hi.1 hkept hn⟩
    obtain ⟨y, hy, hwait | hret⟩ := hboth.2
    · obtain ⟨⟨j, t, hpc'⟩, hch'⟩ := hwait
      refine ⟨y, hy, .inr ?_⟩
      simp only [System.turn, hpc', hch']
      exact ⟨_, rfl, by simp [System.ret]⟩
    · exact ⟨y, hy, .inl hret⟩

end Kept

section Sample

/-- Server 0 starts operations at the indexes 1 and 2 and loses the lead; server 1 starts one at
    index 1, which is committed and reaches server 0, so that index 2 is free again there. Server 0
    leads again, and Submit 3 is given index 2. While it holds `mu`, the 20 ms check of Submit 1 sees
    the new term. Then Submit 3 registers. -/
def reelected : List (Action ℕ ℕ) :=
  submitted 0 0 5 70 1 1 ++ submitted 1 0 6 71 2 1 ++ submitted 2 1 3 80 1 2 ++
  [.commit 2, .deliver 0, .notify 0, .snapshot 0 false, .turn 0 .receive,
    .submit 0 4, .turn 3 (.getState true), .turn 3 (.start 90 (some (2, 3))),
    .turn 1 (.tick true 3), .turn 3 .register]

/-- Submit `c` of the server waits with nothing in its channel, and the reader has applied its
    entry. -/
def appliedFor (s : System ℕ ℕ ℕ ℕ) (srv c i term : ℕ) (op : Op ℕ) (res : ℕ) : Bool :=
  match s.submits[c]?, (s.rsm srv).loop with
  | some ⟨srv', _, _, ⟨none, false⟩, .waiting logId term'⟩, .done i' op' res' =>
      srv' = srv ∧ logId = i ∧ term' = term ∧ i' = i ∧ op' = op ∧ res' = res ∧
        .started c i op ∈ s.hist
  | _, _ => false

theorem of_appliedFor {s : System ℕ ℕ ℕ ℕ} {srv c i term res : ℕ} {op : Op ℕ}
    (h : appliedFor s srv c i term op res = true) :
    ∃ x, s.submits[c]? = some x ∧ x.srv = srv ∧ x.pc = .waiting i term ∧ x.ch = .make ∧
      .started c i op ∈ s.hist ∧ (s.rsm srv).loop = .done i op res := by
  unfold appliedFor at h
  split at h
  next req n logId term' i' op' res' hx hloop =>
    obtain ⟨e1, e2, e3, e4, e5, e6, hs⟩ := of_decide_eq_true h
    subst e1 e2 e3 e4 e5 e6
    exact ⟨_, hx, rfl, rfl, rfl, hs, hloop⟩
  next => cases h

/-- **The clean-up of Submit 1 takes the channel of Submit 3 away.** The entry of Submit 3 is
    committed and applied at its server while it waits; it gets nothing and returns
    `ErrWrongLeader`. -/
theorem cleanup_steals :
    ∃ s1 s2 s3 s4 : System ℕ ℕ ℕ ℕ, s1.Reachable adder ∧ (s1.rsm 0).chMap 2 = some 3 ∧
      s1.next adder (.turn 1 .cleanup) = some s2 ∧ (s2.rsm 0).chMap 2 = none ∧
      play (System.next adder) s2 [.commit 3, .deliver 0] = some s3 ∧
      (∃ x, s3.submits[3]? = some x ∧ x.srv = 0 ∧ x.pc = .waiting 2 3 ∧ x.ch = .make ∧
        .started 3 2 ⟨4, 90⟩ ∈ s3.hist ∧ (s3.rsm 0).loop = .done 2 ⟨4, 90⟩ 3) ∧
      play (System.next adder) s3 [.notify 0, .turn 3 .timeout, .turn 3 .cleanup] = some s4 ∧
      .returned 3 .errWrongLeader none ∈ s4.hist := by
  have hplay : (do
      let s1 ← play (System.next adder) (.init adder) reelected
      let s2 ← s1.next adder (.turn 1 .cleanup)
      let s3 ← play (System.next adder) s2 [.commit 3, .deliver 0]
      let s4 ← play (System.next adder) s3 [.notify 0, .turn 3 .timeout, .turn 3 .cleanup]
      some (decide ((s1.rsm 0).chMap 2 = some 3 ∧ (s2.rsm 0).chMap 2 = none ∧
        appliedFor s3 0 3 2 3 ⟨4, 90⟩ 3 = true ∧
        .returned 3 .errWrongLeader none ∈ s4.hist))) = some true := by
    decide +kernel
  obtain ⟨s1, h1, hplay⟩ := Option.bind_eq_some_iff.mp hplay
  obtain ⟨s2, h2, hplay⟩ := Option.bind_eq_some_iff.mp hplay
  obtain ⟨s3, h3, hplay⟩ := Option.bind_eq_some_iff.mp hplay
  obtain ⟨s4, h4, hplay⟩ := Option.bind_eq_some_iff.mp hplay
  obtain ⟨hc, hnone, happ, hret⟩ := of_decide_eq_true (Option.some.inj hplay)
  exact ⟨s1, s2, s3, s4, play_run h1, hc, h2, hnone, h3, of_appliedFor happ, h4, hret⟩

/-- Index 1 is used again, and nobody cleans up in between. -/
theorem waiter_kept_sample :
    ∃ s s' : System ℕ ℕ ℕ ℕ, System.KeptRun adder (.init adder) s ∧ s.notify 0 = some s' ∧
      ∃ y, s'.submits[1]? = some y ∧ (y.pc = .returned .ok (some 0) ∨
        ∃ s3, s'.turn 1 y .receive = some s3 ∧ .returned 1 .ok (some 0) ∈ s3.hist) := by
  have hplay : ((play (guarded System.Kept (System.next adder)) (.init adder) reused).map fun s =>
      decide (appliedFor s 0 1 1 2 ⟨3, 80⟩ 0 = true ∧ (s.notify 0).isSome)) = some true := by
    decide +kernel
  obtain ⟨s, hs, hv⟩ := Option.map_eq_some_iff.mp hplay
  obtain ⟨happ, hnotify⟩ := of_decide_eq_true hv
  obtain ⟨s', hn⟩ := Option.isSome_iff_exists.mp hnotify
  obtain ⟨x, hx, hsrv, hpc, hch, hstart, hloop⟩ := of_appliedFor happ
  have hloop' : (s.rsm x.srv).loop = .done 1 ⟨3, 80⟩ 0 := by
    rw [hsrv]
    exact hloop
  have hn' : s.notify x.srv = some s' := by
    rw [hsrv]
    exact hn
  have hrun : System.KeptRun adder (.init adder) s := play_guarded_run hs
  exact ⟨s, s', hrun, hn,
    (waiter_kept hrun).2 1 x 1 2 _ 0 s' s' hx hpc hch hstart hloop' hn' .refl⟩

end Sample

end RaftLab.Kvraft1.Rsm

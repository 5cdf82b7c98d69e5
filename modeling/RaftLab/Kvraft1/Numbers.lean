/-
  File:      RaftLab/Kvraft1/Numbers.lean
  Subject:   What a step does to one Submit, and whose number stands beside a channel.

  `Passes` is what a step can do to one Submit and `registered_of` what it can do to one entry of
  `chMap` (Waiters.lean says the same of the whole board). With them:

  * `Numbered` -- **a number belongs to one Submit, and the number beside a channel is its
    owner's**;
  * `Claimed b srv i` -- a channel is registered at the index, or a Submit that `Start` gave the
    index is about to register; a claim begins with `Start` only (`claimed_of`);
  * `Board.killed` -- what is left of the board when a server's process dies.
-/
import RaftLab.Kvraft1.Waiters

namespace RaftLab.Kvraft1.Rsm

open RaftLab.Lib
open RaftLab.Kvsrv1 (Err)

variable {σ Srv Req Res : Type}

/-! ## 1. One Submit, one entry -/

/-- What a step can do to Submit `c`. -/
inductive Passes (loop : Srv → Loop Req Res) (b : Board Srv Req Res) (act : Action Srv Req) (c : ℕ)
    (y : Submit Srv Req Res) : Submit Srv Req Res → Prop where
  | same : Passes loop b act c y y
  | goes (t y') (hact : act = .turn c t) (hgo : Goes y t y') : Passes loop b act c y y'
  | registers (logId term) (hact : act = .turn c .register) (hpc : y.pc = .locked logId term) :
      Passes loop b act c y { y with pc := .waiting logId term }
  | cleaned (logId) (hpc : y.pc = .cleanup logId) :
      Passes loop b act c y { y with pc := .returned .errWrongLeader none }
  | closed : Passes loop b act c y { y with ch := ⟨none, true⟩ }
  | gets (srv i op res) (hloop : loop srv = .done i op res) (hc : b.chMap srv i = some c)
      (hown : b.hashNumMap srv i = some op.hashNum) :
      Passes loop b act c y { y with ch := ⟨some res, false⟩ }

section Moves

variable [DecidableEq Srv] {loop : Srv → Loop Req Res} {b b' : Board Srv Req Res}
  {act : Action Srv Req} {srv : Srv} {i c : ℕ} {y : Submit Srv Req Res}

omit [DecidableEq Srv] in
/-- What is looked up after one Submit was told. -/
theorem of_tell {v : Chan Res} (hy : (b.tell srv i v)[c]? = some y) :
    b.submits[c]? = some y ∨
      b.chMap srv i = some c ∧ ∃ x, b.submits[c]? = some x ∧ y = { x with ch := v } := by
  by_cases hc : b.chMap srv i = some c
  · have hlt : c < b.submits.length := by
      rw [← tell_length b srv i v]
      exact (List.getElem?_eq_some_iff.mp hy).1
    have hx := List.getElem?_eq_getElem hlt
    exact .inr ⟨hc, _, hx, Option.some.inj (hy.symm.trans (tell_self hc hx))⟩
  · exact .inl ((tell_of_ne hc).symm.trans hy)

/-- **What a step does to one Submit.** -/
theorem Move.submit_of (h : Sound b) (hm : Move loop b act b') (hy : b'.submits[c]? = some y) :
    (c = b.submits.length ∧ ∃ srv req, act = .submit srv req ∧
        y = ⟨srv, req, none, .make, .called⟩) ∨
      ∃ x, b.submits[c]? = some x ∧ Passes loop b act c x y := by
  cases hm with
  | submit srv req =>
      rcases Nat.lt_or_ge c b.submits.length with hlt | hge
      · exact .inr ⟨y, (List.getElem?_append_left hlt).symm.trans hy, .same⟩
      · have hc : c = b.submits.length := by
          have := (List.getElem?_eq_some_iff.mp hy).1
          rw [List.length_append, List.length_singleton] at this
          omega
        subst hc
        rw [List.getElem?_concat_length] at hy
        exact .inl ⟨rfl, srv, req, rfl, (Option.some.inj hy).symm⟩
  | go c1 t x x' hx hgo =>
      by_cases e : c1 = c
      · subst e
        have hlt := (List.getElem?_eq_some_iff.mp hx).1
        cases (List.getElem?_set_self hlt).symm.trans hy
        exact .inr ⟨x, hx, .goes t _ rfl hgo⟩
      · exact .inr ⟨y, (List.getElem?_set_ne e).symm.trans hy, .same⟩
  | register c1 x logId term submits hx hpc hold =>
      cases (h.closeOld x.srv logId).symm.trans hold
      have hlt : c1 < (b.tell x.srv logId ⟨none, true⟩).length := by
        rw [tell_length]
        exact (List.getElem?_eq_some_iff.mp hx).1
      by_cases e : c1 = c
      · subst e
        cases (List.getElem?_set_self hlt).symm.trans hy
        exact .inr ⟨x, hx, .registers logId term rfl hpc⟩
      · rcases of_tell ((List.getElem?_set_ne e).symm.trans hy) with hold | ⟨_, x', hx', rfl⟩
        · exact .inr ⟨y, hold, .same⟩
        · exact .inr ⟨x', hx', .closed⟩
  | cleanup c1 x logId hx hpc =>
      by_cases e : c1 = c
      · subst e
        have hlt := (List.getElem?_eq_some_iff.mp hx).1
        cases (List.getElem?_set_self hlt).symm.trans hy
        exact .inr ⟨x, hx, .cleaned logId hpc⟩
      · exact .inr ⟨y, (List.getElem?_set_ne e).symm.trans hy, .same⟩
  | notify srv i op res submits hloop hwake =>
      cases (h.wake srv i _ res).symm.trans hwake
      rcases of_tell hy with hold | ⟨hc, x, hx, rfl⟩
      · exact .inr ⟨y, hold, .same⟩
      · refine .inr ⟨x, hx, ?_⟩
        by_cases hown : b.hashNumMap srv i = some op.hashNum
        · rw [decide_eq_true hown]
          exact .gets srv i op res hloop hc hown
        · rw [decide_eq_false hown]
          exact .closed
  | rest => exact .inr ⟨y, hy, .same⟩

/-- No Submit is ever taken off the board. -/
theorem Move.submit_to (h : Sound b) (hm : Move loop b act b') {x : Submit Srv Req Res}
    (hx : b.submits[c]? = some x) : ∃ y, b'.submits[c]? = some y ∧ Passes loop b act c x y := by
  have hlt : c < b.submits.length := (List.getElem?_eq_some_iff.mp hx).1
  have hle : b.submits.length ≤ b'.submits.length := by
    cases hm with
    | submit srv req =>
        rw [List.length_append]
        exact Nat.le_add_right _ _
    | go | cleanup => exact Nat.le_of_eq List.length_set.symm
    | register c1 x logId term submits hx hpc hold =>
        cases (h.closeOld x.srv logId).symm.trans hold
        exact Nat.le_of_eq (List.length_set.trans (tell_length _ _ _ _)).symm
    | notify srv i op res submits hloop hwake =>
        cases (h.wake srv i _ res).symm.trans hwake
        exact Nat.le_of_eq (tell_length _ _ _ _).symm
    | rest => exact Nat.le_refl _
  have hy := List.getElem?_eq_getElem (Nat.lt_of_lt_of_le hlt hle)
  rcases hm.submit_of h hy with ⟨e, _⟩ | ⟨x', hx', hpass⟩
  · omega
  · cases hx.symm.trans hx'
    exact ⟨_, hy, hpass⟩

/-- **What a step does to one entry of `chMap`**: it was there, with the same number beside, or its
    Submit has just registered. -/
theorem Move.registered_of (hm : Move loop b act b') (hc : b'.chMap srv i = some c) :
    (b.chMap srv i = some c ∧ b'.hashNumMap srv i = b.hashNumMap srv i) ∨
      ∃ x term, b.submits[c]? = some x ∧ x.srv = srv ∧ x.pc = .locked i term ∧
        act = .turn c .register ∧ b'.hashNumMap srv i = x.hashNum := by
  -- an index that is cleared has no channel
  have cleared : ∀ {srv1 : Srv} {j : ℕ}, setAt b.chMap srv1 j none srv i = some c →
      b.chMap srv i = some c ∧
        setAt b.hashNumMap srv1 j none srv i = b.hashNumMap srv i := by
    intro srv1 j hcl
    by_cases e : srv = srv1 ∧ i = j
    · rw [e.1, e.2] at hcl
      cases (setAt_self b.chMap srv1 j none).symm.trans hcl
    · exact ⟨(setAt_of_ne _ _ e).symm.trans hcl, setAt_of_ne _ _ e⟩
  cases hm with
  | submit | go | rest => exact .inl ⟨hc, rfl⟩
  | register c1 x logId term submits hx hpc hold =>
      by_cases e : srv = x.srv ∧ i = logId
      · rw [e.1, e.2] at hc ⊢
        cases (setAt_self b.chMap x.srv logId (some c1)).symm.trans hc
        exact .inr ⟨x, term, hx, rfl, hpc, rfl, setAt_self _ _ _ _⟩
      · exact .inl ⟨(setAt_of_ne _ _ e).symm.trans hc, setAt_of_ne _ _ e⟩
  | cleanup c1 x logId hx hpc => exact .inl (cleared hc)
  | notify srv1 j op res submits hloop hwake => exact .inl (cleared hc)

end Moves

/-! ## 2. Numbers -/

section Passes

variable {loop : Srv → Loop Req Res} {b : Board Srv Req Res} {act : Action Srv Req} {c : ℕ}
  {x y : Submit Srv Req Res}

/-- The request stays, and a number is drawn with `Start` only, by a Submit that has none. -/
theorem Passes.numbers (h : Passes loop b act c x y) :
    y.srv = x.srv ∧ y.req = x.req ∧ (y.hashNum = x.hashNum ∨
      ∃ n answer, act = .turn c (.start n answer) ∧ x.pc = .leading ∧ y.hashNum = some n) := by
  cases h with
  | same | registers | cleaned | closed | gets => exact ⟨rfl, rfl, .inl rfl⟩
  | goes t y' hact hgo =>
      cases hgo with
      | lead | refused | take | lost | tickOut | timeOut => exact ⟨rfl, rfl, .inl rfl⟩
      | rejected n hpc => exact ⟨rfl, rfl, .inr ⟨n, none, hact, hpc, rfl⟩⟩
      | start n logId term hpc => exact ⟨rfl, rfl, .inr ⟨n, _, hact, hpc, rfl⟩⟩

/-- Nobody goes back before `Start`. -/
theorem Passes.undrawn (h : Passes loop b act c x y) (hpc : y.pc = .called ∨ y.pc = .leading) :
    (x.pc = .called ∨ x.pc = .leading) ∧ y.hashNum = x.hashNum := by
  cases h with
  | same | closed | gets => exact ⟨hpc, rfl⟩
  | registers | cleaned => rcases hpc with e | e <;> cases e
  | goes t y' hact hgo =>
      cases hgo with
      | lead hcalled => exact ⟨.inl hcalled, rfl⟩
      | refused | rejected | start | take | lost | tickOut | timeOut =>
          rcases hpc with e | e <;> cases e

/-- What `Start` gave a Submit an index for. -/
theorem Passes.locked (h : Passes loop b act c x y) {i term : ℕ} (hpc : y.pc = .locked i term) :
    x.pc = .locked i term ∨ ∃ n, act = .turn c (.start n (some (i, term))) ∧ x.pc = .leading := by
  cases h with
  | same | closed | gets => exact .inl hpc
  | registers | cleaned => cases hpc
  | goes t y' hact hgo =>
      cases hgo with
      | start n logId term' hlead =>
          cases hpc
          exact .inr ⟨n, hact, hlead⟩
      | lead | refused | rejected | take | lost | tickOut | timeOut => cases hpc

end Passes

/-- **The invariant of the numbers.** -/
structure Numbered (b : Board Srv Req Res) : Prop where
  undrawn : ∀ (c : ℕ) x, b.submits[c]? = some x → x.pc = .called ∨ x.pc = .leading →
    x.hashNum = none
  unique : ∀ (c c' : ℕ) x x' n, b.submits[c]? = some x → b.submits[c']? = some x' →
    x.hashNum = some n → x'.hashNum = some n → c = c'
  owner : ∀ srv i (c : ℕ) x, b.chMap srv i = some c → b.submits[c]? = some x →
    b.hashNumMap srv i = x.hashNum

section Board

variable [DecidableEq Srv] {loop : Srv → Loop Req Res} {b b' : Board Srv Req Res}
  {act : Action Srv Req} {srv : Srv} {i : ℕ}

/-- The number of `Start` has not been drawn before. -/
def FreshNumber (b : Board Srv Req Res) (act : Action Srv Req) : Prop :=
  ∀ c n answer, act = .turn c (.start n answer) → ∀ y ∈ b.submits, y.hashNum ≠ some n

/-- A number that is there after a step was there before, or was drawn by this Submit. -/
theorem Move.number_of (hs : Sound b) (hm : Move loop b act b') {c n : ℕ}
    {y : Submit Srv Req Res} (hy : b'.submits[c]? = some y) (hn : y.hashNum = some n) :
    (∃ x, b.submits[c]? = some x ∧ x.hashNum = some n ∧ x.req = y.req) ∨
      ∃ answer, act = .turn c (.start n answer) := by
  rcases hm.submit_of hs hy with ⟨_, _, _, _, rfl⟩ | ⟨x, hx, hpass⟩
  · cases hn
  · obtain ⟨_, hreq, hsame | ⟨n', answer, hact, _, hn'⟩⟩ := hpass.numbers
    · exact .inl ⟨x, hx, hsame.symm.trans hn, hreq.symm⟩
    · cases hn'.symm.trans hn
      exact .inr ⟨answer, hact⟩

/-- **A step keeps the invariant of the numbers.** -/
theorem Numbered.move (h : Numbered b) (hs : Sound b) (hm : Move loop b act b')
    (hfresh : FreshNumber b act) : Numbered b' := by
  refine ⟨?_, ?_, ?_⟩
  · intro c y hy hpc
    rcases hm.submit_of hs hy with ⟨_, _, _, _, rfl⟩ | ⟨x, hx, hpass⟩
    · rfl
    · obtain ⟨hpc', hsame⟩ := hpass.undrawn hpc
      exact hsame.trans (h.undrawn c x hx hpc')
  · intro c c' y y' n hy hy' hn hn'
    rcases hm.number_of hs hy hn, hm.number_of hs hy' hn' with
      ⟨⟨x, hx, hxn, _⟩ | ⟨answer, hact⟩, ⟨x', hx', hxn', _⟩ | ⟨answer', hact'⟩⟩
    · exact h.unique c c' x x' n hx hx' hxn hxn'
    · exact absurd hxn (hfresh _ _ _ hact' x (List.mem_of_getElem? hx))
    · exact absurd hxn' (hfresh _ _ _ hact x' (List.mem_of_getElem? hx'))
    · cases hact.symm.trans hact'
      rfl
  · intro srv i c y hc hy
    rcases hm.submit_of hs hy with ⟨_, srv', req, hact, rfl⟩ | ⟨x, hx, hpass⟩
    · -- nobody has registered a Submit that is only now called
      rcases hm.registered_of hc with ⟨hold, _⟩ | ⟨_, _, _, _, _, hact', _⟩
      · obtain ⟨x, hx, _, hat, _⟩ := (hs.move hm).waits srv i c hc
        cases hx.symm.trans hy
        exact hat.elim
      · cases hact.symm.trans hact'
    · obtain ⟨_, _, hnum⟩ := hpass.numbers
      rcases hm.registered_of hc with ⟨hold, hsame⟩ | ⟨x', term, hx', _, hpc, hact, hn⟩
      · rw [hsame, h.owner srv i c x hold hx]
        rcases hnum with e | ⟨_, _, _, hlead, _⟩
        · exact e.symm
        · obtain ⟨z, hz, _, hat, _⟩ := hs.waits srv i c hold
          cases hx.symm.trans hz
          rw [hlead] at hat
          exact hat.elim
      · cases hx.symm.trans hx'
        rw [hn]
        rcases hnum with e | ⟨_, _, _, hlead, _⟩
        · exact e.symm
        · cases hlead.symm.trans hpc

/-! ## 3. Claims -/

omit [DecidableEq Srv] in
/-- Somebody will be told what happens at the index, or is about to ask for it. -/
def Claimed (b : Board Srv Req Res) (srv : Srv) (i : ℕ) : Prop :=
  (∃ c, b.chMap srv i = some c) ∨
    ∃ (c : ℕ) (x : Submit Srv Req Res) (term : ℕ), b.submits[c]? = some x ∧ x.srv = srv ∧
      x.pc = .locked i term

/-- **A claim begins with `Start`.** -/
theorem claimed_of (hs : Sound b) (hm : Move loop b act b') (h : Claimed b' srv i) :
    Claimed b srv i ∨ ∃ (c : ℕ) (x : Submit Srv Req Res) (n term : ℕ),
      act = .turn c (.start n (some (i, term))) ∧ b.submits[c]? = some x ∧ x.srv = srv := by
  rcases h with ⟨c, hc⟩ | ⟨c, y, term, hy, hsrv, hpc⟩
  · rcases hm.registered_of hc with ⟨hold, _⟩ | ⟨x, term, hx, hsrv, hpc, _⟩
    · exact .inl (.inl ⟨c, hold⟩)
    · exact .inl (.inr ⟨c, x, term, hx, hsrv, hpc⟩)
  · rcases hm.submit_of hs hy with ⟨_, _, _, _, rfl⟩ | ⟨x, hx, hpass⟩
    · cases hpc
    · have hsrv' : x.srv = srv := hpass.numbers.1.symm.trans hsrv
      rcases hpass.locked hpc with hold | ⟨n, hact, _⟩
      · exact .inl (.inr ⟨c, x, term, hx, hsrv', hold⟩)
      · exact .inr ⟨c, x, n, term, hact, hx, hsrv'⟩

/-! ## 4. A process dies -/

/-- A Submit that had not returned when its server's process died. -/
def Submit.killed (srv : Srv) (x : Submit Srv Req Res) : Submit Srv Req Res :=
  match x.pc with
  | .returned _ _ => x
  | _ => if x.srv = srv then { x with pc := .returned .errWrongLeader none } else x

/-- The board without the process of the server. -/
def Board.killed (b : Board Srv Req Res) (srv : Srv) : Board Srv Req Res :=
  ⟨b.submits.map (·.killed srv), Function.update b.chMap srv fun _ => none,
    Function.update b.hashNumMap srv fun _ => none⟩

theorem killed_cases (srv : Srv) (x : Submit Srv Req Res) :
    x.killed srv = x ∧ (x.srv ≠ srv ∨ ∃ err res, x.pc = .returned err res) ∨
      x.killed srv = { x with pc := .returned .errWrongLeader none } ∧ x.srv = srv := by
  unfold Submit.killed
  split
  next err res hpc => exact .inl ⟨rfl, .inr ⟨err, res, hpc⟩⟩
  next =>
    by_cases e : x.srv = srv
    · rw [if_pos e]
      exact .inr ⟨rfl, e⟩
    · rw [if_neg e]
      exact .inl ⟨rfl, .inl e⟩

/-- What is looked up after the process has died. -/
theorem of_killed {c : ℕ} {y : Submit Srv Req Res} (hy : (b.killed srv).submits[c]? = some y) :
    ∃ x, b.submits[c]? = some x ∧ y.srv = x.srv ∧ y.req = x.req ∧ y.hashNum = x.hashNum ∧
      y.ch = x.ch ∧ (y.pc = x.pc ∧ (x.srv ≠ srv ∨ ∃ err res, x.pc = .returned err res) ∨
        y.pc = .returned .errWrongLeader none) := by
  obtain ⟨x, hx, rfl⟩ := Option.map_eq_some_iff.mp ((List.getElem?_map ..).symm.trans hy)
  refine ⟨x, hx, ?_⟩
  rcases killed_cases srv x with ⟨e, hwhy⟩ | ⟨e, _⟩
  · rw [e]
    exact ⟨rfl, rfl, rfl, rfl, .inl ⟨rfl, hwhy⟩⟩
  · rw [e]
    exact ⟨rfl, rfl, rfl, rfl, .inr rfl⟩

/-- Nothing is registered at the server any more. -/
theorem killed_chMap {srv' : Srv} {c : ℕ} (hc : (b.killed srv).chMap srv' i = some c) :
    srv' ≠ srv ∧ b.chMap srv' i = some c ∧
      (b.killed srv).hashNumMap srv' i = b.hashNumMap srv' i := by
  by_cases e : srv' = srv
  · subst e
    have hnone : (b.killed srv').chMap srv' i = none := by simp [Board.killed]
    cases hnone.symm.trans hc
  · refine ⟨e, ?_, by simp [Board.killed, e]⟩
    rw [← hc]
    simp [Board.killed, e]

theorem Sound.killed (h : Sound b) (srv : Srv) : Sound (b.killed srv) := by
  refine ⟨?_, ?_, ?_, ?_⟩
  · intro c y hy hearly
    obtain ⟨x, hx, _, _, _, hch, ⟨hpc, _⟩ | hpc⟩ := of_killed hy
    · rw [hch]
      exact h.early c x hx (hpc ▸ hearly)
    · rw [hpc] at hearly
      exact hearly.elim
  · intro c y logId term hy hpc
    obtain ⟨x, hx, _, _, hn, _, ⟨hpc', _⟩ | hpc'⟩ := of_killed hy
    · rw [hn]
      exact h.drawn c x logId term hx (hpc'.symm.trans hpc)
    · cases hpc'.symm.trans hpc
  · intro srv' i c hc
    obtain ⟨hne, hold, _⟩ := killed_chMap hc
    obtain ⟨x, hx, hsrv, hat, hch⟩ := h.waits srv' i c hold
    refine ⟨x, ?_, hsrv, hat, hch⟩
    rcases killed_cases srv x with ⟨e, _⟩ | ⟨_, e⟩
    · show (b.submits.map (·.killed srv))[c]? = some x
      rw [List.getElem?_map, hx]
      exact congrArg some e
    · exact absurd (hsrv.symm.trans e) hne
  · intro srv' i
    by_cases e : srv' = srv
    · subst e
      simp [Board.killed]
    · simpa [Board.killed, e] using h.keys srv' i

theorem Numbered.killed (h : Numbered b) (srv : Srv) : Numbered (b.killed srv) := by
  refine ⟨?_, ?_, ?_⟩
  · intro c y hy hpc
    obtain ⟨x, hx, _, _, hn, _, ⟨hpc', _⟩ | hpc'⟩ := of_killed hy
    · rw [hn]
      exact h.undrawn c x hx (hpc' ▸ hpc)
    · rw [hpc'] at hpc
      rcases hpc with e | e <;> cases e
  · intro c c' y y' n hy hy' hn hn'
    obtain ⟨x, hx, _, _, e, _⟩ := of_killed hy
    obtain ⟨x', hx', _, _, e', _⟩ := of_killed hy'
    exact h.unique c c' x x' n hx hx' (e.symm.trans hn) (e'.symm.trans hn')
  · intro srv' i c y hc hy
    obtain ⟨_, hold, hsame⟩ := killed_chMap hc
    obtain ⟨x, hx, _, _, e, _⟩ := of_killed hy
    rw [hsame, e]
    exact h.owner srv' i c x hold hx

/-- No claim is made at the server, and no new one elsewhere. -/
theorem claimed_of_killed {srv' : Srv} (h : Claimed (b.killed srv) srv' i) :
    srv' ≠ srv ∧ Claimed b srv' i := by
  rcases h with ⟨c, hc⟩ | ⟨c, y, term, hy, hsrv, hpc⟩
  · obtain ⟨hne, hold, _⟩ := killed_chMap hc
    exact ⟨hne, .inl ⟨c, hold⟩⟩
  · obtain ⟨x, hx, e, _, _, _, ⟨hpc', hwhy⟩ | hpc'⟩ := of_killed hy
    · have hsrv' : x.srv = srv' := e.symm.trans hsrv
      have hlocked : x.pc = .locked i term := hpc'.symm.trans hpc
      refine ⟨?_, .inr ⟨c, x, term, hx, hsrv', hlocked⟩⟩
      rcases hwhy with hne | ⟨err, res, hret⟩
      · exact hsrv' ▸ hne
      · cases hlocked.symm.trans hret
    · cases hpc'.symm.trans hpc

end Board

/-! ## 5. The reader -/

section Reader

variable [DecidableEq Srv] {s s' : System σ Srv Req Res}

/-- What the reader of a server has: state, index, place. -/
def RSM.reader (r : RSM σ Req Res) : σ × ℕ × Loop Req Res := (r.sm, r.applied, r.loop)

/-- A server is replaced, and its reader is not. -/
theorem reader_of_update {srv : Srv} {r : RSM σ Req Res}
    (hrsm : s'.rsm = Function.update s.rsm srv r) (h : r.reader = (s.rsm srv).reader)
    (srv' : Srv) : (s'.rsm srv').reader = (s.rsm srv').reader := by
  rw [hrsm]
  by_cases e : srv' = srv
  · subst e
    rw [Function.update_self]
    exact h
  · rw [Function.update_of_ne e]

/-- **A Submit leaves the readers alone.** -/
theorem turn_reader {c : ℕ} {x : Submit Srv Req Res} {t : Turn} (h : s.turn c x t = some s')
    (srv : Srv) : (s'.rsm srv).reader = (s.rsm srv).reader := by
  cases turned h with
  | start | register | cleanup =>
      refine reader_of_update rfl ?_ srv
      rfl
  | lead | refused | rejected | take | lost | tickOut | tickOn | timeOut => rfl

/-- `Start` is called with a number that nobody has. -/
theorem turn_fresh {c : ℕ} {x : Submit Srv Req Res} {t : Turn} (h : s.turn c x t = some s') :
    FreshNumber s.board (.turn c t) := by
  intro c' n answer e y hy
  cases e
  cases turned h with
  | rejected _ _ hfresh => exact hfresh y hy
  | start _ _ _ _ hfresh => exact hfresh y hy

/-- The number is the Submit's from then on. -/
theorem turn_started {c n : ℕ} {x : Submit Srv Req Res} {answer : Option (ℕ × ℕ)}
    (hx : s.submits[c]? = some x) (h : s.turn c x (.start n answer) = some s') :
    ∃ y, s'.submits[c]? = some y ∧ y.req = x.req ∧ y.hashNum = some n := by
  have hlt : c < s.submits.length := (List.getElem?_eq_some_iff.mp hx).1
  cases turned h with
  | rejected => exact ⟨_, List.getElem?_set_self hlt, rfl, rfl⟩
  | start => exact ⟨_, List.getElem?_set_self hlt, rfl, rfl⟩

/-- The reader has told who waits, and nothing else. -/
theorem notify_reader {srv : Srv} (h : s.notify srv = some s') :
    ∃ i op res, (s.rsm srv).loop = .done i op res ∧
      (s'.rsm srv).reader = ((s.rsm srv).sm, (s.rsm srv).applied, .notified i) ∧
      ∀ srv', srv' ≠ srv → s'.rsm srv' = s.rsm srv' := by
  obtain ⟨i, op, res, submits, hloop, _, rfl⟩ := notified h
  refine ⟨i, op, res, hloop, ?_, fun srv' hne => Function.update_of_ne hne _ _⟩
  show (Function.update s.rsm srv _ srv).reader = _
  rw [Function.update_self]
  rfl

end Reader

end RaftLab.Kvraft1.Rsm

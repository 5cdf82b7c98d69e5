/-
  File:      RaftLab/Lib/Handover.lean
  Subject:   One resource handed from holder to holder by numbered moves, with requests that may be
             executed late and more than once.

  `own N` is the place that holds the resource in plan `N`. A move from plan N-1 to N is made by
  three requests: `freeze N` at the old place, which answers with the data, `install N` of that
  data at the new place, and `delete N` at the old place. A place compares the number of a request
  with the last one it obeyed: `freeze` and `delete` obey an equal number, `install` does not.
  Plan N+1 is begun only when move N is done (`Settled`). Only the place that is `ready` may
  change the data.

  `Holds own a H` is the invariant: the move of number H is the last that was installed, and place
  `own H` has the data, ready, or frozen if the next move has begun. `Holds.step` says that every
  step keeps it for some H, and `Settled.step` that a finished move stays finished.
-/
import Mathlib.Order.Basic
import Mathlib.Data.List.Basic

namespace RaftLab.Lib

inductive Phase where
  | away
  | ready
  | frozen
  deriving DecidableEq, Repr

/-- What a place knows of the resource. -/
@[ext]
structure Slot (κ β : Type*) where
  phase : Phase
  num : ℕ
  data : κ → Option β

variable {ν κ β : Type*}

namespace Slot

/-- No data. -/
def nothing : κ → Option β := fun _ => none

/-- Data added over data. -/
def load (st : Option (κ → Option β)) (data : κ → Option β) : κ → Option β :=
  match st with
  | none => data
  | some sub => fun k => (sub k).or (data k)

def freeze (N : ℕ) (sl : Slot κ β) : Slot κ β :=
  if N < sl.num then sl else { sl with phase := .frozen, num := N }

/-- The answer to `freeze`. -/
def answer (N : ℕ) (sl : Slot κ β) : Option (κ → Option β) :=
  if N < sl.num then none else some sl.data

def install (N : ℕ) (st : Option (κ → Option β)) (sl : Slot κ β) : Slot κ β :=
  if N ≤ sl.num then sl else ⟨.ready, N, load st sl.data⟩

def delete (N : ℕ) (sl : Slot κ β) : Slot κ β :=
  if N < sl.num then sl else ⟨.away, N, nothing⟩

def write (f : (κ → Option β) → κ → Option β) (sl : Slot κ β) : Slot κ β :=
  { sl with data := f sl.data }

theorem load_nothing (sub : κ → Option β) : load (some sub) nothing = sub := by
  funext k
  simp [load, nothing]

end Slot

/-- The places, the number of the last plan begun, what the resource should be, and the answers
    that `freeze` requests have got. -/
structure Handover (ν κ β : Type*) where
  slot : ν → Slot κ β
  top : ℕ
  truth : κ → Option β
  sent : ℕ → Option (κ → Option β) → Prop

namespace Handover

variable (own : ℕ → ν)

/-- Move `N` is no move, or is installed and, while it is the last, its source is empty. -/
def Settled (a : Handover ν κ β) (N : ℕ) : Prop :=
  own (N - 1) = own N ∨
    (N ≤ (a.slot (own N)).num ∧ (N = a.top → (a.slot (own (N - 1))).data = Slot.nothing))

variable [DecidableEq ν]

/-- Change of one place. -/
def put (a : Handover ν κ β) (g : ν) (sl : Slot κ β) : Handover ν κ β :=
  { a with slot := Function.update a.slot g sl }

@[simp] theorem put_top (a : Handover ν κ β) (g : ν) (sl : Slot κ β) : (a.put g sl).top = a.top :=
  rfl

@[simp] theorem put_truth (a : Handover ν κ β) (g : ν) (sl : Slot κ β) :
    (a.put g sl).truth = a.truth := rfl

@[simp] theorem put_self (a : Handover ν κ β) (g : ν) (sl : Slot κ β) : (a.put g sl).slot g = sl :=
  Function.update_self _ _ _

theorem put_of_ne (a : Handover ν κ β) {g g' : ν} (sl : Slot κ β) (h : g' ≠ g) :
    (a.put g sl).slot g' = a.slot g' := Function.update_of_ne h _ _

/-- Numbers never fall where one place's does not. -/
theorem le_put_num (a : Handover ν κ β) {g : ν} {sl : Slot κ β} (h : (a.slot g).num ≤ sl.num)
    (g' : ν) : (a.slot g').num ≤ ((a.put g sl).slot g').num := by
  by_cases e : g' = g
  · subst e
    rw [put_self]
    exact h
  · exact Nat.le_of_eq (congrArg Slot.num (put_of_ne a sl e)).symm

@[simp] theorem put_slot_self (a : Handover ν κ β) (g : ν) : a.put g (a.slot g) = a := by
  simp [put]

inductive Step : Handover ν κ β → Handover ν κ β → Prop where
  | raise {a : Handover ν κ β} (h : 1 < a.top → Settled own a a.top) :
      Step a { a with top := a.top + 1 }
  | freeze {a : Handover ν κ β} (N : ℕ) (h1 : 1 < N) (h2 : N ≤ a.top) (hmove : own (N - 1) ≠ own N) :
      Step a { a.put (own (N - 1)) ((a.slot (own (N - 1))).freeze N) with
        sent := fun M st => a.sent M st ∨ (M = N ∧ st = (a.slot (own (N - 1))).answer N) }
  | install {a : Handover ν κ β} (N : ℕ) (st : Option (κ → Option β)) (hsent : a.sent N st) :
      Step a (a.put (own N) ((a.slot (own N)).install N st))
  | delete {a : Handover ν κ β} (N : ℕ) (h1 : 1 < N) (h2 : N ≤ a.top)
      (hmove : own (N - 1) ≠ own N) (hinst : N ≤ (a.slot (own N)).num) :
      Step a (a.put (own (N - 1)) ((a.slot (own (N - 1))).delete N))
  | write {a : Handover ν κ β} (g : ν) (f : (κ → Option β) → κ → Option β)
      (hg : (a.slot g).phase = .ready) :
      Step a { a.put g ((a.slot g).write f) with truth := f a.truth }

/-- **The invariant**, with the number of the last installed move. -/
structure Holds (a : Handover ν κ β) (H : ℕ) : Prop where
  pos : 1 ≤ H
  le : H ≤ a.top
  path : ∀ N, H < N → N < a.top → own N = own H
  others : ∀ g, g ≠ own H → (a.slot g).phase ≠ .ready ∧ (a.slot g).num ≤ H
  kept : ∀ N, 1 < N → N ≤ H → own (N - 1) ≠ own N → N ≤ (a.slot (own N)).num
  clean : ∀ g, g ≠ own H →
    (a.slot g).data = Slot.nothing ∨ (1 < H ∧ H = a.top ∧ g = own (H - 1))
  data : (a.slot (own H)).data = a.truth
  phase : ((a.slot (own H)).phase = .ready ∧ (a.slot (own H)).num = H) ∨
    ((a.slot (own H)).phase = .frozen ∧ (a.slot (own H)).num = a.top ∧ H < a.top ∧
      own a.top ≠ own H)
  sent : ∀ N st, a.sent N st → N ≤ (a.slot (own N)).num ∨
    ((a.slot (own H)).phase = .frozen ∧ N = a.top ∧ st = some a.truth)

variable {own} {a b : Handover ν κ β} {H N : ℕ}

omit [DecidableEq ν] in
theorem Holds.num_le (h : Holds own a H) (g : ν) : (a.slot g).num ≤ a.top := by
  by_cases hg : g = own H
  · subst hg
    have := h.le
    rcases h.phase with ⟨_, e⟩ | ⟨_, e, _⟩ <;> omega
  · exact Nat.le_trans (h.others g hg).2 h.le

omit [DecidableEq ν] in
/-- The places of the plans from H up to the one before the last. -/
theorem Holds.own_before (h : Holds own a H) {M : ℕ} (h1 : H ≤ M) (h2 : M < a.top) :
    own M = own H := by
  rcases Nat.eq_or_lt_of_le h1 with e | hlt
  · rw [e]
  · exact h.path M hlt h2

omit [DecidableEq ν] in
/-- A real move above H is the last one begun, and starts at H's place. -/
theorem Holds.last_move (h : Holds own a H) (h1 : H < N) (h2 : N ≤ a.top)
    (hmove : own (N - 1) ≠ own N) : N = a.top ∧ own (N - 1) = own H := by
  have hsrc : own (N - 1) = own H := h.own_before (by omega) (by omega)
  refine ⟨?_, hsrc⟩
  by_contra hne
  exact hmove (hsrc.trans (h.path N h1 (by omega)).symm)

omit [DecidableEq ν] in
/-- A real move that was installed is not above H. -/
theorem Holds.le_of_installed (h : Holds own a H) (h2 : N ≤ a.top) (hmove : own (N - 1) ≠ own N)
    (hinst : N ≤ (a.slot (own N)).num) : N ≤ H := by
  by_contra hlt
  obtain ⟨_, hsrc⟩ := h.last_move (by omega) h2 hmove
  have hne : own N ≠ own H := fun e => hmove (hsrc.trans e.symm)
  have := (h.others _ hne).2
  omega

omit [DecidableEq ν] in
/-- When the last plan is settled its place holds the resource. -/
theorem Holds.own_top (h : Holds own a H) (hset : 1 < a.top → Settled own a a.top) :
    own a.top = own H := by
  have hpos := h.pos
  have hle := h.le
  by_cases hH : H = a.top
  · rw [hH]
  · by_contra hne
    rcases hset (by omega) with he | ⟨hinst, _⟩
    · exact hne (he ▸ h.own_before (by omega) (by omega))
    · have := (h.others _ hne).2
      omega

/-! ## Steps keep the invariant -/

omit [DecidableEq ν] in
theorem Holds.raise (h : Holds own a H) (hset : 1 < a.top → Settled own a a.top) :
    Holds own { a with top := a.top + 1 } H := by
  have htop := h.own_top hset
  refine ⟨h.pos, Nat.le_succ_of_le h.le, fun N h1 h2 => ?_, h.others, h.kept, fun g hg => ?_, h.data,
    ?_, fun N st hs => ?_⟩
  · have h2' : N < a.top + 1 := h2
    by_cases hN : N = a.top
    · rw [hN, htop]
    · exact h.path N h1 (by omega)
  · rcases h.clean g hg with he | ⟨h1, hH, rfl⟩
    · exact Or.inl he
    · left
      rcases hset (by omega) with he | ⟨_, hempty⟩
      · rw [← hH] at he
        exact absurd he hg
      · rw [← hH] at hempty
        exact hempty rfl
  · rcases h.phase with hp | ⟨_, _, _, hne⟩
    · exact Or.inl hp
    · exact absurd htop hne
  · rcases h.sent N st hs with hl | ⟨hf, _⟩
    · exact Or.inl hl
    · rcases h.phase with ⟨hr, _⟩ | ⟨_, _, _, hne⟩
      · rw [hr] at hf
        cases hf
      · exact absurd htop hne

omit [DecidableEq ν] in
/-- More answers. -/
theorem Holds.answered (h : Holds own a H) {sent' : ℕ → Option (κ → Option β) → Prop}
    (hs : ∀ M st, sent' M st → a.sent M st ∨ M ≤ (a.slot (own M)).num ∨
      ((a.slot (own H)).phase = .frozen ∧ M = a.top ∧ st = some a.truth)) :
    Holds own { a with sent := sent' } H :=
  ⟨h.pos, h.le, h.path, h.others, h.kept, h.clean, h.data, h.phase, fun M st hM =>
    (hs M st hM).elim (h.sent M st) id⟩

/-- A place that does not hold the resource obeys a request. -/
theorem Holds.putOther (h : Holds own a H) {g : ν} (hg : g ≠ own H) (sl : Slot κ β)
    (hphase : sl.phase ≠ .ready) (hnum : (a.slot g).num ≤ sl.num) (hH : sl.num ≤ H)
    (hdata : sl.data = (a.slot g).data ∨ sl.data = Slot.nothing) : Holds own (a.put g sl) H := by
  have hold : (a.put g sl).slot (own H) = a.slot (own H) := put_of_ne a sl hg.symm
  have hmono := le_put_num a hnum
  refine ⟨h.pos, h.le, h.path, fun g' hg' => ?_, fun M h1 h2 hm => ?_, fun g' hg' => ?_, ?_, ?_,
    fun M st hM => ?_⟩
  · by_cases e : g' = g
    · subst e
      rw [put_self]
      exact ⟨hphase, hH⟩
    · rw [put_of_ne a sl e]
      exact h.others g' hg'
  · exact Nat.le_trans (h.kept M h1 h2 hm) (hmono _)
  · by_cases e : g' = g
    · subst e
      rw [put_self]
      rcases hdata with hd | hd
      · rw [hd]
        exact h.clean g' hg'
      · exact Or.inl hd
    · rw [put_of_ne a sl e]
      exact h.clean g' hg'
  · rw [hold]
    exact h.data
  · rw [hold]
    exact h.phase
  · rw [hold]
    rcases h.sent M st hM with hl | hr
    · exact Or.inl (Nat.le_trans hl (hmono _))
    · exact Or.inr hr

/-- The place that holds the resource is frozen for the last plan. -/
theorem Holds.putFrozen (h : Holds own a H) (hlt : H < a.top) (hne : own a.top ≠ own H) :
    Holds own (a.put (own H) ⟨.frozen, a.top, (a.slot (own H)).data⟩) H := by
  have hoff : ∀ g, g ≠ own H →
      (a.put (own H) ⟨.frozen, a.top, (a.slot (own H)).data⟩).slot g = a.slot g :=
    fun g hg => put_of_ne a _ hg
  have hmono := le_put_num a (show _ ≤ (⟨.frozen, a.top, (a.slot (own H)).data⟩ : Slot κ β).num from
    h.num_le (own H))
  refine ⟨h.pos, h.le, h.path, fun g hg => ?_, fun M h1 h2 hm => ?_, fun g hg => ?_, ?_, ?_,
    fun M st hM => ?_⟩
  · rw [hoff g hg]
    exact h.others g hg
  · exact Nat.le_trans (h.kept M h1 h2 hm) (hmono _)
  · rw [hoff g hg]
    exact h.clean g hg
  · rw [put_self]
    exact h.data
  · rw [put_self]
    exact Or.inr ⟨rfl, rfl, hlt, hne⟩
  · rw [put_self]
    rcases h.sent M st hM with hl | ⟨_, hr⟩
    · exact Or.inl (Nat.le_trans hl (hmono _))
    · exact Or.inr ⟨rfl, hr⟩

omit [DecidableEq ν] in
/-- The place a completed move took the resource from, and that has not been asked since, does not
    hold it. -/
theorem Holds.source_ne (h : Holds own a H) (hmove : own (N - 1) ≠ own N)
    (hig : (a.slot (own (N - 1))).num ≤ N) (hNH : N ≤ H) : own (N - 1) ≠ own H := by
  intro e
  rw [e] at hig
  rcases h.phase with ⟨_, hn⟩ | ⟨_, hn, hlt, _⟩
  · have : N = H := by omega
    rw [this] at e hmove
    exact hmove e
  · omega

theorem Holds.freeze (h : Holds own a H) (h1 : 1 < N) (h2 : N ≤ a.top)
    (hmove : own (N - 1) ≠ own N) :
    Holds own { a.put (own (N - 1)) ((a.slot (own (N - 1))).freeze N) with
      sent := fun M st => a.sent M st ∨ (M = N ∧ st = (a.slot (own (N - 1))).answer N) } H := by
  by_cases hig : N < (a.slot (own (N - 1))).num
  · -- ignored: the move is older than the place's last request, so it was installed
    have hNH : N ≤ H := by
      by_contra hlt
      obtain ⟨htop, _⟩ := h.last_move (by omega) h2 hmove
      have := h.num_le (own (N - 1))
      omega
    have hf : (a.slot (own (N - 1))).freeze N = a.slot (own (N - 1)) := by simp [Slot.freeze, hig]
    rw [hf, put_slot_self]
    refine Holds.answered h ?_
    intro M st hM
    refine hM.imp id fun e => Or.inl ?_
    rw [e.1]
    exact h.kept N h1 hNH hmove
  · have hf : (a.slot (own (N - 1))).freeze N = ⟨.frozen, N, (a.slot (own (N - 1))).data⟩ := by
      simp [Slot.freeze, hig]
    have ha : (a.slot (own (N - 1))).answer N = some (a.slot (own (N - 1))).data := by
      simp [Slot.answer, hig]
    rw [hf, ha]
    by_cases hNH : N ≤ H
    · -- a late request at a place that has handed the resource on
      have hsrc := h.source_ne hmove (Nat.le_of_not_lt hig) hNH
      refine Holds.answered (h.putOther hsrc ⟨.frozen, N, (a.slot (own (N - 1))).data⟩ (by simp)
        (Nat.le_of_not_lt hig) hNH (Or.inl rfl)) ?_
      intro M st hM
      refine hM.imp id fun e => Or.inl ?_
      rw [e.1, put_of_ne _ _ hmove.symm]
      exact h.kept N h1 hNH hmove
    · obtain ⟨rfl, hsrc⟩ := h.last_move (by omega) h2 hmove
      have hne : own a.top ≠ own H := fun e => hmove (hsrc.trans e.symm)
      rw [hsrc]
      refine Holds.answered (h.putFrozen (by omega) hne) ?_
      intro M st hM
      refine hM.imp id fun e => Or.inr ?_
      rw [put_self]
      exact ⟨rfl, e.1, by rw [e.2, h.data]; rfl⟩

theorem Holds.install (h : Holds own a H) {st : Option (κ → Option β)} (hsent : a.sent N st) :
    ∃ H', Holds own (a.put (own N) ((a.slot (own N)).install N st)) H' := by
  by_cases hig : N ≤ (a.slot (own N)).num
  · refine ⟨H, ?_⟩
    rw [show (a.slot (own N)).install N st = a.slot (own N) by simp [Slot.install, hig],
      put_slot_self]
    exact h
  · -- the first execution: the resource is frozen, and what is installed is all of it
    obtain ⟨hfro, rfl, rfl⟩ : (a.slot (own H)).phase = .frozen ∧ N = a.top ∧ st = some a.truth :=
      (h.sent N st hsent).resolve_left hig
    obtain ⟨hnum, hlt, hne⟩ : (a.slot (own H)).num = a.top ∧ H < a.top ∧ own a.top ≠ own H := by
      rcases h.phase with ⟨hr, _⟩ | ⟨_, hp⟩
      · rw [hr] at hfro
        cases hfro
      · exact hp
    have hempty : (a.slot (own a.top)).data = Slot.nothing :=
      (h.clean _ hne).resolve_right fun e => by omega
    have hinst : (a.slot (own a.top)).install a.top (some a.truth) = ⟨.ready, a.top, a.truth⟩ := by
      simp [Slot.install, hig, hempty, Slot.load_nothing]
    rw [hinst]
    have hoff : ∀ g, g ≠ own a.top →
        (a.put (own a.top) ⟨.ready, a.top, a.truth⟩).slot g = a.slot g :=
      fun g hg => put_of_ne a _ hg
    have hsrc : own (a.top - 1) = own H := h.own_before (by omega) (by omega)
    refine ⟨a.top, Nat.le_trans h.pos h.le, Nat.le_refl _, fun M h1 h2 => ?_, fun g hg => ?_,
      fun M h1 h2 hm => ?_, fun g hg => ?_, ?_, ?_, fun M st hM => ?_⟩
    · exact absurd (show M < a.top from h2) (by omega)
    · rw [hoff g hg]
      refine ⟨?_, h.num_le g⟩
      by_cases e : g = own H
      · rw [e, hfro]
        simp
      · exact (h.others g e).1
    · by_cases e : own M = own a.top
      · rw [e, put_self]
        exact h2
      · rw [hoff _ e]
        have hMH : M ≤ H := by
          by_contra hlt'
          obtain ⟨rfl, _⟩ := h.last_move (by omega) h2 hm
          exact e rfl
        exact h.kept M h1 hMH hm
    · rw [hoff g hg]
      by_cases e : g = own H
      · exact Or.inr ⟨by have := h.pos; omega, rfl, by rw [e, hsrc]⟩
      · rcases h.clean g e with hc | ⟨_, hH, _⟩
        · exact Or.inl hc
        · omega
    · rw [put_self]
      rfl
    · rw [put_self]
      exact Or.inl ⟨rfl, rfl⟩
    · left
      by_cases e : own M = own a.top
      · rw [e, put_self]
        rcases h.sent M st hM with hl | ⟨_, rfl, _⟩
        · exact Nat.le_trans hl (h.num_le _)
        · exact Nat.le_refl _
      · rw [hoff _ e]
        rcases h.sent M st hM with hl | ⟨_, rfl, _⟩
        · exact hl
        · exact absurd rfl e

theorem Holds.delete (h : Holds own a H) (h2 : N ≤ a.top) (hmove : own (N - 1) ≠ own N)
    (hinst : N ≤ (a.slot (own N)).num) :
    Holds own (a.put (own (N - 1)) ((a.slot (own (N - 1))).delete N)) H := by
  by_cases hig : N < (a.slot (own (N - 1))).num
  · rw [show (a.slot (own (N - 1))).delete N = a.slot (own (N - 1)) by simp [Slot.delete, hig],
      put_slot_self]
    exact h
  · have hNH := h.le_of_installed h2 hmove hinst
    have hsrc := h.source_ne hmove (Nat.le_of_not_lt hig) hNH
    rw [show (a.slot (own (N - 1))).delete N = ⟨.away, N, Slot.nothing⟩ by simp [Slot.delete, hig]]
    exact h.putOther hsrc ⟨.away, N, Slot.nothing⟩ (by simp) (Nat.le_of_not_lt hig) hNH (Or.inr rfl)

omit [DecidableEq ν] in
/-- Only the place that holds the resource is ready. -/
theorem Holds.eq_of_ready (h : Holds own a H) {g : ν} (hg : (a.slot g).phase = .ready) :
    g = own H := by
  by_contra hne
  exact (h.others g hne).1 hg

theorem Holds.write (h : Holds own a H) {g : ν} (hg : (a.slot g).phase = .ready)
    (f : (κ → Option β) → κ → Option β) :
    Holds own { a.put g ((a.slot g).write f) with truth := f a.truth } H := by
  obtain rfl := h.eq_of_ready hg
  have hoff : ∀ g, g ≠ own H →
      (a.put (own H) ((a.slot (own H)).write f)).slot g = a.slot g := fun g hg => put_of_ne a _ hg
  have hnum : ∀ g, ((a.put (own H) ((a.slot (own H)).write f)).slot g).num = (a.slot g).num := by
    intro g
    by_cases e : g = own H
    · subst e
      rw [put_self]
      rfl
    · rw [hoff g e]
  refine ⟨h.pos, h.le, h.path, fun g hg => ?_, fun M h1 h2 hm => ?_, fun g hg => ?_, ?_, ?_,
    fun M st hM => Or.inl ?_⟩
  · simp only [hoff g hg]
    exact h.others g hg
  · simp only [hnum]
    exact h.kept M h1 h2 hm
  · simp only [hoff g hg]
    exact h.clean g hg
  · simp only [put_self]
    rw [← h.data]
    rfl
  · simp only [put_self]
    exact h.phase
  · simp only [hnum]
    rcases h.sent M st hM with hl | ⟨hf, _⟩
    · exact hl
    · rw [hg] at hf
      cases hf

/-- **Every step keeps the invariant.** -/
theorem Holds.step (h : Holds own a H) (hs : Step own a b) : ∃ H', Holds own b H' := by
  cases hs with
  | raise hset => exact ⟨H, h.raise hset⟩
  | freeze N h1 h2 hmove => exact ⟨H, h.freeze h1 h2 hmove⟩
  | install N st hsent => exact h.install hsent
  | delete N _ h2 hmove hinst => exact ⟨H, h.delete h2 hmove hinst⟩
  | write g f hg => exact ⟨H, h.write hg f⟩

/-! ## What stays -/

theorem Step.num_le (hs : Step own a b) (g : ν) : (a.slot g).num ≤ (b.slot g).num := by
  cases hs with
  | raise => exact Nat.le_refl _
  | freeze N _ _ _ =>
      refine le_put_num a ?_ g
      unfold Slot.freeze
      split
      · exact Nat.le_refl _
      · exact Nat.le_of_not_lt ‹_›
  | install N st _ =>
      refine le_put_num a ?_ g
      unfold Slot.install
      split
      · exact Nat.le_refl _
      · exact Nat.le_of_lt (Nat.lt_of_not_le ‹_›)
  | delete N _ _ _ _ =>
      refine le_put_num a ?_ g
      unfold Slot.delete
      split
      · exact Nat.le_refl _
      · exact Nat.le_of_not_lt ‹_›
  | write g' f _ =>
      have hnum : (a.slot g').num ≤ ((a.slot g').write f).num := Nat.le_refl _
      exact le_put_num a hnum g

/-- Data that a change of one place leaves empty. -/
theorem put_empty {g g' : ν} {sl : Slot κ β} (h : (a.slot g').data = Slot.nothing)
    (hsl : g' = g → sl.data = Slot.nothing) : ((a.put g sl).slot g').data = Slot.nothing := by
  by_cases e : g' = g
  · rw [e, put_self]
    exact hsl e
  · rw [put_of_ne a sl e]
    exact h

/-- **A settled move stays settled.** -/
theorem Settled.step (hset : Settled own a N) (h : Holds own a H) (hs : Step own a b)
    (hN : N ≤ a.top) : Settled own b N := by
  by_cases hmove : own (N - 1) = own N
  · exact Or.inl hmove
  obtain ⟨hinst, hempty⟩ := hset.resolve_left hmove
  refine Or.inr ⟨Nat.le_trans hinst (hs.num_le _), ?_⟩
  have hNH := h.le_of_installed hN hmove hinst
  have hHtop := h.le
  cases hs with
  | raise =>
      intro e
      have e' : N = a.top + 1 := e
      omega
  | freeze M _ _ _ =>
      intro e
      refine put_empty (hempty e) fun eg => ?_
      unfold Slot.freeze
      rw [← eg]
      split <;> exact hempty e
  | install M st hsent =>
      intro e
      refine put_empty (hempty e) fun eg => ?_
      rw [← eg]
      unfold Slot.install
      split
      · exact hempty e
      · rename_i hnot
        rcases h.sent M st hsent with hl | ⟨hf, _⟩
        · rw [← eg] at hl
          exact absurd hl hnot
        · -- nothing is frozen for a later move
          rcases h.phase with ⟨hr, _⟩ | ⟨_, _, hlt, _⟩
          · rw [hr] at hf
            cases hf
          · have e' : N = a.top := e
            omega
  | delete M _ _ _ _ =>
      intro e
      refine put_empty (hempty e) fun eg => ?_
      unfold Slot.delete
      rw [← eg]
      split
      · exact hempty e
      · rfl
  | write g f hg =>
      intro e
      have e' : N = a.top := e
      refine put_empty (hempty e) fun eg => ?_
      have hH : H = N := by omega
      have hgH := h.eq_of_ready hg
      rw [hH] at hgH
      exact absurd (eg.trans hgH) hmove

/-- An executed `install` is installed. -/
theorem installed_of_install (st : Option (κ → Option β)) :
    N ≤ ((a.put (own N) ((a.slot (own N)).install N st)).slot (own N)).num := by
  rw [put_self]
  unfold Slot.install
  split
  · assumption
  · exact Nat.le_refl _

/-- An executed `delete` settles the move. -/
theorem settled_of_delete (h : Holds own a H) (hmove : own (N - 1) ≠ own N)
    (hinst : N ≤ (a.slot (own N)).num) :
    Settled own (a.put (own (N - 1)) ((a.slot (own (N - 1))).delete N)) N := by
  right
  refine ⟨?_, fun e => ?_⟩
  · rw [put_of_ne _ _ hmove.symm]
    exact hinst
  · have e' : N = a.top := e
    have := h.num_le (own (N - 1))
    rw [put_self]
    unfold Slot.delete
    rw [if_neg (by omega)]

omit [DecidableEq ν] in
/-- **The resource when its last move is settled**: it is at the last plan's place, ready. -/
theorem Holds.ready_of_settled (h : Holds own a H) (hset : 1 < a.top → Settled own a a.top) :
    (a.slot (own a.top)).phase = .ready := by
  have htop := h.own_top hset
  rcases h.phase with ⟨hr, _⟩ | ⟨_, _, _, hne⟩
  · rw [htop]
    exact hr
  · exact absurd htop hne

omit [DecidableEq ν] in
/-- **The resource when no place is ready**: it is frozen at the source of the last move, which is
    not installed. -/
theorem Holds.frozen_source (h : Holds own a H) (hno : ∀ g, (a.slot g).phase ≠ .ready) :
    own (a.top - 1) ≠ own a.top ∧ (a.slot (own (a.top - 1))).phase = .frozen ∧
      (a.slot (own (a.top - 1))).num = a.top ∧ (a.slot (own a.top)).num < a.top ∧
      (a.slot (own (a.top - 1))).data = a.truth := by
  rcases h.phase with ⟨hr, _⟩ | ⟨hf, hn, hlt, hne⟩
  · exact absurd hr (hno _)
  · have hsrc : own (a.top - 1) = own H := h.own_before (by omega) (by omega)
    rw [hsrc]
    exact ⟨hne.symm, hf, hn, Nat.lt_of_le_of_lt (h.others _ hne).2 hlt, h.data⟩

end Handover

end RaftLab.Lib

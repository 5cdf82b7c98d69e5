/-
  File:      RaftLab/Lib/Framing.lean
  Subject:   Self-delimiting records in a growing byte sequence.

  A framing writes a payload as a frame and reads one frame off the front of a sequence. What may
  be left of a last, incomplete frame reads as nothing. `scan` reads frames until none is left:
  it returns the payloads and the rest it could not read.

  * `scan_frames` -- whole frames followed by an unreadable rest are read back exactly;
  * `take_frame` -- the first part of a frame is the frame or unreadable;
  * `Exact.scan_split`, `Exact.scan_append` -- if only frames are read, arbitrary data is split into
    whole frames and an unreadable rest, and frames in front of any data are read before it.
-/
import Mathlib.Data.List.Basic

namespace RaftLab.Lib

variable {α β : Type*}

/-- A code for payloads that can be read off the front of a sequence. -/
structure Framing (α β : Type*) where
  frame : α → List β
  read : List β → Option (α × List β)
  /-- The payloads the code can carry. -/
  fits : α → Prop
  frame_ne_nil : ∀ a, frame a ≠ []
  read_frame : ∀ {a} (rest : List β), fits a → read (frame a ++ rest) = some (a, rest)
  read_short : ∀ {a t}, fits a → t <+: frame a → t ≠ frame a → read t = none

namespace Framing

variable (F : Framing α β)

/-- The frames of a sequence of payloads. -/
def frames (as : List α) : List β := as.flatMap F.frame

@[simp] theorem frames_nil : F.frames [] = [] := rfl

@[simp] theorem frames_cons (a : α) (as : List α) :
    F.frames (a :: as) = F.frame a ++ F.frames as := rfl

@[simp] theorem frames_append (as bs : List α) :
    F.frames (as ++ bs) = F.frames as ++ F.frames bs := List.flatMap_append

/-- Read frames while there are any, at most `fuel` of them. -/
def scan : ℕ → List β → List α × List β
  | 0, data => ([], data)
  | fuel + 1, data =>
      match F.read data with
      | some (a, rest) =>
          let (as, rest) := scan fuel rest
          (a :: as, rest)
      | none => ([], data)

/-- **Whole frames and an unreadable rest are read back.** -/
theorem scan_frames {tail : List β} (ht : F.read tail = none) (as : List α) (fuel : ℕ)
    (hfit : ∀ a ∈ as, F.fits a) (hlen : (F.frames as).length ≤ fuel) :
    F.scan fuel (F.frames as ++ tail) = (as, tail) := by
  induction as generalizing fuel with
  | nil =>
      cases fuel with
      | zero => rfl
      | succ fuel =>
          unfold scan
          rw [frames_nil, List.nil_append, ht]
  | cons a as ih =>
      have hpos : 0 < (F.frame a).length := List.length_pos_of_ne_nil (F.frame_ne_nil a)
      rw [frames_cons, List.length_append] at hlen
      obtain ⟨fuel, rfl⟩ : ∃ m, fuel = m + 1 := ⟨fuel - 1, by omega⟩
      have hrest := ih fuel (fun b hb => hfit b (List.mem_cons_of_mem _ hb)) (by omega)
      unfold scan
      rw [frames_cons, List.append_assoc, F.read_frame _ (hfit a List.mem_cons_self)]
      simp only [hrest]

/-- Where nothing can be read, nothing is. -/
theorem scan_of_read_none {data : List β} (h : F.read data = none) (fuel : ℕ) :
    F.scan fuel data = ([], data) := by
  cases fuel with
  | zero => rfl
  | succ fuel =>
      unfold scan
      rw [h]

/-- What can be read first is read first. -/
theorem scan_of_read_some {data rest : List β} {a : α} (h : F.read data = some (a, rest))
    {fuel : ℕ} (hf : 0 < fuel) : ∃ as, (F.scan fuel data).1 = a :: as := by
  obtain ⟨fuel, rfl⟩ : ∃ m, fuel = m + 1 := ⟨fuel - 1, by omega⟩
  unfold scan
  rw [h]
  exact ⟨_, rfl⟩

/-- What is left of one more frame, whole or not, is read as the frame or not at all. -/
theorem take_frame {a : α} (ha : F.fits a) (j : ℕ) :
    (F.frame a).take j = F.frame a ∨ F.read ((F.frame a).take j) = none := by
  by_cases h : (F.frame a).take j = F.frame a
  · exact Or.inl h
  · exact Or.inr (F.read_short ha (List.take_prefix _ _) h)

/-- Only frames are read. -/
def Exact : Prop :=
  ∀ {data rest : List β} {a : α}, F.read data = some (a, rest) → F.fits a ∧ data = F.frame a ++ rest

variable {F}

theorem Exact.read_nil (h : F.Exact) : F.read [] = none := by
  cases hr : F.read [] with
  | none => rfl
  | some x =>
      obtain ⟨_, e⟩ := h hr
      exact absurd (List.append_eq_nil_iff.mp e.symm).1 (F.frame_ne_nil x.1)

/-- **Arbitrary data is whole frames and a rest that reads as nothing.** -/
theorem Exact.scan_split (h : F.Exact) {fuel : ℕ} {data : List β} (hf : data.length ≤ fuel) :
    (∀ a ∈ (F.scan fuel data).1, F.fits a) ∧
      data = F.frames (F.scan fuel data).1 ++ (F.scan fuel data).2 ∧
      F.read (F.scan fuel data).2 = none := by
  induction fuel generalizing data with
  | zero =>
      obtain rfl : data = [] := List.eq_nil_of_length_eq_zero (Nat.le_zero.mp hf)
      exact ⟨fun a ha => absurd ha List.not_mem_nil, rfl, h.read_nil⟩
  | succ fuel ih =>
      cases hr : F.read data with
      | none =>
          rw [F.scan_of_read_none hr]
          exact ⟨fun a ha => absurd ha List.not_mem_nil, rfl, hr⟩
      | some x =>
          obtain ⟨a, rest⟩ := x
          obtain ⟨hfit, e⟩ := h hr
          have hpos : 0 < (F.frame a).length := List.length_pos_of_ne_nil (F.frame_ne_nil a)
          have hlen : data.length = (F.frame a).length + rest.length := by
            rw [e, List.length_append]
          obtain ⟨hfits, hsplit, hrest⟩ := ih (show rest.length ≤ fuel by omega)
          have hscan : F.scan (fuel + 1) data =
              (a :: (F.scan fuel rest).1, (F.scan fuel rest).2) := by
            rw [scan, hr]
          rw [hscan]
          refine ⟨?_, ?_, hrest⟩
          · intro b hb
            rcases List.mem_cons.mp hb with rfl | hb
            · exact hfit
            · exact hfits b hb
          · rw [frames_cons, List.append_assoc, ← hsplit]
            exact e

/-- **Frames in front of any data are read, and then the data.** -/
theorem Exact.scan_append (h : F.Exact) {as : List α} (hfit : ∀ a ∈ as, F.fits a) (data : List β)
    {fuel : ℕ} (hf : (F.frames as ++ data).length ≤ fuel) :
    F.scan fuel (F.frames as ++ data) =
      (as ++ (F.scan data.length data).1, (F.scan data.length data).2) := by
  obtain ⟨hfits, hsplit, hrest⟩ := h.scan_split (Nat.le_refl data.length)
  generalize F.scan data.length data = x at hfits hsplit hrest
  rw [hsplit, ← List.append_assoc, ← F.frames_append] at hf ⊢
  refine F.scan_frames hrest (as ++ x.1) fuel ?_ ?_
  · intro a ha
    rcases List.mem_append.mp ha with ha | ha
    · exact hfit a ha
    · exact hfits a ha
  · rw [List.length_append] at hf
    omega

end Framing

end RaftLab.Lib

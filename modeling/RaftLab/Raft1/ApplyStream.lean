/-
  File:      RaftLab/Raft1/ApplyStream.lean
  Subject:   What `sendApplyMsg` hands to the service.

  `Feed P E d msgs a`: the messages take a service from index d to index a. A command message brings
  the next index and a command of which `E` holds there; a snapshot message brings a later index and
  a snapshot of which `P` holds there. `SnapHolds P` is the same of the snapshot Raft keeps. `Batch`
  is a stream of the commands of a committed log `ops`, seen by a service that has its entries 1..d.

  **`sendApplyMsg_feed`**: the batch leads from `appliedIndex` to `commitIndex`, with the commands
  the server holds as committed. **`sendApplyMsg_batch`**: if these are the committed log, it is a
  batch of it.
-/
import RaftLab.Raft1.Frame

namespace RaftLab.Raft1

open RaftLab.Lib

variable {NodeID Cmd : Type}

/-- What the server holds as committed is the committed log. -/
def HoldsCommitted (ops : List Cmd) (rf : Raft NodeID Cmd) : Prop :=
  ∀ i e, rf.snapshotIndex < i → i ≤ rf.commitIndex → rf.logAt i = some e →
    ops[i - 1]? = some e.command

instance [DecidableEq Cmd] (ops : List Cmd) (rf : Raft NodeID Cmd) :
    Decidable (HoldsCommitted ops rf) :=
  decidable_of_iff (∀ i, i < rf.commitIndex + 1 → rf.snapshotIndex < i →
      ∀ e ∈ rf.logAt i, ops[i - 1]? = some e.command)
    ⟨fun h i e h1 h2 he => h i (by omega) h1 e he, fun h i h1 h2 e he => h i e h2 (by omega) he⟩

section Batch

variable (P : ℕ → Bytes → Prop) (ops : List Cmd)

/-- A snapshot as Raft keeps it. -/
def SnapHolds (N : ℕ) (snapshot : Option Bytes) : Prop :=
  (snapshot = none → N = 0) ∧ ∀ data, snapshot = some data → P N data

/-- The messages of a batch take the service from index `d` to index `a`. -/
def Batch : ℕ → List (ApplyMsg Cmd) → ℕ → Prop
  | d, [], a => d = a
  | d, msg :: rest, a =>
      (msg.commandValid = true ∧ msg.snapshotValid = false ∧ msg.commandIndex = d + 1 ∧
        ops[d]? = some msg.command ∧ Batch (d + 1) rest a) ∨
      (msg.commandValid = false ∧ msg.snapshotValid = true ∧
        P msg.snapshotIndex (msg.snapshot.getD []) ∧ Batch msg.snapshotIndex rest a)

/-- The message `sendApplyMsg` makes of an entry. -/
def commandMsg (index : ℕ) (entry : LogEntry Cmd) : ApplyMsg Cmd :=
  { commandValid := true, command := entry.command, commandIndex := index,
    snapshotValid := false, snapshot := none, snapshotTerm := 0, snapshotIndex := 0 }

/-- The messages take the service from index `d` to index `a` without a gap and without a step
    back. -/
def Feed (E : ℕ → Cmd → Prop) : ℕ → List (ApplyMsg Cmd) → ℕ → Prop
  | d, [], a => d = a
  | d, msg :: rest, a =>
      (msg.commandValid = true ∧ msg.snapshotValid = false ∧ msg.commandIndex = d + 1 ∧
        E (d + 1) msg.command ∧ Feed E (d + 1) rest a) ∨
      (msg.commandValid = false ∧ msg.snapshotValid = true ∧ d < msg.snapshotIndex ∧
        P msg.snapshotIndex (msg.snapshot.getD []) ∧ Feed E msg.snapshotIndex rest a)

variable {P ops} {E E' : ℕ → Cmd → Prop} {P' : ℕ → Bytes → Prop}

/-- What is said of each message may be said differently. -/
theorem Feed.imp {msgs : List (ApplyMsg Cmd)} {d a : ℕ}
    (hE : ∀ msg ∈ msgs, msg.commandValid = true → E msg.commandIndex msg.command →
      E' msg.commandIndex msg.command) (hP : ∀ N data, P N data → P' N data)
    (h : Feed P E d msgs a) : Feed P' E' d msgs a := by
  induction msgs generalizing d with
  | nil => exact h
  | cons msg rest ih =>
      have ih' : ∀ {d}, Feed P E d rest a → Feed P' E' d rest a :=
        ih fun x hx => hE x (List.mem_cons_of_mem _ hx)
      rcases h with ⟨h1, h2, h3, h4, h5⟩ | ⟨h1, h2, h3, h4, h5⟩
      · refine .inl ⟨h1, h2, h3, ?_, ih' h5⟩
        rw [← h3] at h4 ⊢
        exact hE msg List.mem_cons_self h1 h4
      · exact .inr ⟨h1, h2, h3, hP _ _ h4, ih' h5⟩

theorem Feed.append {msgs msgs' : List (ApplyMsg Cmd)} {d e a : ℕ} (h : Feed P E d msgs e)
    (h' : Feed P E e msgs' a) : Feed P E d (msgs ++ msgs') a := by
  induction msgs generalizing d with
  | nil =>
      rw [show d = e from h]
      exact h'
  | cons msg rest ih =>
      rcases h with ⟨h1, h2, h3, h4, h5⟩ | ⟨h1, h2, h3, h4, h5⟩
      · exact .inl ⟨h1, h2, h3, h4, ih h5⟩
      · exact .inr ⟨h1, h2, h3, h4, ih h5⟩

/-- The first message, and the rest. -/
theorem Feed.head {msg : ApplyMsg Cmd} {rest : List (ApplyMsg Cmd)} {d a : ℕ}
    (h : Feed P E d (msg :: rest) a) :
    Feed P E d [msg] msg.index ∧ Feed P E msg.index rest a := by
  rcases h with ⟨h1, h2, h3, h4, h5⟩ | ⟨h1, h2, h3, h4, h5⟩
  · have hidx : msg.index = d + 1 := by
      rw [ApplyMsg.index, h2]
      exact h3
    rw [hidx]
    exact ⟨.inl ⟨h1, h2, h3, h4, rfl⟩, h5⟩
  · have hidx : msg.index = msg.snapshotIndex := by
      rw [ApplyMsg.index, h2]
      rfl
    rw [hidx]
    exact ⟨.inr ⟨h1, h2, h3, h4, rfl⟩, h5⟩

/-- A stream of the commands of a log is a batch of it. -/
theorem Feed.batch {msgs : List (ApplyMsg Cmd)} {d a : ℕ}
    (h : Feed P (fun i command => ops[i - 1]? = some command) d msgs a) :
    Batch P ops d msgs a := by
  induction msgs generalizing d with
  | nil => exact h
  | cons msg rest ih =>
      rcases h with ⟨h1, h2, h3, h4, h5⟩ | ⟨h1, h2, _, h4, h5⟩
      · exact .inl ⟨h1, h2, h3, h4, ih h5⟩
      · exact .inr ⟨h1, h2, h4, ih h5⟩

/-- The command messages of a batch that starts after index `d`. -/
theorem feed_commands (es : List (LogEntry Cmd)) (d : ℕ)
    (hes : ∀ i e, es[i]? = some e → E (d + 1 + i) e.command) :
    Feed P E d (es.mapIdx fun i => commandMsg (d + 1 + i)) (d + es.length) := by
  induction es generalizing d with
  | nil => rfl
  | cons e es ih =>
      have hshift : (fun i (e' : LogEntry Cmd) => commandMsg (d + 1 + (i + 1)) e') =
          fun i => commandMsg (d + 1 + 1 + i) := by
        funext i
        rw [show d + 1 + (i + 1) = d + 1 + 1 + i by omega]
      have hrest := ih (d + 1) fun i e' he' => by
        rw [show d + 1 + 1 + i = d + 1 + (i + 1) by omega]
        exact hes (i + 1) e' he'
      rw [List.mapIdx_cons, hshift, show d + (e :: es).length = d + 1 + es.length by simp; omega]
      exact Or.inl ⟨rfl, rfl, rfl, hes 0 e rfl, hrest⟩

/-- **What `sendApplyMsg` sends** takes the service from the old to the new `appliedIndex`, with the
    commands that the server holds as committed. -/
theorem sendApplyMsg_feed [Inhabited Cmd] {rf rf' : Raft NodeID Cmd} {msgs : List (ApplyMsg Cmd)}
    (hheld : ∀ i e, rf.snapshotIndex < i → i ≤ rf.commitIndex → rf.logAt i = some e →
      E i e.command)
    (hsnap : SnapHolds P rf.snapshotIndex rf.snapshot) (h : rf.sendApplyMsg = some (rf', msgs)) :
    rf' = { rf with appliedIndex := rf.commitIndex } ∧
      Feed P E rf.appliedIndex msgs rf.commitIndex := by
  unfold Raft.sendApplyMsg at h
  obtain ⟨first, _, h⟩ := Option.bind_eq_some_iff.mp h
  obtain ⟨entries, hent, h⟩ := Option.bind_eq_some_iff.mp h
  cases h
  refine ⟨rfl, ?_⟩
  obtain ⟨hlen, hget⟩ := Slice.getElem?_of_between? hent
  have hcmds : ∀ startIdx, (entries.length : Int) = rf.relIdx rf.commitIndex + 1 - rf.relIdx startIdx →
      (∀ i, i < entries.length → entries[i]? = Slice.index rf.logs (rf.relIdx startIdx + i)) →
      rf.snapshotIndex < startIdx →
      Feed P E (startIdx - 1) (entries.mapIdx fun i => commandMsg (startIdx + i))
        rf.commitIndex := by
    intro startIdx hlen hget hlo
    have hb : Feed P E _ _ _ := feed_commands entries (startIdx - 1) fun i e he => by
      have hi : i < entries.length := (List.getElem?_eq_some_iff.mp he).1
      have hat : rf.logAt (startIdx + i) = some e := by
        rw [← he, hget i hi]
        unfold Raft.logAt Raft.relIdx
        congr 1
        omega
      have := hheld (startIdx + i) e (by omega) (by unfold Raft.relIdx at hlen; omega) hat
      rwa [show startIdx - 1 + 1 + i = startIdx + i by omega]
    rw [show startIdx - 1 + entries.length = rf.commitIndex by
      unfold Raft.relIdx at hlen; omega] at hb
    rwa [show startIdx - 1 + 1 = startIdx by omega] at hb
  by_cases hbehind : rf.appliedIndex + 1 ≤ rf.snapshotIndex
  · -- the service is behind the snapshot: it is handed over first
    simp only [if_pos hbehind] at hlen hget ⊢
    obtain ⟨data, hdata⟩ : ∃ data, rf.snapshot = some data := by
      cases hs : rf.snapshot with
      | none =>
          have := hsnap.1 hs
          omega
      | some data => exact ⟨data, rfl⟩
    simp only [hdata]
    exact Or.inr ⟨rfl, rfl, hbehind, hsnap.2 data hdata, hcmds _ hlen hget (Nat.lt_succ_self _)⟩
  · simp only [if_neg hbehind] at hlen hget ⊢
    exact hcmds _ hlen hget (by omega)

/-- **The batch of `sendApplyMsg`** takes the service from the old to the new `appliedIndex`. -/
theorem sendApplyMsg_batch [Inhabited Cmd] {rf rf' : Raft NodeID Cmd} {msgs : List (ApplyMsg Cmd)}
    (hheld : HoldsCommitted ops rf) (hsnap : SnapHolds P rf.snapshotIndex rf.snapshot)
    (h : rf.sendApplyMsg = some (rf', msgs)) :
    rf' = { rf with appliedIndex := rf.commitIndex } ∧
      Batch P ops rf.appliedIndex msgs rf.commitIndex := by
  obtain ⟨e, hs⟩ := sendApplyMsg_feed (E := fun i command => ops[i - 1]? = some command) hheld
    hsnap h
  exact ⟨e, hs.batch⟩

end Batch

end RaftLab.Raft1

/-
  File:      RaftLab/Raft1/PersisterWal.lean
  Subject:   `src/raft1/wal.go`: the WAL over a `persist.Persister`.

  `persisterWAL` keeps the whole persistent state in memory, changes it with every call and writes
  all of it back: the encoded raft state and the snapshot, in one atomic `Save`. Its `Load` reads
  the persister and not the model.

  The persister is `persist.FilePersister` without its file format: what was saved last, with an
  empty slice kept and returned as nil (`clone`). The gob encoding is a parameter of which one
  property is used, that what was encoded is decoded.

  * `Holds` -- a persister that holds a state; an empty one holds the fresh state;
  * `InStep` -- the model and the persister are both at a state;
  * `PersisterWAL.inStep_call`, `PersisterWAL.holds_cut`, `inStep_newPersisterWAL`, `load_of_holds`
    -- what calls, crashes, the constructor and `Load` do to it.
-/
import RaftLab.FileWal.Refinement

namespace RaftLab.Raft1

open RaftLab.Lib
open RaftLab.FileWal (Valid CutBy)

/-! ## 1. The persister -/

/-- `clone`: nil and empty slices are copied as nil. -/
def clone (orig : Option Bytes) : Option Bytes := Slice.nilIfEmpty orig

@[ext]
structure Persister where
  raftstate : Bytes
  snapshot : Option Bytes
  deriving DecidableEq

namespace Persister

/-- Nothing was ever saved. -/
def empty : Persister := ⟨[], none⟩

def save (_ : Persister) (raftstate : Bytes) (snapshot : Option Bytes) : Persister where
  raftstate := raftstate
  snapshot := clone snapshot

def readRaftState (p : Persister) : Bytes := p.raftstate

def readSnapshot (p : Persister) : Option Bytes := clone p.snapshot

end Persister

/-! ## 2. The raft state -/

/-- The four values in the order they are encoded. -/
structure RaftState (NodeID Cmd : Type) where
  term : ℕ
  logs : List (LogEntry Cmd)
  vote : Option NodeID
  snapshotIndex : ℕ

/-- `labgob` on the four values of the raft state; nothing decodes from no bytes. -/
structure StateGob (NodeID Cmd : Type) where
  enc : RaftState NodeID Cmd → Bytes
  dec : Bytes → Option (RaftState NodeID Cmd)
  roundTrip : ∀ s, dec (enc s) = some s
  nothing : dec [] = none

section

variable {NodeID Cmd : Type} (gob : StateGob NodeID Cmd)

/-- `decodeRaftState`: `some none` is `ok = false`, `none` is `log.Fatalf`. -/
def decodeRaftState (data : Bytes) : Option (Option (RaftState NodeID Cmd)) :=
  if data.length < 1 then some none else (gob.dec data).map some

theorem StateGob.enc_ne_nil (s : RaftState NodeID Cmd) : gob.enc s ≠ [] := by
  intro e
  have h := gob.roundTrip s
  rw [e, gob.nothing] at h
  cases h

theorem decodeRaftState_enc (s : RaftState NodeID Cmd) :
    decodeRaftState gob (gob.enc s) = some (some s) := by
  have hpos : ¬ (gob.enc s).length < 1 := by
    have := List.length_pos_of_ne_nil (StateGob.enc_ne_nil gob s)
    omega
  rw [decodeRaftState, if_neg hpos, gob.roundTrip]
  rfl

/-! ## 3. `persisterWAL` -/

structure PersisterWAL (NodeID Cmd : Type) where
  p : Persister
  term : ℕ
  vote : Option NodeID
  logs : List (LogEntry Cmd)
  snapshotIndex : ℕ
  snapshot : Option Bytes

namespace PersisterWAL

/-- The state in memory. -/
def model (w : PersisterWAL NodeID Cmd) : PersistState NodeID Cmd where
  term := w.term
  vote := w.vote
  logs := w.logs
  snapshotIndex := w.snapshotIndex
  snapshot := w.snapshot

def flush (w : PersisterWAL NodeID Cmd) : PersisterWAL NodeID Cmd :=
  { w with p := w.p.save (gob.enc ⟨w.term, w.logs, w.vote, w.snapshotIndex⟩) w.snapshot }

def saveMeta (w : PersisterWAL NodeID Cmd) (term : ℕ) (vote : Option NodeID) :
    PersisterWAL NodeID Cmd :=
  flush gob { w with term := term, vote := vote }

def appendLog (w : PersisterWAL NodeID Cmd) (entries : List (LogEntry Cmd)) :
    PersisterWAL NodeID Cmd :=
  flush gob { w with logs := w.logs ++ entries }

def truncateSuffix (w : PersisterWAL NodeID Cmd) (fromIndex : ℕ) :
    Option (PersisterWAL NodeID Cmd) := do
  let logs ← Slice.upto? w.logs ((fromIndex : Int) - w.snapshotIndex)
  some (flush gob { w with logs := logs })

variable [Inhabited Cmd]

def saveSnapshot (w : PersisterWAL NodeID Cmd) (snapshotIndex sentinelTerm : ℕ)
    (snapshot : Option Bytes) (suffix : List (LogEntry Cmd)) : PersisterWAL NodeID Cmd :=
  flush gob { w with
    logs := .sentinel sentinelTerm :: suffix
    snapshotIndex := snapshotIndex
    snapshot := snapshot }

/-- A call that runs to its end. -/
def call (w : PersisterWAL NodeID Cmd) : WalOp NodeID Cmd → Option (PersisterWAL NodeID Cmd)
  | .saveMeta term vote => some (w.saveMeta gob term vote)
  | .appendLog entries => some (w.appendLog gob entries)
  | .truncateSuffix fromIndex => w.truncateSuffix gob fromIndex
  | .saveSnapshot snapshotIndex sentinelTerm snapshot suffix =>
      some (w.saveSnapshot gob snapshotIndex sentinelTerm snapshot suffix)

/-- A call the process does not survive: the `Save` has happened or not. -/
def cut (w : PersisterWAL NodeID Cmd) (op : WalOp NodeID Cmd) (saved : Bool) :
    Option Persister :=
  if saved then (w.call gob op).map (·.p) else some w.p

omit [Inhabited Cmd] in
/-- `Load`: with `ok = false` only the snapshot is set. -/
def load (w : PersisterWAL NodeID Cmd) : Option (PersistState NodeID Cmd × Bool) := do
  match ← decodeRaftState gob w.p.readRaftState with
  | some s => some (⟨s.term, s.vote, s.logs, s.snapshotIndex, w.p.readSnapshot⟩, true)
  | none => some (⟨0, none, [], 0, w.p.readSnapshot⟩, false)

end PersisterWAL

variable [Inhabited Cmd]

/-- `newPersisterWAL`: the model starts from what is saved. -/
def newPersisterWAL (p : Persister) : Option (PersisterWAL NodeID Cmd) := do
  match ← decodeRaftState gob p.readRaftState with
  | some s => some ⟨p, s.term, s.vote, s.logs, s.snapshotIndex, p.readSnapshot⟩
  | none => some ⟨p, 0, none, [.sentinel 0], 0, p.readSnapshot⟩

/-- The fields `MakeWithWAL` starts from: what `Load` returned, or its own literal with the
    snapshot `Load` returned. -/
def recovered : PersistState NodeID Cmd × Bool → PersistState NodeID Cmd
  | (st, true) => st
  | (st, false) => { PersistState.fresh with snapshot := st.snapshot }

/-! ## 4. What a persister holds -/

/-- Persister `p` holds state `st`. -/
structure Holds (p : Persister) (st : PersistState NodeID Cmd) : Prop where
  state : (p.raftstate = [] ∧ st = PersistState.fresh) ∨
    p.raftstate = gob.enc ⟨st.term, st.logs, st.vote, st.snapshotIndex⟩
  snapshot : p.snapshot = st.snapshot
  filled : st.snapshot ≠ some []

/-- The model is at `st`, and so is the persister. -/
def InStep (w : PersisterWAL NodeID Cmd) (st : PersistState NodeID Cmd) : Prop :=
  w.model = st ∧ Holds gob w.p st

variable {gob}

theorem holds_empty (gob : StateGob NodeID Cmd) : Holds gob Persister.empty PersistState.fresh :=
  ⟨Or.inl ⟨rfl, rfl⟩, rfl, fun e => by cases e⟩

theorem Holds.readSnapshot {p : Persister} {st : PersistState NodeID Cmd}
    (h : Holds gob p st) : p.readSnapshot = st.snapshot := by
  unfold Persister.readSnapshot
  rw [h.snapshot, clone, Slice.nilIfEmpty_of_ne h.filled]

/-- **A flush** brings the persister in step with the model. -/
theorem inStep_flush {w : PersisterWAL NodeID Cmd} (h : w.snapshot ≠ some []) :
    InStep gob (w.flush gob) w.model :=
  ⟨rfl, Or.inr rfl, Slice.nilIfEmpty_of_ne h, h⟩

/-- **A call that completes** does what the reference does. -/
theorem PersisterWAL.inStep_call {w : PersisterWAL NodeID Cmd} {st : PersistState NodeID Cmd}
    (h : InStep gob w st) {op : WalOp NodeID Cmd} (hv : Valid st op) (hf : op.Filled) :
    ∃ w' st', w.call gob op = some w' ∧ st.apply op = some st' ∧ InStep gob w' st' := by
  obtain ⟨rfl, hp⟩ := h
  cases op with
  | saveMeta term vote => exact ⟨_, _, rfl, rfl, inStep_flush hp.filled⟩
  | appendLog entries => exact ⟨_, _, rfl, rfl, inStep_flush hp.filled⟩
  | truncateSuffix fromIndex =>
      obtain ⟨logs, hk, ha⟩ := FileWal.truncate_ok hv
      have hk' : Slice.upto? w.logs ((fromIndex : Int) - w.snapshotIndex) = some logs := hk
      have hrun : w.call gob (.truncateSuffix fromIndex) =
          some (PersisterWAL.flush gob { w with logs := logs }) := by
        show (Slice.upto? w.logs _).bind _ = _
        rw [hk']
        rfl
      exact ⟨_, _, hrun, ha, inStep_flush hp.filled⟩
  | saveSnapshot snapshotIndex sentinelTerm snapshot suffix =>
      exact ⟨_, _, rfl, rfl, inStep_flush hf⟩

/-- **A crash inside a call** leaves the state before it or after it. -/
theorem PersisterWAL.holds_cut {w : PersisterWAL NodeID Cmd} {st : PersistState NodeID Cmd}
    (h : InStep gob w st) {op : WalOp NodeID Cmd} (hv : Valid st op) (hf : op.Filled)
    (saved : Bool) :
    ∃ p st', w.cut gob op saved = some p ∧ CutBy st op st' ∧ Holds gob p st' := by
  obtain ⟨w', st', hrun, ha, h'⟩ := PersisterWAL.inStep_call h hv hf
  cases saved with
  | true =>
      refine ⟨w'.p, st', ?_, .whole ha, h'.2⟩
      rw [PersisterWAL.cut, if_pos rfl, hrun]
      rfl
  | false => exact ⟨w.p, st, rfl, .before st op, h.2⟩

/-- **`Load`** on a persister: the state it holds, or `ok = false` and no log exactly if nothing was
    ever saved. -/
theorem load_of_holds {w : PersisterWAL NodeID Cmd} {st : PersistState NodeID Cmd}
    (h : Holds gob w.p st) :
    (w.p ≠ .empty ∧ w.load gob = some (st, true)) ∨
      (w.p = .empty ∧ w.load gob = some (⟨0, none, [], 0, none⟩, false) ∧
        st = PersistState.fresh) := by
  have hsnap := h.readSnapshot
  unfold PersisterWAL.load Persister.readRaftState
  rw [hsnap]
  rcases h.state with ⟨e, rfl⟩ | e
  · right
    rw [e]
    exact ⟨Persister.ext e h.snapshot, rfl, rfl⟩
  · left
    refine ⟨?_, ?_⟩
    · intro hempty
      rw [hempty] at e
      exact StateGob.enc_ne_nil gob _ e.symm
    · rw [e, decodeRaftState_enc]
      rfl

theorem recovered_load {w : PersisterWAL NodeID Cmd} {st : PersistState NodeID Cmd}
    (h : Holds gob w.p st) : ∃ x, w.load gob = some x ∧ recovered x = st := by
  rcases load_of_holds h with ⟨_, hl⟩ | ⟨_, hl, hst⟩
  · exact ⟨_, hl, rfl⟩
  · exact ⟨_, hl, hst.symm⟩

/-- **The constructor** brings the model in step with the persister. -/
theorem inStep_newPersisterWAL {p : Persister} {st : PersistState NodeID Cmd}
    (h : Holds gob p st) : ∃ w, newPersisterWAL gob p = some w ∧ w.p = p ∧ InStep gob w st := by
  have hsnap := h.readSnapshot
  unfold newPersisterWAL Persister.readRaftState
  rw [hsnap]
  rcases h.state with ⟨e, rfl⟩ | e
  · rw [e]
    exact ⟨_, rfl, rfl, rfl, h⟩
  · rw [e, decodeRaftState_enc]
    exact ⟨_, rfl, rfl, rfl, h⟩

end

end RaftLab.Raft1

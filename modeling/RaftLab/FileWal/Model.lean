/-
  File:      RaftLab/FileWal/Model.lean
  Subject:   `src/filewal/filewal.go`: the WAL of a Raft server in two files.

  `meta` holds term and vote and is replaced by `AtomicWrite`; `wal` holds an optional header
  record (the snapshot and its index) followed by entry and truncate records and is appended to,
  and replaced as a whole by `SaveSnapshot`. Each call is the list of file operations it makes
  (`fileOps`), so that a crash can stop it at any of them.

  The gob encoding is a parameter with the one property used of it: what was encoded is decoded,
  but for an empty slice in a record's field, which gob leaves out and decodes as nil (`Gob`).
  `none` is a panic.
-/
import RaftLab.Wal.Record
import RaftLab.Wal.Fs

namespace RaftLab.FileWal

open RaftLab.Lib RaftLab.Wal
open RaftLab.Raft1 (Bytes LogEntry PersistState WalOp)

/-- `walHeader` -/
structure WalHeader where
  snapshotIndex : ℕ
  sentinelTerm : ℕ
  snapshot : Option Bytes

/-- The header as it is decoded. -/
def WalHeader.stored (h : WalHeader) : WalHeader :=
  { h with snapshot := Slice.nilIfEmpty h.snapshot }

/-- `metaState` -/
structure MetaState (NodeID : Type) where
  term : ℕ
  vote : Option NodeID
  deriving DecidableEq

/-- `gobEncode` and `gobDecode` at the four types they are used at; nothing decodes from no
    bytes. -/
structure Gob (NodeID Cmd : Type) where
  encEntry : LogEntry Cmd → Bytes
  decEntry : Bytes → Option (LogEntry Cmd)
  encInt : ℕ → Bytes
  decInt : Bytes → Option ℕ
  encHeader : WalHeader → Bytes
  decHeader : Bytes → Option WalHeader
  encMeta : MetaState NodeID → Bytes
  decMeta : Bytes → Option (MetaState NodeID)
  entry : ∀ e, decEntry (encEntry e) = some e
  int : ∀ k, decInt (encInt k) = some k
  header : ∀ h, decHeader (encHeader h) = some h.stored
  metaState : ∀ s, decMeta (encMeta s) = some s
  nothing : decMeta [] = none

def metaPath : Path := .file "meta"

def walPath : Path := .file "wal"

def recHeader : UInt8 := 1

def recEntry : UInt8 := 2

def recTruncate : UInt8 := 3

section

variable {NodeID Cmd : Type} (gob : Gob NodeID Cmd)

def encodeEntry (e : LogEntry Cmd) : Bytes := recEntry :: gob.encEntry e

def encodeTruncate (k : ℕ) : Bytes := recTruncate :: gob.encInt k

def encodeHeader (h : WalHeader) : Bytes := recHeader :: gob.encHeader h

/-! ## 1. The calls -/

/-- `RecordLog.Append` -/
def appendOps (payload : Bytes) : List FsOp := [.writeLog (appendRecord payload), .syncLog]

def saveMetaOps (term : ℕ) (vote : Option NodeID) : List FsOp :=
  atomicWrite metaPath (gob.encMeta ⟨term, vote⟩)

def appendLogOps (entries : List (LogEntry Cmd)) : List FsOp :=
  entries.flatMap fun e => appendOps (encodeEntry gob e)

def truncateSuffixOps (fromIndex : ℕ) : List FsOp := appendOps (encodeTruncate gob fromIndex)

/-- The records `SaveSnapshot` writes. -/
def snapshotRecords (h : WalHeader) (suffix : List (LogEntry Cmd)) : List Bytes :=
  encodeHeader gob h :: suffix.map (encodeEntry gob)

def saveSnapshotOps (h : WalHeader) (suffix : List (LogEntry Cmd)) : List FsOp :=
  atomicWrite walPath (records.frames (snapshotRecords gob h suffix)) ++
    [.closeLog, .openLog walPath]

/-- The file operations of a call. -/
def fileOps : WalOp NodeID Cmd → List FsOp
  | .saveMeta term vote => saveMetaOps gob term vote
  | .appendLog entries => appendLogOps gob entries
  | .truncateSuffix fromIndex => truncateSuffixOps gob fromIndex
  | .saveSnapshot snapshotIndex sentinelTerm snapshot suffix =>
      saveSnapshotOps gob ⟨snapshotIndex, sentinelTerm, snapshot⟩ suffix

structure FileWAL where
  mach : Machine
  records : List Bytes
  logBytes : ℕ

/-- `logBytes` after a call. -/
def sizeAfter (logBytes : ℕ) : WalOp NodeID Cmd → ℕ
  | .saveMeta _ _ => logBytes
  | .appendLog entries => logBytes + (entries.map fun e => (encodeEntry gob e).length).sum
  | .truncateSuffix fromIndex => logBytes + (encodeTruncate gob fromIndex).length
  | .saveSnapshot _ _ _ suffix => (suffix.map fun e => (encodeEntry gob e).length).sum

/-- A call that runs to its end. -/
def FileWAL.call (fw : FileWAL) (op : WalOp NodeID Cmd) : Option FileWAL := do
  let mach ← runAll (fileOps gob op) fw.mach
  some { fw with mach := mach, logBytes := sizeAfter gob fw.logBytes op }

/-- A call the process does not survive: the disk it leaves. -/
def FileWAL.crash (fw : FileWAL) (op : WalOp NodeID Cmd) (k j : ℕ) : Option Disk := do
  let mach ← runAll (torn FsOp.cut (fileOps gob op) k j) fw.mach
  some mach.disk

/-! ## 2. `Open` and `Load` -/

/-- The file operations of `Open` after it has read the log. -/
def openOps (data : Bytes) : List FsOp :=
  let validLen := (replayRecords data).2
  (if validLen ≠ data.length then [.truncate walPath validLen] else []) ++ [.openLog walPath]

/-- `Open` -/
def openWAL (d : Disk) : Option FileWAL := do
  let data := d.readFile walPath
  let records := (replayRecords data).1
  let mach ← runAll (openOps data) ⟨d, none, none⟩
  some {
    mach := mach
    records := records
    logBytes := ((records.filter fun p => p ≠ [] ∧ p.head? ≠ some recHeader).map List.length).sum }

/-- An `Open` the process does not survive. -/
def openCrash (d : Disk) (k j : ℕ) : Option Disk := do
  let mach ← runAll (torn FsOp.cut (openOps (d.readFile walPath)) k j) ⟨d, none, none⟩
  some mach.disk

variable [Inhabited Cmd]

/-- The header, if the first record is one, and the records after it. -/
def splitHeader : List Bytes → Option (WalHeader × List Bytes)
  | [] => some (⟨0, 0, none⟩, [])
  | [] :: _ => none
  | (b :: body) :: recs =>
      if b = recHeader then do
        let h ← gob.decHeader body
        some (h, recs)
      else
        some (⟨0, 0, none⟩, (b :: body) :: recs)

/-- One turn of the loop of `Load`. -/
def loadRecord (base : ℕ) (logs : List (LogEntry Cmd)) : Bytes → Option (List (LogEntry Cmd))
  | [] => none
  | b :: body =>
      if b = recEntry then do
        let e ← gob.decEntry body
        some (logs ++ [e])
      else if b = recTruncate then do
        let k ← gob.decInt body
        Slice.upto? logs ((k : Int) - base)
      else
        none

/-- What `Load` makes of the records. -/
def loadRecords (recs : List Bytes) : Option (WalHeader × List (LogEntry Cmd)) := do
  let (h, recs) ← splitHeader gob recs
  let logs ← recs.foldlM (loadRecord gob h.snapshotIndex) [LogEntry.sentinel h.sentinelTerm]
  some (h, logs)

/-- What `Load` makes of the meta file. -/
def loadMeta (metaBytes : Bytes) : Option (MetaState NodeID) :=
  if metaBytes.length > 0 then gob.decMeta metaBytes else some ⟨0, none⟩

/-- `Load` -/
def FileWAL.load (fw : FileWAL) : Option (PersistState NodeID Cmd × Bool) := do
  let metaBytes := fw.mach.disk.readFile metaPath
  let s ← loadMeta gob metaBytes
  let (h, logs) ← loadRecords gob fw.records
  some ({ term := s.term, vote := s.vote, logs := logs, snapshotIndex := h.snapshotIndex,
          snapshot := h.snapshot },
        decide (metaBytes.length > 0 ∨ fw.records.length > 0))

/-! ## 3. Records one by one -/

/-- A record that is no header extends what was loaded. -/
theorem loadRecords_concat {recs : List Bytes} {h : WalHeader} {logs : List (LogEntry Cmd)}
    (hl : loadRecords gob recs = some (h, logs)) {b : UInt8} {body : Bytes} (hb : b ≠ recHeader) :
    loadRecords gob (recs ++ [b :: body]) =
      (loadRecord gob h.snapshotIndex logs (b :: body)).map fun logs' => (h, logs') := by
  have hsplit : ∀ h' recs', splitHeader gob recs = some (h', recs') →
      splitHeader gob (recs ++ [b :: body]) = some (h', recs' ++ [b :: body]) := by
    intro h' recs' hs
    match recs with
    | [] =>
        cases hs
        simp [splitHeader, hb]
    | [] :: _ => cases hs
    | (c :: body') :: rest =>
        simp only [List.cons_append, splitHeader] at hs ⊢
        by_cases hc : c = recHeader
        · rw [if_pos hc] at hs ⊢
          obtain ⟨x, hx, e⟩ := Option.bind_eq_some_iff.mp hs
          cases e
          rw [hx]
          rfl
        · rw [if_neg hc] at hs ⊢
          cases hs
          rfl
  unfold loadRecords at hl ⊢
  obtain ⟨⟨h', recs'⟩, hs, hrest⟩ := Option.bind_eq_some_iff.mp hl
  obtain ⟨logs', hf, e⟩ := Option.bind_eq_some_iff.mp hrest
  cases e
  rw [hsplit _ _ hs]
  simp only [Option.bind_eq_bind, Option.bind_some, List.foldlM_append, hf, List.foldlM_cons,
    List.foldlM_nil]
  cases loadRecord gob h.snapshotIndex logs (b :: body) <;> rfl

theorem loadRecords_entry {recs : List Bytes} {h : WalHeader} {logs : List (LogEntry Cmd)}
    (hl : loadRecords gob recs = some (h, logs)) (e : LogEntry Cmd) :
    loadRecords gob (recs ++ [encodeEntry gob e]) = some (h, logs ++ [e]) := by
  unfold encodeEntry
  rw [loadRecords_concat gob hl (by decide)]
  simp [loadRecord, gob.entry]

theorem loadRecords_truncate {recs : List Bytes} {h : WalHeader} {logs logs' : List (LogEntry Cmd)}
    (hl : loadRecords gob recs = some (h, logs)) {k : ℕ}
    (hk : Slice.upto? logs ((k : Int) - h.snapshotIndex) = some logs') :
    loadRecords gob (recs ++ [encodeTruncate gob k]) = some (h, logs') := by
  have hne : recTruncate ≠ recEntry := by decide
  unfold encodeTruncate
  rw [loadRecords_concat gob hl (by decide)]
  simp [loadRecord, gob.int, hk, hne]

/-- What `SaveSnapshot` wrote is loaded back. -/
theorem loadRecords_snapshot (h : WalHeader) (suffix : List (LogEntry Cmd)) :
    loadRecords gob (snapshotRecords gob h suffix) =
      some (h.stored, LogEntry.sentinel h.sentinelTerm :: suffix) := by
  have hfold : ∀ (es : List (LogEntry Cmd)) (logs : List (LogEntry Cmd)),
      (es.map (encodeEntry gob)).foldlM (loadRecord gob h.snapshotIndex) logs =
        some (logs ++ es) := by
    intro es
    induction es with
    | nil => intro logs; simp
    | cons e es ih =>
        intro logs
        have he : loadRecord gob h.snapshotIndex logs (encodeEntry gob e) = some (logs ++ [e]) := by
          simp [encodeEntry, loadRecord, gob.entry]
        rw [List.map_cons, List.foldlM_cons, he]
        show (es.map (encodeEntry gob)).foldlM (loadRecord gob h.snapshotIndex) (logs ++ [e]) = _
        rw [ih, List.append_assoc, List.singleton_append]
  unfold loadRecords snapshotRecords encodeHeader
  simp only [splitHeader, if_pos, gob.header, Option.bind_eq_bind, Option.bind_some,
    WalHeader.stored, hfold]
  rfl

end

end RaftLab.FileWal

/-
  File:      RaftLab/FileWal/Refinement.lean
  Subject:   What the calls of FileWAL, whole or cut by a crash, do to the two files.

  * `Image` -- what the two files say of a reference state: `meta` loads to term and vote, `wal` is
    a sequence of whole records that load to the log, and perhaps a torn one behind them;
  * `Ready` -- a running machine whose log has no torn tail and whose append handle is the file of
    that name;
  * `ready_call`, `durable_crash` -- a call that completes does what the reference does; a crash
    inside it leaves the image of the reference state before it, after it, or, of an `AppendLog`,
    after some of its entries (`CutBy`).

  `Open` and `Load`, and runs, are in Recovery.lean.
-/
import RaftLab.FileWal.Model

namespace RaftLab.FileWal

open RaftLab.Lib RaftLab.Wal
open RaftLab.Raft1 (Bytes LogEntry PersistState WalOp)

variable {NodeID Cmd : Type} [Inhabited Cmd] (gob : Gob NodeID Cmd)

/-! ## 1. The image of a reference state on a disk -/

/-- Disk `d` holds state `st`: in its meta file, and in the records `rs` of its log, behind which
    there may be a torn record. -/
structure Image (d : Disk) (st : PersistState NodeID Cmd) (rs : List Bytes) (tail : Bytes) :
    Prop where
  sound : d.Sound
  metaFile : loadMeta gob (d.readFile metaPath) = some ⟨st.term, st.vote⟩
  log : d.readFile walPath = records.frames rs ++ tail
  fits : ∀ r ∈ rs, Fits r
  tail : nextRecord tail = none
  load : ∃ t, loadRecords gob rs = some (⟨st.snapshotIndex, t, st.snapshot⟩, st.logs)

def Durable (d : Disk) (st : PersistState NodeID Cmd) : Prop := ∃ rs tail, Image gob d st rs tail

/-- A process that can go on writing. -/
def Ready (m : Machine) (st : PersistState NodeID Cmd) : Prop :=
  ∃ rs i, Image gob m.disk st rs [] ∧ m.rl = some i ∧ m.disk.names walPath = some i

variable {gob}

theorem Ready.durable {m : Machine} {st : PersistState NodeID Cmd} (h : Ready gob m st) :
    Durable gob m.disk st := by
  obtain ⟨rs, _, hi, _⟩ := h
  exact ⟨rs, [], hi⟩

theorem durable_empty (gob : Gob NodeID Cmd) :
    Durable gob Disk.empty (PersistState.fresh : PersistState NodeID Cmd) :=
  ⟨[], [], Disk.sound_empty, rfl, rfl, fun _ hr => absurd hr List.not_mem_nil,
    nextRecord_nil, 0, rfl⟩

theorem metaPath_ne : metaPath ≠ walPath := by decide

theorem metaPath_ne_tmp (p : Path) : metaPath ≠ .tmp p := fun e => (by cases e)

theorem walPath_ne_tmp (p : Path) : walPath ≠ .tmp p := fun e => (by cases e)

/-- An image depends on the contents of the two files only. -/
theorem Image.congr {d d' : Disk} {st : PersistState NodeID Cmd} {rs : List Bytes} {tail : Bytes}
    (h : Image gob d st rs tail) (hs : d'.Sound) (hm : d'.readFile metaPath = d.readFile metaPath)
    (hw : d'.readFile walPath = d.readFile walPath) : Image gob d' st rs tail :=
  ⟨hs, hm ▸ h.metaFile, hw ▸ h.log, h.fits, h.tail, h.load⟩

/-! ## 2. Appending records -/

section Append

variable {m : Machine} {st : PersistState NodeID Cmd}

/-- One append: the machine afterwards. -/
theorem runAll_appendOps {i : ℕ} (hrl : m.rl = some i) (payload : Bytes) :
    runAll (appendOps payload) m =
      some { m with disk := m.disk.append i (appendRecord payload) } := by
  simp [appendOps, runAll_cons, FsOp.run, hrl]

/-- A whole record at the end of the log. -/
theorem Image.append {d : Disk} {i : ℕ} {rs : List Bytes} (h : Image gob d st rs [])
    (hn : d.names walPath = some i) {payload : Bytes} (hfit : Fits payload)
    {st' : PersistState NodeID Cmd} (hmeta : st'.term = st.term ∧ st'.vote = st.vote)
    (hload : ∃ t, loadRecords gob (rs ++ [payload]) =
      some (⟨st'.snapshotIndex, t, st'.snapshot⟩, st'.logs)) :
    Image gob (d.append i (appendRecord payload)) st' (rs ++ [payload]) [] := by
  refine ⟨h.sound.append i _, ?_, ?_, ?_, nextRecord_nil, hload⟩
  · rw [Disk.readFile_append h.sound hn, if_neg metaPath_ne, hmeta.1, hmeta.2]
    exact h.metaFile
  · rw [Disk.readFile_append h.sound hn, if_pos rfl, h.log, Framing.frames_append,
      Framing.frames_cons, Framing.frames_nil]
    simp [records]
  · intro r hr
    rcases List.mem_append.mp hr with hr | hr
    · exact h.fits r hr
    · rw [List.mem_singleton.mp hr]
      exact hfit

/-- A torn record at the end of the log. -/
theorem Image.torn {d : Disk} {i : ℕ} {rs : List Bytes} (h : Image gob d st rs [])
    (hn : d.names walPath = some i) {x : Bytes} (hx : nextRecord x = none) :
    Image gob (d.append i x) st rs x := by
  refine ⟨h.sound.append i _, ?_, ?_, h.fits, hx, h.load⟩
  · rw [Disk.readFile_append h.sound hn, if_neg metaPath_ne]
    exact h.metaFile
  · rw [Disk.readFile_append h.sound hn, if_pos rfl, h.log, List.append_nil]

/-- **A crash inside one append** leaves the log without the record or with all of it. -/
theorem torn_appendOps {rs : List Bytes} {i : ℕ} (h : Image gob m.disk st rs [])
    (hrl : m.rl = some i) (hn : m.disk.names walPath = some i) {payload : Bytes}
    (hfit : Fits payload) (st' : PersistState NodeID Cmd)
    (hmeta : st'.term = st.term ∧ st'.vote = st.vote)
    (hload : ∃ t, loadRecords gob (rs ++ [payload]) =
      some (⟨st'.snapshotIndex, t, st'.snapshot⟩, st'.logs)) (k j : ℕ) :
    ∃ m', runAll (Lib.torn FsOp.cut (appendOps payload) k j) m = some m' ∧
      (Durable gob m'.disk st ∨ Durable gob m'.disk st') := by
  have hall : Durable gob (m.disk.append i (appendRecord payload)) st' :=
    ⟨_, _, h.append hn hfit hmeta hload⟩
  unfold appendOps
  match k with
  | 0 =>
      refine ⟨{ m with disk := m.disk.append i ((appendRecord payload).take j) }, ?_, ?_⟩
      · simp [FsOp.cut, runAll_cons, FsOp.run, hrl]
      · rcases records.take_frame hfit j with he | hnone
        · right
          rw [show (appendRecord payload).take j = appendRecord payload from he]
          exact hall
        · exact Or.inl ⟨rs, _, h.torn hn hnone⟩
  | 1 =>
      refine ⟨{ m with disk := m.disk.append i (appendRecord payload) }, ?_, Or.inr hall⟩
      simp [FsOp.cut, runAll_cons, FsOp.run, hrl]
  | k + 2 =>
      refine ⟨{ m with disk := m.disk.append i (appendRecord payload) }, ?_, Or.inr hall⟩
      rw [torn_of_length_le _ _ (by simp)]
      exact runAll_appendOps hrl payload

/-- `AppendLog`, entry by entry. -/
theorem ready_appendLog (es : List (LogEntry Cmd)) {m : Machine} {st : PersistState NodeID Cmd}
    (h : Ready gob m st) (hfit : ∀ e ∈ es, Fits (encodeEntry gob e)) :
    ∃ m', runAll (appendLogOps gob es) m = some m' ∧
      Ready gob m' { st with logs := st.logs ++ es } := by
  induction es generalizing m st with
  | nil => exact ⟨m, rfl, by rw [List.append_nil]; exact h⟩
  | cons e es ih =>
      obtain ⟨rs, i, hi, hrl, hn⟩ := h
      obtain ⟨t, hl⟩ := hi.load
      have h1 : Ready gob { m with disk := m.disk.append i (appendRecord (encodeEntry gob e)) }
          { st with logs := st.logs ++ [e] } :=
        ⟨_, i, hi.append hn (hfit e List.mem_cons_self) ⟨rfl, rfl⟩ ⟨t, loadRecords_entry gob hl e⟩,
          hrl, hn⟩
      obtain ⟨m', hrun, h2⟩ := ih h1 fun e' he' => hfit e' (List.mem_cons_of_mem _ he')
      refine ⟨m', ?_, by rw [List.append_assoc, List.singleton_append] at h2; exact h2⟩
      show runAll (appendOps (encodeEntry gob e) ++ appendLogOps gob es) m = _
      rw [runAll_append, runAll_appendOps hrl]
      exact hrun

/-- **A crash inside `AppendLog`** leaves the log with some of the entries, in order. -/
theorem torn_appendLog (es : List (LogEntry Cmd)) {m : Machine} {st : PersistState NodeID Cmd}
    (k j : ℕ) (h : Ready gob m st) (hfit : ∀ e ∈ es, Fits (encodeEntry gob e)) :
    ∃ m' q, runAll (Lib.torn FsOp.cut (appendLogOps gob es) k j) m = some m' ∧
      Durable gob m'.disk { st with logs := st.logs ++ es.take q } := by
  induction es generalizing m st k with
  | nil =>
      refine ⟨m, 0, by simp [appendLogOps], ?_⟩
      rw [List.take_zero, List.append_nil]
      exact h.durable
  | cons e es ih =>
      obtain ⟨rs, i, hi, hrl, hn⟩ := h
      obtain ⟨t, hl⟩ := hi.load
      have hload : ∃ t, loadRecords gob (rs ++ [encodeEntry gob e]) =
          some (⟨st.snapshotIndex, t, st.snapshot⟩, st.logs ++ [e]) :=
        ⟨t, loadRecords_entry gob hl e⟩
      have hfit0 := hfit e List.mem_cons_self
      show ∃ m' q, runAll (Lib.torn FsOp.cut
        (appendOps (encodeEntry gob e) ++ appendLogOps gob es) k j) m = some m' ∧ _
      by_cases hk : k < (appendOps (encodeEntry gob e)).length
      · rw [torn_append_lt _ _ hk]
        obtain ⟨m', hrun, hd⟩ := torn_appendOps hi hrl hn hfit0
          { st with logs := st.logs ++ [e] } ⟨rfl, rfl⟩ hload k j
        rcases hd with hd | hd
        · refine ⟨m', 0, hrun, ?_⟩
          rw [List.take_zero, List.append_nil]
          exact hd
        · exact ⟨m', 1, hrun, hd⟩
      · have h1 : Ready gob { m with disk := m.disk.append i (appendRecord (encodeEntry gob e)) }
            { st with logs := st.logs ++ [e] } :=
          ⟨_, i, hi.append hn hfit0 ⟨rfl, rfl⟩ hload, hrl, hn⟩
        obtain ⟨m', q, hrun, hd⟩ := ih (k - (appendOps (encodeEntry gob e)).length) h1
          fun e' he' => hfit e' (List.mem_cons_of_mem _ he')
        refine ⟨m', q + 1, ?_, ?_⟩
        · rw [torn_append_ge _ _ (Nat.le_of_not_lt hk), runAll_append, runAll_appendOps hrl]
          exact hrun
        · rw [List.take_succ_cons, ← List.singleton_append, ← List.append_assoc]
          exact hd

end Append

/-! ## 3. Replacing a file -/

section Replace

variable {m : Machine} {d : Disk} {st : PersistState NodeID Cmd} {rs : List Bytes} {tail : Bytes}

/-- A temporary file is part of no image. -/
theorem Image.tmp (h : Image gob d st rs tail) (p : Path) (x : Bytes) :
    Image gob (d.put (.tmp p) x) st rs tail :=
  h.congr (h.sound.put _ _) (Disk.put_tmp h.sound p x (metaPath_ne_tmp p)).2
    (Disk.put_tmp h.sound p x (walPath_ne_tmp p)).2

omit [Inhabited Cmd] in
theorem loadMeta_encMeta (term : ℕ) (vote : Option NodeID) :
    loadMeta gob (gob.encMeta ⟨term, vote⟩) = some ⟨term, vote⟩ := by
  have hne : gob.encMeta ⟨term, vote⟩ ≠ [] := by
    intro e
    have := gob.metaState ⟨term, vote⟩
    rw [e, gob.nothing] at this
    cases this
  simp [loadMeta, List.length_pos_iff.mpr hne, gob.metaState]

theorem Image.saveMeta (h : Image gob d st rs tail) (term : ℕ) (vote : Option NodeID) :
    Image gob (d.replace metaPath (gob.encMeta ⟨term, vote⟩)) { st with term := term, vote := vote }
      rs tail := by
  refine ⟨h.sound.replace _ _, ?_, ?_, h.fits, h.tail, h.load⟩
  · rw [Disk.readFile_replace h.sound]
    exact loadMeta_encMeta term vote
  · rw [(Disk.sameBut_replace h.sound metaPath _ walPath (walPath_ne_tmp _) metaPath_ne.symm).2]
    exact h.log

/-- `SaveSnapshot` writes the whole log anew, whatever was in it. -/
theorem image_saveSnapshot (st : PersistState NodeID Cmd) (hs : d.Sound)
    (hmeta : loadMeta gob (d.readFile metaPath) = some ⟨st.term, st.vote⟩)
    {snapshotIndex sentinelTerm : ℕ} {snapshot : Option Bytes} {suffix : List (LogEntry Cmd)}
    (hfit : ∀ r ∈ snapshotRecords gob ⟨snapshotIndex, sentinelTerm, snapshot⟩ suffix, Fits r) :
    Image gob (d.replace walPath
        (records.frames (snapshotRecords gob ⟨snapshotIndex, sentinelTerm, snapshot⟩ suffix)))
      { st with
        logs := .sentinel sentinelTerm :: suffix
        snapshotIndex := snapshotIndex
        snapshot := Slice.nilIfEmpty snapshot }
      (snapshotRecords gob ⟨snapshotIndex, sentinelTerm, snapshot⟩ suffix) [] := by
  refine ⟨hs.replace _ _, ?_, ?_, hfit, nextRecord_nil, sentinelTerm,
    loadRecords_snapshot gob _ _⟩
  · rw [(Disk.sameBut_replace hs walPath _ metaPath (metaPath_ne_tmp _) metaPath_ne).2]
    exact hmeta
  · rw [Disk.readFile_replace hs, List.append_nil]

/-- After the rename the name belongs to the inode of the temporary file. -/
theorem names_replace (d : Disk) (p : Path) (x : Bytes) :
    (d.replace p x).names p = some (d.inode (.tmp p)) := by
  simp [Disk.replace, Disk.rename, Disk.put, (tmp_ne p).symm]

/-- `Close` of the old handle and `OpenAppend` of the new file. -/
theorem runAll_reopen {i : ℕ} (hrl : m.rl.isSome) (hn : m.disk.names walPath = some i) :
    runAll [.closeLog, .openLog walPath] m = some { m with rl := some i } := by
  obtain ⟨i', hi'⟩ := Option.isSome_iff_exists.mp hrl
  simp [runAll_cons, FsOp.run, hi', hn]

omit [Inhabited Cmd] in
/-- A whole `SaveSnapshot`. -/
theorem runAll_saveSnapshotOps (hrl : m.rl.isSome) (h : WalHeader)
    (suffix : List (LogEntry Cmd)) :
    runAll (saveSnapshotOps gob h suffix) m =
      some ⟨m.disk.replace walPath (records.frames (snapshotRecords gob h suffix)), none,
        some (m.disk.inode (.tmp walPath))⟩ := by
  unfold saveSnapshotOps
  rw [runAll_append, runAll_atomicWrite]
  exact runAll_reopen hrl (names_replace _ _ _)

/-- A crash between closing and opening loses handles only. -/
theorem torn_reopen {i : ℕ} (hrl : m.rl.isSome) (hn : m.disk.names walPath = some i) (k j : ℕ) :
    ∃ m', runAll (Lib.torn FsOp.cut [.closeLog, .openLog walPath] k j) m = some m' ∧
      m'.disk = m.disk := by
  obtain ⟨i', hi'⟩ := Option.isSome_iff_exists.mp hrl
  match k with
  | 0 => exact ⟨m, rfl, rfl⟩
  | 1 => exact ⟨{ m with rl := none }, by simp [FsOp.cut, runAll_cons, FsOp.run, hi'], rfl⟩
  | k + 2 =>
      refine ⟨{ m with rl := some i }, ?_, rfl⟩
      rw [torn_of_length_le _ _ (by simp)]
      exact runAll_reopen hrl hn

end Replace

/-! ## 4. Calls, and crashes inside them -/

/-- The calls the server makes on a log that starts at `st.snapshotIndex`. -/
def Valid (st : PersistState NodeID Cmd) : WalOp NodeID Cmd → Prop
  | .truncateSuffix fromIndex =>
      st.snapshotIndex < fromIndex ∧ fromIndex ≤ st.snapshotIndex + st.logs.length
  | _ => True

variable (gob) in
/-- Every record of the call has a length of 32 bits. -/
def Small : WalOp NodeID Cmd → Prop
  | .saveMeta _ _ => True
  | .appendLog entries => ∀ e ∈ entries, Fits (encodeEntry gob e)
  | .truncateSuffix fromIndex => Fits (encodeTruncate gob fromIndex)
  | .saveSnapshot snapshotIndex sentinelTerm snapshot suffix =>
      ∀ r ∈ snapshotRecords gob ⟨snapshotIndex, sentinelTerm, snapshot⟩ suffix, Fits r

section Calls

variable {m : Machine} {st : PersistState NodeID Cmd}

/-- A valid `TruncateSuffix` is defined, and its marker loads to what it does. -/
theorem truncate_ok {fromIndex : ℕ} (hv : Valid st (.truncateSuffix fromIndex : WalOp NodeID Cmd)) :
    ∃ logs, Slice.upto? st.logs ((fromIndex : Int) - st.snapshotIndex) = some logs ∧
      st.apply (.truncateSuffix fromIndex) = some { st with logs := logs } := by
  obtain ⟨hlo, hhi⟩ := hv
  have e : (fromIndex : Int) - st.snapshotIndex = ((fromIndex - st.snapshotIndex : ℕ) : Int) := by
    omega
  refine ⟨st.logs.take (fromIndex - st.snapshotIndex), ?_, ?_⟩
  · rw [e]
    exact Slice.upto?_natCast (by omega)
  · simp only [PersistState.apply]
    rw [e, Slice.upto?_natCast (by omega)]
    rfl

/-- **A call that completes** does what the reference does, and the process can go on. -/
theorem ready_call (h : Ready gob m st) {op : WalOp NodeID Cmd} (hv : Valid st op)
    (hs : Small gob op) :
    ∃ m' st', runAll (fileOps gob op) m = some m' ∧ st.apply op.stored = some st' ∧
      Ready gob m' st' := by
  cases op with
  | saveMeta term vote =>
      obtain ⟨rs, i, hi, hrl, hn⟩ := h
      refine ⟨_, _, runAll_atomicWrite _ _ _, rfl, rs, i, hi.saveMeta term vote, hrl, ?_⟩
      rw [(Disk.sameBut_replace hi.sound metaPath _ walPath (walPath_ne_tmp _) metaPath_ne.symm).1]
      exact hn
  | appendLog entries =>
      obtain ⟨m', hrun, h'⟩ := ready_appendLog entries h hs
      exact ⟨m', _, hrun, rfl, h'⟩
  | truncateSuffix fromIndex =>
      obtain ⟨rs, i, hi, hrl, hn⟩ := h
      obtain ⟨logs, hk, ha⟩ := truncate_ok hv
      obtain ⟨t, hl⟩ := hi.load
      exact ⟨_, _, runAll_appendOps hrl _, ha, _, i,
        hi.append hn hs ⟨rfl, rfl⟩ ⟨t, loadRecords_truncate gob hl hk⟩, hrl, hn⟩
  | saveSnapshot snapshotIndex sentinelTerm snapshot suffix =>
      obtain ⟨rs, i, hi, hrl, hn⟩ := h
      exact ⟨_, _, runAll_saveSnapshotOps (by simp [hrl]) _ suffix, rfl, _, _,
        image_saveSnapshot st hi.sound hi.metaFile hs, rfl, names_replace _ _ _⟩

/-- The reference states a crash inside a call may leave. -/
def CutBy (st : PersistState NodeID Cmd) (op : WalOp NodeID Cmd) (st' : PersistState NodeID Cmd) :
    Prop := ∃ k j, st.applyAll (Lib.torn WalOp.cut [op] k j) = some st'

theorem CutBy.whole {op : WalOp NodeID Cmd} {st' : PersistState NodeID Cmd}
    (h : st.apply op = some st') : CutBy st op st' := by
  refine ⟨1, 0, ?_⟩
  rw [torn_of_length_le _ _ (by simp), PersistState.applyAll_cons, h]
  rfl

theorem CutBy.nothing (st : PersistState NodeID Cmd) {op : WalOp NodeID Cmd}
    (h : ∀ entries, op ≠ .appendLog entries) : CutBy st op st := by
  refine ⟨0, 0, ?_⟩
  cases op with
  | appendLog entries => exact absurd rfl (h entries)
  | saveMeta => rfl
  | truncateSuffix => rfl
  | saveSnapshot => rfl

theorem CutBy.entries (st : PersistState NodeID Cmd) (entries : List (LogEntry Cmd)) (q : ℕ) :
    CutBy st (.appendLog entries) { st with logs := st.logs ++ entries.take q } := ⟨0, q, rfl⟩

/-- A crash may come before any part of the call has taken effect. -/
theorem CutBy.before (st : PersistState NodeID Cmd) (op : WalOp NodeID Cmd) : CutBy st op st := by
  cases op with
  | appendLog entries =>
      have h := CutBy.entries st entries 0
      rwa [List.take_zero, List.append_nil] at h
  | saveMeta => exact .nothing st fun _ e => by cases e
  | truncateSuffix => exact .nothing st fun _ e => by cases e
  | saveSnapshot => exact .nothing st fun _ e => by cases e

/-- **A crash inside a call** leaves what the reference may be left with. -/
theorem durable_crash (h : Ready gob m st) {op : WalOp NodeID Cmd} (hv : Valid st op)
    (hs : Small gob op) (k j : ℕ) :
    ∃ m' st', runAll (Lib.torn FsOp.cut (fileOps gob op) k j) m = some m' ∧ CutBy st op.stored st' ∧
      Durable gob m'.disk st' := by
  cases op with
  | saveMeta term vote =>
      obtain ⟨rs, i, hi, hrl, hn⟩ := h
      obtain ⟨m', hrun, _, hd⟩ := runAll_torn_atomicWrite metaPath (gob.encMeta ⟨term, vote⟩) m k j
      rcases hd with hd | ⟨x, hd⟩ | hd
      · exact ⟨m', st, hrun, .nothing st (fun _ e => (by cases e)), rs, [], hd ▸ hi⟩
      · exact ⟨m', st, hrun, .nothing st (fun _ e => (by cases e)), rs, [], hd ▸ hi.tmp _ x⟩
      · exact ⟨m', _, hrun, .whole rfl, rs, [], hd ▸ hi.saveMeta term vote⟩
  | appendLog entries =>
      obtain ⟨m', q, hrun, hd⟩ := torn_appendLog entries k j h hs
      exact ⟨m', _, hrun, .entries st entries q, hd⟩
  | truncateSuffix fromIndex =>
      obtain ⟨rs, i, hi, hrl, hn⟩ := h
      obtain ⟨logs, hk, ha⟩ := truncate_ok hv
      obtain ⟨t, hl⟩ := hi.load
      obtain ⟨m', hrun, hd⟩ := torn_appendOps hi hrl hn hs { st with logs := logs } ⟨rfl, rfl⟩
        ⟨t, loadRecords_truncate gob hl hk⟩ k j
      rcases hd with hd | hd
      · exact ⟨m', st, hrun, .nothing st (fun _ e => (by cases e)), hd⟩
      · exact ⟨m', _, hrun, .whole ha, hd⟩
  | saveSnapshot snapshotIndex sentinelTerm snapshot suffix =>
      obtain ⟨rs, i, hi, hrl, hn⟩ := h
      have hwhole : Durable gob _ _ := ⟨_, [], image_saveSnapshot st hi.sound hi.metaFile hs⟩
      show ∃ m' st', runAll (Lib.torn FsOp.cut (saveSnapshotOps gob _ suffix) k j) m = some m' ∧ _
      unfold saveSnapshotOps
      by_cases hk : k < (atomicWrite walPath (records.frames (snapshotRecords gob
          ⟨snapshotIndex, sentinelTerm, snapshot⟩ suffix))).length
      · rw [torn_append_lt _ _ hk]
        obtain ⟨m', hrun, _, hd⟩ := runAll_torn_atomicWrite walPath (records.frames
          (snapshotRecords gob ⟨snapshotIndex, sentinelTerm, snapshot⟩ suffix)) m k j
        rcases hd with hd | ⟨x, hd⟩ | hd
        · exact ⟨m', st, hrun, .nothing st (fun _ e => (by cases e)), rs, [], hd ▸ hi⟩
        · exact ⟨m', st, hrun, .nothing st (fun _ e => (by cases e)), rs, [], hd ▸ hi.tmp _ x⟩
        · exact ⟨m', _, hrun, .whole rfl, hd ▸ hwhole⟩
      · rw [torn_append_ge _ _ (Nat.le_of_not_lt hk), runAll_append, runAll_atomicWrite]
        obtain ⟨m', hrun, hd⟩ := torn_reopen (m := { m with disk := _, file := none })
          (by simp [hrl]) (names_replace _ _ _) _ j
        exact ⟨m', _, hrun, .whole rfl, hd ▸ hwhole⟩

end Calls

end RaftLab.FileWal

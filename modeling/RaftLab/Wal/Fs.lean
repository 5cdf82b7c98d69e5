/-
  File:      RaftLab/Wal/Fs.lean
  Subject:   `src/wal/fs.go` and `src/wal/atomic.go`: files, handles and `AtomicWrite`.

  A disk is a directory of names over inodes with contents; a handle is an inode, so a handle
  kept over a `Rename` of another file to its name points at the file that was replaced. A
  process (`Machine`) holds two handles: `file`, the local one of `AtomicWrite`, and `rl`, the
  append handle of the record log. What a `Write` has written is on the disk, as in
  `src/wal/memfs.go`; `Sync` and `SyncDir` change nothing. A crash keeps the disk and may leave
  any first part of a `Write` (`FsOp.cut`).

  `Disk.put`, `Disk.rename` and `Disk.append` are what a sequence of operations amounts to, with
  one lemma each on what `ReadFile` then returns. `runAll_torn_atomicWrite` is the point of
  `AtomicWrite`: a crash inside it leaves every other file as it was, and the file itself as it was
  or with the new contents. `runAll_spares`: a file that no operation names and no handle is on stays
  as it is.
-/
import RaftLab.Lib.Torn
import RaftLab.Raft1.Types
import Mathlib.Logic.Function.Basic

namespace RaftLab.Wal

open RaftLab.Lib
open RaftLab.Raft1 (Bytes)

/-- A file name; `tmp p` is `p + ".tmp"`. -/
inductive Path where
  | file (name : String)
  | tmp (p : Path)
  deriving DecidableEq

structure Disk where
  names : Path → Option ℕ
  data : ℕ → Bytes
  /-- Inodes from here on are unused. -/
  next : ℕ

/-- A process that uses the disk. -/
structure Machine where
  disk : Disk
  file : Option ℕ
  rl : Option ℕ

/-- A call on `FS` or `File`. -/
inductive FsOp where
  | create (name : Path)
  | write (data : Bytes)
  | sync
  | close
  | rename (oldpath newpath : Path)
  | syncDir
  | truncate (name : Path) (size : ℕ)
  | openLog (name : Path)
  | writeLog (data : Bytes)
  | syncLog
  | closeLog

/-- What a crash leaves of the call it falls into. -/
def FsOp.cut : FsOp → ℕ → List FsOp
  | .write data, j => [.write (data.take j)]
  | .writeLog data, j => [.writeLog (data.take j)]
  | _, _ => []

/-! ## 1. What operations do to a disk -/

namespace Disk

def empty : Disk := ⟨fun _ => none, fun _ => [], 0⟩

/-- `ReadFile`: a missing file reads as empty. -/
def readFile (d : Disk) (p : Path) : Bytes := (d.names p).elim [] d.data

/-- The inode of a name, a fresh one if there is none. -/
def inode (d : Disk) (p : Path) : ℕ := (d.names p).getD d.next

/-- The disk on which `p` is a file with the contents `x`. -/
def put (d : Disk) (p : Path) (x : Bytes) : Disk where
  names := Function.update d.names p (some (d.inode p))
  data := Function.update d.data (d.inode p) x
  next := max d.next (d.inode p + 1)

/-- The disk after `x` was written at the end of inode `i`. -/
def append (d : Disk) (i : ℕ) (x : Bytes) : Disk :=
  { d with data := Function.update d.data i (d.data i ++ x) }

/-- The disk after `Rename(oldpath, newpath)`; `oldpath` exists. -/
def rename (d : Disk) (oldpath newpath : Path) : Disk :=
  { d with names := Function.update (Function.update d.names newpath (d.names oldpath)) oldpath none }

/-- Names have inodes of their own, all in use. -/
structure Sound (d : Disk) : Prop where
  used : ∀ {p i}, d.names p = some i → i < d.next
  own : ∀ {p q i}, d.names p = some i → d.names q = some i → p = q

theorem sound_empty : empty.Sound := ⟨fun h => (by cases h), fun h => (by cases h)⟩

variable {d : Disk}

theorem Sound.inode_ne (h : d.Sound) {p q : Path} {i : ℕ} (hq : d.names q = some i) (hne : q ≠ p) :
    i ≠ d.inode p := by
  unfold inode
  intro e
  cases hp : d.names p with
  | none =>
      have := h.used hq
      rw [hp] at e
      simp at e
      omega
  | some j =>
      rw [hp] at e
      simp at e
      exact hne (h.own hq (e ▸ hp))

theorem Sound.put (h : d.Sound) (p : Path) (x : Bytes) : (d.put p x).Sound where
  used {q i} hq := by
    by_cases e : q = p
    · subst e
      simp only [Disk.put, Function.update_self, Option.some.injEq] at hq
      show i < max d.next (d.inode q + 1)
      omega
    · simp only [Disk.put, Function.update_of_ne e] at hq
      have := h.used hq
      show i < max d.next (d.inode p + 1)
      omega
  own {q r i} hq hr := by
    simp only [Disk.put] at hq hr
    by_cases e : q = p
    · by_cases e' : r = p
      · rw [e, e']
      · subst e
        rw [Function.update_self] at hq
        rw [Function.update_of_ne e'] at hr
        exact absurd (Option.some.inj hq).symm (h.inode_ne hr e')
    · rw [Function.update_of_ne e] at hq
      by_cases e' : r = p
      · subst e'
        rw [Function.update_self] at hr
        exact absurd (Option.some.inj hr).symm (h.inode_ne hq e)
      · rw [Function.update_of_ne e'] at hr
        exact h.own hq hr

theorem readFile_put (h : d.Sound) (p q : Path) (x : Bytes) :
    (d.put p x).readFile q = if q = p then x else d.readFile q := by
  unfold readFile
  by_cases e : q = p
  · subst e
    simp [put]
  · rw [if_neg e]
    simp only [put, Function.update_of_ne e]
    cases hq : d.names q with
    | none => rfl
    | some i => exact Function.update_of_ne (h.inode_ne hq e) _ _

theorem names_put_of_ne (d : Disk) {p q : Path} (x : Bytes) (e : q ≠ p) :
    (d.put p x).names q = d.names q := Function.update_of_ne e _ _

theorem Sound.append (h : d.Sound) (i : ℕ) (x : Bytes) : (d.append i x).Sound :=
  ⟨h.used, h.own⟩

/-- Writing at the end of a file's own inode. -/
theorem readFile_append (h : d.Sound) {p : Path} {i : ℕ} (hp : d.names p = some i) (q : Path)
    (x : Bytes) :
    (d.append i x).readFile q = if q = p then d.readFile p ++ x else d.readFile q := by
  unfold readFile
  by_cases e : q = p
  · subst e
    simp [append, hp]
  · rw [if_neg e]
    simp only [append]
    cases hq : d.names q with
    | none => rfl
    | some j =>
        have hij : j ≠ i := fun eij => e (h.own hq (eij ▸ hp))
        exact Function.update_of_ne hij _ _

theorem Sound.rename (h : d.Sound) (p q : Path) : (d.rename p q).Sound where
  used {r i} hr := by
    simp only [Disk.rename] at hr
    by_cases e : r = p
    · rw [e, Function.update_self] at hr
      cases hr
    · rw [Function.update_of_ne e] at hr
      by_cases e' : r = q
      · rw [e', Function.update_self] at hr
        exact h.used hr
      · rw [Function.update_of_ne e'] at hr
        exact h.used hr
  own {r s i} hr hs := by
    -- where a name of the new directory comes from in the old one
    have hold : ∀ {r i}, (d.rename p q).names r = some i →
        r ≠ p ∧ d.names (if r = q then p else r) = some i := by
      intro r i hr
      simp only [Disk.rename] at hr
      by_cases e : r = p
      · rw [e, Function.update_self] at hr
        cases hr
      · rw [Function.update_of_ne e] at hr
        by_cases e' : r = q
        · rw [e', Function.update_self] at hr
          exact ⟨e, by rw [if_pos e']; exact hr⟩
        · rw [Function.update_of_ne e'] at hr
          exact ⟨e, by rw [if_neg e']; exact hr⟩
    obtain ⟨hrp, hr'⟩ := hold hr
    obtain ⟨hsp, hs'⟩ := hold hs
    have e := h.own hr' hs'
    by_cases e1 : r = q
    · by_cases e2 : s = q
      · rw [e1, e2]
      · rw [if_pos e1, if_neg e2] at e
        exact absurd e.symm hsp
    · by_cases e2 : s = q
      · rw [if_neg e1, if_pos e2] at e
        exact absurd e hrp
      · rw [if_neg e1, if_neg e2] at e
        exact e

theorem readFile_rename (d : Disk) (p q r : Path) :
    (d.rename p q).readFile r =
      if r = p then [] else if r = q then d.readFile p else d.readFile r := by
  unfold readFile rename
  by_cases e : r = p
  · simp [e]
  · rw [if_neg e]
    simp only [Function.update_of_ne e]
    by_cases e' : r = q
    · simp [e']
    · simp [e']

theorem names_rename_of_ne (d : Disk) {p q r : Path} (h1 : r ≠ p) (h2 : r ≠ q) :
    (d.rename p q).names r = d.names r := by
  simp [rename, h1, h2]

end Disk

/-! ## 2. Running operations -/

/-- One call; `none` is an I/O error, which `must` turns into a panic. -/
def FsOp.run (m : Machine) : FsOp → Option Machine
  | .create name =>
      some { m with disk := m.disk.put name [], file := some (m.disk.inode name) }
  | .write data => do
      let i ← m.file
      some { m with disk := m.disk.append i data }
  | .sync => do
      let _ ← m.file
      some m
  | .close => do
      let _ ← m.file
      some { m with file := none }
  | .rename oldpath newpath =>
      if m.disk.names oldpath = none then none
      else some { m with disk := m.disk.rename oldpath newpath }
  | .syncDir => some m
  | .truncate name size =>
      if m.disk.names name = none ∨ (m.disk.readFile name).length < size then none
      else some { m with disk := m.disk.put name ((m.disk.readFile name).take size) }
  | .openLog name =>
      match m.disk.names name with
      | some i => some { m with rl := some i }
      | none => some { m with disk := m.disk.put name [], rl := some (m.disk.inode name) }
  | .writeLog data => do
      let i ← m.rl
      some { m with disk := m.disk.append i data }
  | .syncLog => do
      let _ ← m.rl
      some m
  | .closeLog => do
      let _ ← m.rl
      some { m with rl := none }

def runAll (ops : List FsOp) (m : Machine) : Option Machine := ops.foldlM FsOp.run m

@[simp] theorem runAll_nil (m : Machine) : runAll [] m = some m := rfl

theorem runAll_cons (op : FsOp) (ops : List FsOp) (m : Machine) :
    runAll (op :: ops) m = (op.run m).bind (runAll ops) := rfl

theorem runAll_append (ops ops' : List FsOp) (m : Machine) :
    runAll (ops ++ ops') m = (runAll ops m).bind (runAll ops') := by
  unfold runAll
  rw [List.foldlM_append]
  rfl

/-- Every operation keeps a disk sound. -/
theorem FsOp.run_sound {op : FsOp} {m m' : Machine} (h : m.disk.Sound) (hr : op.run m = some m') :
    m'.disk.Sound := by
  cases op with
  | create name =>
      cases hr
      exact h.put _ _
  | write data | writeLog data =>
      obtain ⟨i, _, e⟩ := Option.bind_eq_some_iff.mp hr
      cases e
      exact h.append _ _
  | sync | close | syncLog | closeLog =>
      obtain ⟨i, _, e⟩ := Option.bind_eq_some_iff.mp hr
      cases e
      exact h
  | rename oldpath newpath =>
      simp only [FsOp.run] at hr
      split at hr
      · cases hr
      · cases hr
        exact h.rename _ _
  | syncDir =>
      cases hr
      exact h
  | truncate name size =>
      simp only [FsOp.run] at hr
      split at hr
      · cases hr
      · cases hr
        exact h.put _ _
  | openLog name =>
      simp only [FsOp.run] at hr
      split at hr
      · cases hr
        exact h
      · cases hr
        exact h.put _ _

theorem runAll_sound {ops : List FsOp} {m m' : Machine} (h : m.disk.Sound)
    (hr : runAll ops m = some m') : m'.disk.Sound := by
  induction ops generalizing m with
  | nil =>
      cases hr
      exact h
  | cons op ops ih =>
      obtain ⟨m1, h1, h2⟩ := Option.bind_eq_some_iff.mp hr
      exact ih (op.run_sound h h1) h2

/-! ## 3. `AtomicWrite` -/

def atomicWrite (path : Path) (data : Bytes) : List FsOp :=
  [.create (.tmp path), .write data, .sync, .close, .rename (.tmp path) path, .syncDir]

theorem Disk.put_append (d : Disk) (p : Path) (x : Bytes) :
    (d.put p []).append (d.inode p) x = d.put p x := by
  simp [Disk.put, Disk.append]

theorem tmp_ne (p : Path) : Path.tmp p ≠ p := by
  intro e
  have := congrArg sizeOf e
  simp at this

/-- The files other than `p` and the temporary one are the same on both disks. -/
def SameBut (p : Path) (d d' : Disk) : Prop :=
  ∀ q, q ≠ .tmp p → q ≠ p → d'.names q = d.names q ∧ d'.readFile q = d.readFile q

/-- The disk after a completed `AtomicWrite`. -/
def Disk.replace (d : Disk) (path : Path) (data : Bytes) : Disk :=
  (d.put (.tmp path) data).rename (.tmp path) path

theorem runAll_atomicWrite (path : Path) (data : Bytes) (m : Machine) :
    runAll (atomicWrite path data) m =
      some { m with disk := m.disk.replace path data, file := none } := by
  have hex : (m.disk.put (.tmp path) data).names (.tmp path) ≠ none := by simp [Disk.put]
  unfold atomicWrite
  simp [runAll_cons, FsOp.run, Disk.put_append, hex, Disk.replace]

/-- **A crash inside `AtomicWrite`** leaves the disk, or the disk with some temporary file, or the
    replaced file. -/
theorem runAll_torn_atomicWrite (path : Path) (data : Bytes) (m : Machine) (k j : ℕ) :
    ∃ m', runAll (torn FsOp.cut (atomicWrite path data) k j) m = some m' ∧ m'.rl = m.rl ∧
      (m'.disk = m.disk ∨ (∃ x, m'.disk = m.disk.put (.tmp path) x) ∨
        m'.disk = m.disk.replace path data) := by
  have hex : (m.disk.put (.tmp path) data).names (.tmp path) ≠ none := by simp [Disk.put]
  unfold atomicWrite
  match k with
  | 0 => exact ⟨m, rfl, rfl, Or.inl rfl⟩
  | 1 =>
      refine ⟨_, rfl, rfl, Or.inr (Or.inl ⟨data.take j, ?_⟩)⟩
      exact Disk.put_append _ _ _
  | 2 | 3 | 4 =>
      refine ⟨_, rfl, rfl, Or.inr (Or.inl ⟨data, ?_⟩)⟩
      exact Disk.put_append _ _ _
  | 5 =>
      refine ⟨{ m with disk := m.disk.replace path data, file := none }, ?_, rfl,
        Or.inr (Or.inr rfl)⟩
      simp [FsOp.cut, runAll_cons, FsOp.run, Disk.put_append, hex, Disk.replace]
  | k + 6 =>
      refine ⟨{ m with disk := m.disk.replace path data, file := none }, ?_, rfl,
        Or.inr (Or.inr rfl)⟩
      rw [torn_of_length_le _ _ (by simp)]
      exact runAll_atomicWrite path data m

namespace Disk

variable {d : Disk}

theorem Sound.replace (h : d.Sound) (path : Path) (data : Bytes) : (d.replace path data).Sound :=
  (h.put _ _).rename _ _

theorem readFile_replace (h : d.Sound) (path : Path) (data : Bytes) :
    (d.replace path data).readFile path = data := by
  unfold replace
  rw [readFile_rename, if_neg (tmp_ne path).symm, if_pos rfl, readFile_put h, if_pos rfl]

theorem sameBut_replace (h : d.Sound) (path : Path) (data : Bytes) :
    SameBut path d (d.replace path data) := by
  intro q h1 h2
  unfold replace
  rw [names_rename_of_ne _ h1 h2, names_put_of_ne _ _ h1, readFile_rename, if_neg h1, if_neg h2,
    readFile_put h, if_neg h1]
  exact ⟨rfl, rfl⟩

/-- A temporary file is no other file. -/
theorem put_tmp (h : d.Sound) (path : Path) (x : Bytes) {q : Path} (hq : q ≠ .tmp path) :
    (d.put (.tmp path) x).names q = d.names q ∧
      (d.put (.tmp path) x).readFile q = d.readFile q := by
  rw [names_put_of_ne _ _ hq, readFile_put h, if_neg hq]
  exact ⟨rfl, rfl⟩

end Disk

/-! ## 4. Files that are left alone -/

/-- The operation does not name file `q`. -/
def FsOp.Spares (q : Path) : FsOp → Prop
  | .create name => name ≠ q
  | .rename oldpath newpath => oldpath ≠ q ∧ newpath ≠ q
  | .truncate name _ => name ≠ q
  | .openLog name => name ≠ q
  | _ => True

/-- No handle of the process is on file `q`. -/
structure Machine.Apart (q : Path) (m : Machine) : Prop where
  sound : m.disk.Sound
  file : ∀ i, m.file = some i → m.disk.names q ≠ some i
  rl : ∀ i, m.rl = some i → m.disk.names q ≠ some i

theorem Disk.readFile_append_of_ne {d : Disk} {q : Path} {i : ℕ} (h : d.names q ≠ some i)
    (x : Bytes) : (d.append i x).readFile q = d.readFile q := by
  unfold Disk.readFile Disk.append
  cases hq : d.names q with
  | none => rfl
  | some j =>
      have hj : j ≠ i := fun e => h (e ▸ hq)
      exact Function.update_of_ne hj _ _

/-- **A file that is not named and not open stays as it is.** -/
theorem FsOp.run_spares {op : FsOp} {q : Path} {m m' : Machine} (h : m.Apart q)
    (hop : op.Spares q) (hr : op.run m = some m') :
    m'.Apart q ∧ m'.disk.readFile q = m.disk.readFile q := by
  have put : ∀ {name : Path} (x : Bytes), name ≠ q →
      (m.disk.put name x).names q = m.disk.names q ∧
        (m.disk.put name x).readFile q = m.disk.readFile q ∧
        m.disk.names q ≠ some (m.disk.inode name) := by
    intro name x hne
    refine ⟨Disk.names_put_of_ne _ _ hne.symm, ?_, fun hq => h.sound.inode_ne hq hne.symm rfl⟩
    rw [Disk.readFile_put h.sound, if_neg hne.symm]
  cases op with
  | create name =>
      obtain ⟨h1, h2, h3⟩ := put [] hop
      cases hr
      refine ⟨⟨h.sound.put _ _, fun i hi => ?_, fun i hi => ?_⟩, h2⟩
      · cases hi
        exact h1 ▸ h3
      · exact h1 ▸ h.rl i hi
  | write data =>
      obtain ⟨i, hi, e⟩ := Option.bind_eq_some_iff.mp hr
      cases e
      exact ⟨⟨h.sound.append _ _, h.file, h.rl⟩, Disk.readFile_append_of_ne (h.file i hi) _⟩
  | writeLog data =>
      obtain ⟨i, hi, e⟩ := Option.bind_eq_some_iff.mp hr
      cases e
      exact ⟨⟨h.sound.append _ _, h.file, h.rl⟩, Disk.readFile_append_of_ne (h.rl i hi) _⟩
  | sync | syncLog =>
      obtain ⟨i, _, e⟩ := Option.bind_eq_some_iff.mp hr
      cases e
      exact ⟨h, rfl⟩
  | close =>
      obtain ⟨i, _, e⟩ := Option.bind_eq_some_iff.mp hr
      cases e
      exact ⟨⟨h.sound, fun j hj => (by cases hj), h.rl⟩, rfl⟩
  | closeLog =>
      obtain ⟨i, _, e⟩ := Option.bind_eq_some_iff.mp hr
      cases e
      exact ⟨⟨h.sound, h.file, fun j hj => (by cases hj)⟩, rfl⟩
  | syncDir =>
      cases hr
      exact ⟨h, rfl⟩
  | rename oldpath newpath =>
      simp only [FsOp.run] at hr
      split at hr
      · cases hr
      · cases hr
        have hn := Disk.names_rename_of_ne m.disk hop.1.symm hop.2.symm
        refine ⟨⟨h.sound.rename _ _, fun i hi => hn ▸ h.file i hi, fun i hi => hn ▸ h.rl i hi⟩, ?_⟩
        rw [Disk.readFile_rename, if_neg hop.1.symm, if_neg hop.2.symm]
  | truncate name size =>
      simp only [FsOp.run] at hr
      split at hr
      · cases hr
      · cases hr
        obtain ⟨h1, h2, _⟩ := put ((m.disk.readFile name).take size) hop
        exact ⟨⟨h.sound.put _ _, fun i hi => h1 ▸ h.file i hi, fun i hi => h1 ▸ h.rl i hi⟩, h2⟩
  | openLog name =>
      simp only [FsOp.run] at hr
      split at hr
      next i hi =>
        cases hr
        refine ⟨⟨h.sound, h.file, fun j hj hq => ?_⟩, rfl⟩
        cases hj
        exact hop (h.sound.own hi hq)
      next hnone =>
        obtain ⟨h1, h2, h3⟩ := put [] hop
        cases hr
        refine ⟨⟨h.sound.put _ _, fun i hi => h1 ▸ h.file i hi, fun i hi => ?_⟩, h2⟩
        cases hi
        exact h1 ▸ h3

theorem runAll_spares {ops : List FsOp} {q : Path} {m m' : Machine} (h : m.Apart q)
    (hops : ∀ op ∈ ops, op.Spares q) (hr : runAll ops m = some m') :
    m'.disk.readFile q = m.disk.readFile q := by
  induction ops generalizing m with
  | nil =>
      cases hr
      rfl
  | cons op ops ih =>
      obtain ⟨m1, h1, h2⟩ := Option.bind_eq_some_iff.mp hr
      obtain ⟨h', hread⟩ := op.run_spares h (hops op List.mem_cons_self) h1
      rw [ih h' (fun x hx => hops x (List.mem_cons_of_mem _ hx)) h2, hread]

theorem FsOp.Spares.torn {ops : List FsOp} {q : Path} (h : ∀ op ∈ ops, op.Spares q) (k j : ℕ) :
    ∀ op ∈ torn FsOp.cut ops k j, op.Spares q := by
  refine forall_torn h (fun op _ x hx => ?_) k
  cases op with
  | write | writeLog =>
      rw [List.mem_singleton.mp hx]
      trivial
  | create | sync | close | rename | syncDir | truncate | openLog | syncLog | closeLog =>
      exact absurd hx List.not_mem_nil

end RaftLab.Wal

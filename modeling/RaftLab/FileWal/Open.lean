/-
  File:      RaftLab/FileWal/Open.lean
  Subject:   `Open` on any disk.

  Whatever is in the two files, `Open` cuts the log behind its last whole record and opens it for
  append; it never fails.

  * `Opened m` -- the process `m` writes at the end of the file named `wal`;
  * `runAll_openOps`, `openWAL_total` -- **`Open` leaves `meta` alone, and of `wal` the records that
    `replayRecords` finds**;
  * `torn_openOps` -- a crash inside it leaves the log as it was, or cut.
-/
import RaftLab.FileWal.Refinement

namespace RaftLab.FileWal

open RaftLab.Lib RaftLab.Wal
open RaftLab.Raft1 (Bytes)

/-- The process has the log open. -/
structure Opened (m : Machine) : Prop where
  sound : m.disk.Sound
  file : m.file = none
  log : ∃ i, m.rl = some i ∧ m.disk.names walPath = some i

/-- The log as `Open` leaves it. -/
def healed (data : Bytes) : Bytes := records.frames (replayRecords data).1

variable {d : Disk}

theorem healed_eq_take (data : Bytes) : healed data = data.take (replayRecords data).2 := by
  obtain ⟨_, hpre, hlen⟩ := replayRecords_found data
  rw [hlen]
  exact List.prefix_iff_eq_take.mp hpre

/-- Nothing is cut off exactly if the whole file is records. -/
theorem healed_eq_self_iff (data : Bytes) :
    healed data = data ↔ (replayRecords data).2 = data.length := by
  obtain ⟨_, hpre, hlen⟩ := replayRecords_found data
  constructor
  · intro h
    rw [hlen]
    exact congrArg List.length h
  · intro h
    exact hpre.eq_of_length (hlen.symm.trans h)

theorem openOps_whole {data : Bytes} (h : healed data = data) :
    openOps data = [.openLog walPath] := by
  have hlen := (healed_eq_self_iff data).mp h
  simp [openOps, hlen]

theorem openOps_torn {data : Bytes} (h : healed data ≠ data) :
    openOps data = [.truncate walPath (replayRecords data).2, .openLog walPath] := by
  have hlen := mt (healed_eq_self_iff data).mpr h
  simp [openOps, hlen]

/-- `OpenAppend` creates the file if there is none, and changes no file. -/
theorem openLog_any (hs : d.Sound) :
    ∃ m, FsOp.run ⟨d, none, none⟩ (.openLog walPath) = some m ∧ Opened m ∧
      ∀ p, m.disk.readFile p = d.readFile p := by
  cases hn : d.names walPath with
  | some i => exact ⟨⟨d, none, some i⟩, by simp [FsOp.run, hn], ⟨hs, rfl, i, rfl, hn⟩, fun _ => rfl⟩
  | none =>
      refine ⟨⟨d.put walPath [], none, some (d.inode walPath)⟩, by simp [FsOp.run, hn],
        ⟨hs.put _ _, rfl, _, rfl, by simp [Disk.put]⟩, fun p => ?_⟩
      rw [Disk.readFile_put hs]
      split
      next e => simp [e, Disk.readFile, hn]
      · rfl

/-- The tail is cut off. -/
theorem truncate_any (hall : healed (d.readFile walPath) ≠ d.readFile walPath) :
    FsOp.run ⟨d, none, none⟩ (.truncate walPath (replayRecords (d.readFile walPath)).2) =
      some ⟨d.put walPath (healed (d.readFile walPath)), none, none⟩ := by
  -- something is cut off, so the file is there
  have hex : d.names walPath ≠ none := by
    intro hnone
    have hempty : d.readFile walPath = [] := by simp [Disk.readFile, hnone]
    rw [hempty] at hall
    exact hall rfl
  obtain ⟨_, hpre, hlen⟩ := replayRecords_found (d.readFile walPath)
  have hle : (replayRecords (d.readFile walPath)).2 ≤ (d.readFile walPath).length :=
    hlen ▸ hpre.length_le
  have hno : ¬ (d.names walPath = none ∨
      (d.readFile walPath).length < (replayRecords (d.readFile walPath)).2) := by
    intro h
    rcases h with h | h
    · exact hex h
    · omega
  simp only [FsOp.run, if_neg hno, healed_eq_take]

/-- The disk after the tail was cut off, if there is one. -/
def cutTail (d : Disk) : Disk :=
  if healed (d.readFile walPath) = d.readFile walPath then d
  else d.put walPath (healed (d.readFile walPath))

theorem cutTail_spec (hs : d.Sound) :
    (cutTail d).Sound ∧ (cutTail d).readFile walPath = healed (d.readFile walPath) ∧
      (cutTail d).readFile metaPath = d.readFile metaPath := by
  unfold cutTail
  split
  next h => exact ⟨hs, h.symm, rfl⟩
  next h =>
    rw [Disk.readFile_put hs, Disk.readFile_put hs, if_pos rfl, if_neg metaPath_ne]
    exact ⟨hs.put _ _, rfl, rfl⟩

/-- **The operations of `Open`.** -/
theorem runAll_openOps (hs : d.Sound) :
    ∃ m, runAll (openOps (d.readFile walPath)) ⟨d, none, none⟩ = some m ∧ Opened m ∧
      ∀ p, m.disk.readFile p = (cutTail d).readFile p := by
  obtain ⟨m, hm, hopen, hfiles⟩ := openLog_any (cutTail_spec hs).1
  refine ⟨m, ?_, hopen, hfiles⟩
  unfold cutTail at hm
  by_cases hall : healed (d.readFile walPath) = d.readFile walPath
  · rw [if_pos hall] at hm
    rw [openOps_whole hall, runAll_cons, hm]
    rfl
  · rw [if_neg hall] at hm
    rw [openOps_torn hall, runAll_cons, truncate_any hall, Option.bind_some, runAll_cons, hm]
    rfl

/-- **A crash inside `Open`.** -/
theorem torn_openOps (hs : d.Sound) (k j : ℕ) :
    ∃ m, runAll (torn FsOp.cut (openOps (d.readFile walPath)) k j) ⟨d, none, none⟩ = some m ∧
      m.disk.Sound ∧ (m.disk = d ∨ ∀ p, m.disk.readFile p = (cutTail d).readFile p) := by
  by_cases hk : (openOps (d.readFile walPath)).length ≤ k
  · obtain ⟨m, hm, hopen, hfiles⟩ := runAll_openOps hs
    rw [torn_of_length_le _ _ hk]
    exact ⟨m, hm, hopen.sound, .inr hfiles⟩
  · by_cases hall : healed (d.readFile walPath) = d.readFile walPath
    · rw [openOps_whole hall] at hk ⊢
      obtain rfl : k = 0 := by
        rw [List.length_singleton] at hk
        omega
      exact ⟨_, rfl, hs, .inl rfl⟩
    · rw [openOps_torn hall] at hk ⊢
      match k, hk with
      | 0, _ => exact ⟨_, rfl, hs, .inl rfl⟩
      | 1, _ =>
          rw [torn_cons_succ, torn_cons_zero, runAll_cons, truncate_any hall]
          refine ⟨_, rfl, hs.put _ _, .inr fun p => ?_⟩
          unfold cutTail
          rw [if_neg hall]
      | k + 2, hk => exact absurd (Nat.le_add_left 2 k) hk

/-- **`Open` never fails**: it finds the records `replayRecords` finds. -/
theorem openWAL_total (hs : d.Sound) :
    ∃ fw, openWAL d = some fw ∧ Opened fw.mach ∧
      fw.records = (replayRecords (d.readFile walPath)).1 ∧
      fw.mach.disk.readFile walPath = records.frames fw.records ∧
      fw.mach.disk.readFile metaPath = d.readFile metaPath := by
  obtain ⟨m, hm, hopen, hfiles⟩ := runAll_openOps hs
  obtain ⟨_, hwal, hmeta⟩ := cutTail_spec hs
  unfold openWAL
  dsimp only
  rw [hm]
  exact ⟨_, rfl, hopen, rfl, (hfiles walPath).trans hwal, (hfiles metaPath).trans hmeta⟩

end RaftLab.FileWal

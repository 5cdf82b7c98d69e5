/-
  File:      RaftLab/FileWal/AnyCalls.lean
  Subject:   FileWAL under any calls, whatever they mean.

  A process opens the log and makes calls in any order and with any arguments, also a
  `TruncateSuffix` that is out of range or a record that is too long; it may die in any file
  operation of a call or of `Open`. Nothing is assumed of what the records mean, so `Load` may panic
  on what is left. `ok` says which calls complete in a run.

  * `Store.Held` -- **no call fails**, a process always writes at the end of the file named `wal`,
    and the meta file can always be loaded;
  * `run_of_trace` -- the runs of Recovery.lean are among these.
-/
import RaftLab.FileWal.Recovery

namespace RaftLab.FileWal

open Relation
open RaftLab.Lib RaftLab.Wal
open RaftLab.Raft1 (Bytes LogEntry PersistState WalOp)

/-! ## 1. Runs -/

/-- A process that has the log open, or a disk without a process. -/
inductive Store where
  | up (fw : FileWAL)
  | down (disk : Disk)

def Store.disk : Store → Disk
  | .up fw => fw.mach.disk
  | .down d => d

def Store.process : Store → Option FileWAL
  | .up fw => some fw
  | .down _ => none

theorem Store.process_eq {s : Store} {fw : FileWAL} (h : s.process = some fw) : s = .up fw := by
  cases s with
  | up fw' =>
      cases h
      rfl
  | down d => cases h

section Runs

variable {NodeID Cmd : Type} (gob : Gob NodeID Cmd) (ok : WalOp NodeID Cmd → Prop)

/-- Any call, if it completes one that `ok` lets; a crash in any file operation of a call or of
    `Open`; and `Open`. -/
inductive Store.Step : Store → Store → Prop where
  | call {fw fw' : FileWAL} (op : WalOp NodeID Cmd) (hs : ok op)
      (hc : fw.call gob op = some fw') : Step (.up fw) (.up fw')
  | crash {fw : FileWAL} {d : Disk} (op : WalOp NodeID Cmd) (k j : ℕ)
      (hc : fw.crash gob op k j = some d) : Step (.up fw) (.down d)
  | kill {fw : FileWAL} : Step (.up fw) (.down fw.mach.disk)
  | openCrash {d d' : Disk} (k j : ℕ) (hc : FileWal.openCrash d k j = some d') :
      Step (.down d) (.down d')
  | openWAL {d : Disk} {fw : FileWAL} (ho : FileWal.openWAL d = some fw) :
      Step (.down d) (.up fw)

abbrev Store.Run : Store → Store → Prop := ReflTransGen (Store.Step gob ok)

/-- What an action does, if it can be taken. -/
def Store.next [DecidablePred ok] : Store → Action NodeID Cmd → Option Store
  | .up fw, .call op => if ok op then (fw.call gob op).map .up else none
  | .up fw, .crash op k j => (fw.crash gob op k j).map .down
  | .up fw, .kill => some (.down fw.mach.disk)
  | .down d, .openCrash k j => (FileWal.openCrash d k j).map .down
  | .down d, .start => (FileWal.openWAL d).map .up
  | _, _ => none

variable {gob ok}

theorem Store.Step.mono {ok' : WalOp NodeID Cmd → Prop} (hok : ∀ op, ok op → ok' op) {s s' : Store}
    (h : Store.Step gob ok s s') : Store.Step gob ok' s s' := by
  cases h with
  | call op hs hc => exact .call op (hok op hs) hc
  | crash op k j hc => exact .crash op k j hc
  | kill => exact .kill
  | openCrash k j hc => exact .openCrash k j hc
  | openWAL ho => exact .openWAL ho

theorem Store.next_step [DecidablePred ok] {s s' : Store} {act : Action NodeID Cmd}
    (h : s.next gob ok act = some s') : Store.Step gob ok s s' := by
  cases s with
  | up fw =>
      cases act with
      | call op =>
          by_cases hs : ok op
          · simp only [Store.next, if_pos hs] at h
            obtain ⟨fw', hc, rfl⟩ := Option.map_eq_some_iff.mp h
            exact .call op hs hc
          · simp [Store.next, if_neg hs] at h
      | crash op k j =>
          obtain ⟨d, hc, rfl⟩ := Option.map_eq_some_iff.mp h
          exact .crash op k j hc
      | kill =>
          cases h
          exact .kill
      | openCrash | start => cases h
  | down d =>
      cases act with
      | openCrash k j =>
          obtain ⟨d', hc, rfl⟩ := Option.map_eq_some_iff.mp h
          exact .openCrash k j hc
      | start =>
          obtain ⟨fw, ho, rfl⟩ := Option.map_eq_some_iff.mp h
          exact .openWAL ho
      | call | crash | kill => cases h

theorem Store.run_of_play [DecidablePred ok] {s s' : Store} {acts : List (Action NodeID Cmd)}
    (h : Lib.play (Store.next gob ok) s acts = some s') : Store.Run gob ok s s' := by
  refine (play_run h).lift id ?_
  intro s s' hs
  obtain ⟨act, hact⟩ := hs
  exact Store.next_step hact

/-- A node without what its process believes. -/
def Node.store : Node NodeID Cmd → Store
  | .up fw _ => .up fw
  | .down d => .down d

variable [Inhabited Cmd]

/-- **A run of calls in range is a run of calls.** -/
theorem run_of_trace {es : List (Event NodeID Cmd)} {n n' : Node NodeID Cmd}
    (h : Trace (Step gob) n es n') : Store.Run gob (Small gob) n.store n'.store := by
  induction h with
  | nil => exact .refl
  | snoc _ hs ih =>
      refine ih.tail ?_
      cases hs with
      | call _ hsm hc _ => exact .call _ hsm hc
      | crash k j _ _ hc => exact .crash _ k j hc
      | kill => exact .kill
      | openCrash k j hc => exact .openCrash k j hc
      | start ho _ => exact .openWAL ho

end Runs

/-! ## 2. What every run keeps -/

section Held

variable {NodeID Cmd : Type} {gob : Gob NodeID Cmd} {m m' : Machine}

/-- The handle of the log is on no other file. -/
theorem Opened.apart (h : Opened m) : m.Apart metaPath where
  sound := h.sound
  file i hi := by
    rw [h.file] at hi
    cases hi
  rl i hi hmeta := by
    obtain ⟨i', hrl, hn⟩ := h.log
    cases hrl.symm.trans hi
    exact metaPath_ne (h.sound.own hmeta hn)

theorem Opened.append (h : Opened m) (payload : Bytes) :
    ∃ m', runAll (appendOps payload) m = some m' ∧ Opened m' := by
  obtain ⟨i, hrl, hn⟩ := h.log
  exact ⟨_, runAll_appendOps hrl payload, h.sound.append i _, h.file, i, hrl, hn⟩

variable (gob) in
/-- **No call fails**, and afterwards the process writes at the end of the log. -/
theorem Opened.call (h : Opened m) (op : WalOp NodeID Cmd) :
    ∃ m', runAll (fileOps gob op) m = some m' ∧ Opened m' := by
  cases op with
  | saveMeta term vote =>
      obtain ⟨i, hrl, hn⟩ := h.log
      have hnames := (Disk.sameBut_replace h.sound metaPath (gob.encMeta ⟨term, vote⟩) walPath
        (walPath_ne_tmp _) metaPath_ne.symm).1
      exact ⟨_, runAll_atomicWrite _ _ m, h.sound.replace _ _, rfl, i, hrl, hnames.trans hn⟩
  | appendLog entries =>
      show ∃ m', runAll (appendLogOps gob entries) m = some m' ∧ Opened m'
      induction entries generalizing m with
      | nil => exact ⟨m, rfl, h⟩
      | cons e entries ih =>
          obtain ⟨m1, h1, hopen⟩ := h.append (encodeEntry gob e)
          obtain ⟨m2, h2, hopen'⟩ := ih hopen
          refine ⟨m2, ?_, hopen'⟩
          show runAll (appendOps (encodeEntry gob e) ++ appendLogOps gob entries) m = some m2
          rw [runAll_append, h1]
          exact h2
  | truncateSuffix fromIndex => exact h.append _
  | saveSnapshot snapshotIndex sentinelTerm snapshot suffix =>
      obtain ⟨i, hrl, _⟩ := h.log
      exact ⟨_, runAll_saveSnapshotOps (by simp [hrl]) _ suffix, h.sound.replace _ _, rfl, _, rfl,
        names_replace _ _ _⟩

variable (gob) in
/-- `Load` finds a meta file it can decode, or none. -/
def MetaLoads (d : Disk) : Prop := ∃ s, loadMeta gob (d.readFile metaPath) = some s

variable (gob) in
/-- The calls but `SaveMeta` do not touch the meta file. -/
theorem fileOps_spares {op : WalOp NodeID Cmd} (hop : ∀ term vote, op ≠ .saveMeta term vote) :
    ∀ x ∈ fileOps gob op, x.Spares metaPath := by
  cases op with
  | saveMeta term vote => exact absurd rfl (hop term vote)
  | appendLog entries =>
      intro x hx
      obtain ⟨e, _, hx⟩ := List.mem_flatMap.mp hx
      rcases List.mem_pair.mp hx with rfl | rfl <;> trivial
  | truncateSuffix fromIndex =>
      intro x hx
      rcases List.mem_pair.mp hx with rfl | rfl <;> trivial
  | saveSnapshot snapshotIndex sentinelTerm snapshot suffix =>
      have htmp : Path.tmp walPath ≠ metaPath := (metaPath_ne_tmp walPath).symm
      simp only [fileOps, saveSnapshotOps, atomicWrite, List.cons_append, List.nil_append,
        List.forall_mem_cons, FsOp.Spares]
      exact ⟨htmp, trivial, trivial, trivial, ⟨htmp, metaPath_ne.symm⟩, trivial, trivial,
        metaPath_ne.symm, fun _ hx => absurd hx List.not_mem_nil⟩

/-- **A call, whole or cut by a crash, leaves a meta file that can be loaded.** -/
theorem MetaLoads.torn (h : MetaLoads gob m.disk) (hopen : Opened m) {op : WalOp NodeID Cmd}
    {k j : ℕ} (hr : runAll (torn FsOp.cut (fileOps gob op) k j) m = some m') :
    MetaLoads gob m'.disk := by
  by_cases hop : ∃ term vote, op = .saveMeta term vote
  · obtain ⟨term, vote, rfl⟩ := hop
    obtain ⟨m1, hr1, _, hd⟩ := runAll_torn_atomicWrite metaPath (gob.encMeta ⟨term, vote⟩) m k j
    cases hr.symm.trans hr1
    rcases hd with e | ⟨x, e⟩ | e <;> rw [MetaLoads, e]
    · exact h
    · rw [(Disk.put_tmp hopen.sound metaPath x (metaPath_ne_tmp _)).2]
      exact h
    · rw [Disk.readFile_replace hopen.sound]
      exact ⟨_, loadMeta_encMeta term vote⟩
  · have hspare := fileOps_spares gob fun term vote e => hop ⟨term, vote, e⟩
    rw [MetaLoads, runAll_spares hopen.apart (FsOp.Spares.torn hspare k j) hr]
    exact h

theorem MetaLoads.call (h : MetaLoads gob m.disk) (hopen : Opened m) {op : WalOp NodeID Cmd}
    (hr : runAll (fileOps gob op) m = some m') : MetaLoads gob m'.disk := by
  have hwhole : runAll (Lib.torn FsOp.cut (fileOps gob op) (fileOps gob op).length 0) m = some m' := by
    rw [torn_of_length_le _ _ (Nat.le_refl _)]
    exact hr
  exact h.torn hopen hwhole

variable (gob) in
def Store.Held : Store → Prop
  | .up fw => Opened fw.mach ∧ MetaLoads gob fw.mach.disk
  | .down d => d.Sound ∧ MetaLoads gob d

theorem Store.Held.disk {s : Store} (h : s.Held gob) : s.disk.Sound ∧ MetaLoads gob s.disk := by
  cases s with
  | up fw => exact ⟨h.1.sound, h.2⟩
  | down d => exact h

theorem Store.held_empty : (Store.down Disk.empty).Held gob := ⟨Disk.sound_empty, _, rfl⟩

theorem Store.Step.held {ok : WalOp NodeID Cmd → Prop} {s s' : Store}
    (h : Store.Step gob ok s s') (hh : s.Held gob) : s'.Held gob := by
  cases h with
  | call op _ hc =>
      obtain ⟨m, hr, e⟩ := Option.bind_eq_some_iff.mp hc
      cases e
      obtain ⟨m', hr', hopen⟩ := hh.1.call gob op
      cases hr.symm.trans hr'
      exact ⟨hopen, hh.2.call hh.1 hr⟩
  | crash op k j hc =>
      obtain ⟨m, hr, e⟩ := Option.bind_eq_some_iff.mp hc
      cases e
      exact ⟨runAll_sound hh.1.sound hr, hh.2.torn hh.1 hr⟩
  | kill => exact ⟨hh.1.sound, hh.2⟩
  | @openCrash d _ k j hc =>
      obtain ⟨m, hr, e⟩ := Option.bind_eq_some_iff.mp hc
      cases e
      obtain ⟨m', hr', hs, hd⟩ := torn_openOps hh.1 k j
      cases hr.symm.trans hr'
      refine ⟨hs, ?_⟩
      have hmeta : m.disk.readFile metaPath = d.readFile metaPath := by
        rcases hd with e | hfiles
        · rw [e]
        · rw [hfiles, (cutTail_spec hh.1).2.2]
      rw [MetaLoads, hmeta]
      exact hh.2
  | openWAL ho =>
      obtain ⟨fw', ho', hopen, _, _, hmeta⟩ := openWAL_total hh.1
      cases ho.symm.trans ho'
      refine ⟨hopen, ?_⟩
      rw [MetaLoads, hmeta]
      exact hh.2

/-- **In every run from an empty disk.** -/
theorem Store.held_run {ok : WalOp NodeID Cmd → Prop} {s : Store}
    (h : Store.Run gob ok (.down Disk.empty) s) : s.Held gob :=
  run_inv (I := Store.Held gob) (fun _ _ hs hh => hs.held hh) h Store.held_empty

end Held

end RaftLab.FileWal

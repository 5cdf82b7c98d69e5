/-
  File:      RaftLab/FileWal/Recovery.lean
  Subject:   `Open` and `Load` after a crash, and FileWAL over whole runs.

  `Open` cuts a torn record off the log before it opens it for append (Open.lean); `Load` then
  returns the state the disk holds (`open_load`). With the calls of Refinement.lean this gives the
  runs: a process that makes calls, dies at any file operation of a call or of `Open`, and is
  started again (`Step`). The reference (`RefStep`) is the state of the WAL contract, and
  `Refines` is kept by every step.

  * `filewal_crash_refinement` -- every run of the files is a run of the reference in which each
    `Load` returns the reference state, and no call, crash or restart gets stuck.
-/
import RaftLab.Lib.Runs
import RaftLab.Lib.Unary
import RaftLab.FileWal.Open

namespace RaftLab.FileWal

open RaftLab.Lib RaftLab.Wal
open RaftLab.Raft1 (Bytes LogEntry PersistState WalOp)

variable {NodeID Cmd : Type} [Inhabited Cmd] {gob : Gob NodeID Cmd}

/-! ## 1. `Open` and `Load` -/

section Open

variable {d : Disk} {st : PersistState NodeID Cmd} {rs : List Bytes} {tail : Bytes}

/-- Reading the log finds its whole records. -/
theorem Image.replay (h : Image gob d st rs tail) :
    replayRecords (d.readFile walPath) = (rs, (records.frames rs).length) := by
  rw [h.log]
  exact replayRecords_frames h.fits h.tail

/-- Without the torn record it is the image of the same state. -/
theorem Image.cutTail (h : Image gob d st rs tail) : Image gob (cutTail d) st rs [] := by
  obtain ⟨hs, hwal, hmeta⟩ := cutTail_spec h.sound
  rw [healed, h.replay] at hwal
  exact ⟨hs, hmeta ▸ h.metaFile, by rw [hwal, List.append_nil], h.fits, nextRecord_nil, h.load⟩

/-- **A crash inside `Open`** leaves the same state. -/
theorem durable_openCrash (h : Durable gob d st) (k j : ℕ) :
    ∃ d', openCrash d k j = some d' ∧ Durable gob d' st := by
  obtain ⟨rs, tail, h⟩ := h
  obtain ⟨m, hm, hs, hd⟩ := torn_openOps h.sound k j
  refine ⟨m.disk, by unfold openCrash; rw [hm]; rfl, ?_⟩
  rcases hd with e | hfiles
  · rw [e]
    exact ⟨rs, tail, h⟩
  · exact ⟨rs, [], h.cutTail.congr hs (hfiles metaPath) (hfiles walPath)⟩

/-- What `Load` returns on the records found by `Open`. -/
theorem load_eq (fw : FileWAL) (h : Image gob fw.mach.disk st fw.records tail) :
    fw.load gob = some (st, decide ((fw.mach.disk.readFile metaPath).length > 0 ∨
      fw.records.length > 0)) := by
  obtain ⟨t, hl⟩ := h.load
  simp only [FileWAL.load, h.metaFile, hl]
  rfl

/-- **`Open` and `Load`** return the state the disk holds, and the process can go on from it. -/
theorem Image.openLoad (h : Image gob d st rs tail) :
    ∃ fw, openWAL d = some fw ∧ Ready gob fw.mach st ∧
      fw.load gob = some (st, decide ((d.readFile metaPath).length > 0 ∨ rs.length > 0)) := by
  obtain ⟨fw, ho, hopen, hrecs, hwal, hmeta⟩ := openWAL_total h.sound
  rw [h.replay] at hrecs
  dsimp only at hrecs
  have himg : Image gob fw.mach.disk st fw.records [] :=
    ⟨hopen.sound, hmeta ▸ h.metaFile, by rw [hwal, List.append_nil], hrecs ▸ h.fits,
      nextRecord_nil, hrecs ▸ h.load⟩
  obtain ⟨i, hrl, hn⟩ := hopen.log
  refine ⟨fw, ho, ⟨_, i, himg, hrl, hn⟩, ?_⟩
  rw [load_eq fw himg, hmeta, hrecs]

theorem open_load (h : Durable gob d st) :
    ∃ fw ok, openWAL d = some fw ∧ fw.load gob = some (st, ok) ∧ Ready gob fw.mach st := by
  obtain ⟨rs, tail, h⟩ := h
  obtain ⟨fw, ho, hready, hl⟩ := h.openLoad
  exact ⟨fw, _, ho, hl, hready⟩

/-- What `Load` returns is what the opened files are the image of. -/
theorem image_of_load {fw : FileWAL} {ok : Bool} (hs : d.Sound) (ho : openWAL d = some fw)
    (hl : fw.load gob = some (st, ok)) : Image gob fw.mach.disk st fw.records [] := by
  obtain ⟨fw', ho', hopen, hrecs, hwal, _⟩ := openWAL_total hs
  obtain rfl : fw' = fw := Option.some.inj (ho'.symm.trans ho)
  obtain ⟨s, hmeta, hl⟩ := Option.bind_eq_some_iff.mp hl
  obtain ⟨⟨hdr, logs⟩, hload, e⟩ := Option.bind_eq_some_iff.mp hl
  cases e
  refine ⟨hopen.sound, hmeta, by rw [hwal, List.append_nil], ?_, nextRecord_nil, _, hload⟩
  rw [hrecs]
  exact (replayRecords_found _).1

end Open

/-! ## 2. Runs -/

/-- A process with the state it believes to be durable: what `Load` returned and the calls since;
    or a disk without a process. -/
inductive Node (NodeID Cmd : Type) where
  | up (fw : FileWAL) (view : PersistState NodeID Cmd)
  | down (disk : Disk)

/-- What happens to a node. -/
inductive Event (NodeID Cmd : Type) where
  | call (op : WalOp NodeID Cmd)
  /-- The process dies inside the call, or after it before it returns. -/
  | crash (op : WalOp NodeID Cmd)
  /-- The process dies between two calls. -/
  | kill
  | openCrash
  /-- `Open` and `Load`, with what `Load` returned. -/
  | start (loaded : PersistState NodeID Cmd)
  deriving DecidableEq

variable (gob) in
inductive Step : Node NodeID Cmd → Event NodeID Cmd → Node NodeID Cmd → Prop where
  | call {fw fw' : FileWAL} {view view' : PersistState NodeID Cmd} {op : WalOp NodeID Cmd}
      (hv : Valid view op) (hs : Small gob op) (hc : fw.call gob op = some fw')
      (hview : view.apply op.stored = some view') : Step (.up fw view) (.call op) (.up fw' view')
  | crash {fw : FileWAL} {view : PersistState NodeID Cmd} {op : WalOp NodeID Cmd} {d : Disk}
      (k j : ℕ) (hv : Valid view op) (hs : Small gob op) (hc : fw.crash gob op k j = some d) :
      Step (.up fw view) (.crash op) (.down d)
  | kill {fw : FileWAL} {view : PersistState NodeID Cmd} :
      Step (.up fw view) .kill (.down fw.mach.disk)
  | openCrash {d d' : Disk} (k j : ℕ) (hc : FileWal.openCrash d k j = some d') :
      Step (.down d) .openCrash (.down d')
  | start {d : Disk} {fw : FileWAL} {loaded : PersistState NodeID Cmd} {ok : Bool}
      (ho : openWAL d = some fw) (hl : fw.load gob = some (loaded, ok)) :
      Step (.down d) (.start loaded) (.up fw loaded)

/-- The reference: a crash leaves of the call it cuts what `CutBy` says, and `Load` returns the
    state. -/
inductive RefStep : PersistState NodeID Cmd → Event NodeID Cmd → PersistState NodeID Cmd → Prop where
  | call {st st' : PersistState NodeID Cmd} {op : WalOp NodeID Cmd}
      (h : st.apply op.stored = some st') :
      RefStep st (.call op) st'
  | crash {st st' : PersistState NodeID Cmd} {op : WalOp NodeID Cmd}
      (h : CutBy st op.stored st') :
      RefStep st (.crash op) st'
  | kill {st : PersistState NodeID Cmd} : RefStep st .kill st
  | openCrash {st : PersistState NodeID Cmd} : RefStep st .openCrash st
  | start {st : PersistState NodeID Cmd} : RefStep st (.start st) st

variable (gob) in
/-- The node holds the reference state. -/
def Refines : Node NodeID Cmd → PersistState NodeID Cmd → Prop
  | .up fw view, st => view = st ∧ Ready gob fw.mach st
  | .down d, st => Durable gob d st

/-- One step keeps the node in step with the reference. -/
theorem refines_step (n n' : Node NodeID Cmd) (e : Event NodeID Cmd) (st : PersistState NodeID Cmd)
    (hs : Step gob n e n') (hr : Refines gob n st) : ∃ st', RefStep st e st' ∧ Refines gob n' st' := by
  cases hs with
  | call hv hsm hc hview =>
      obtain ⟨rfl, hr⟩ := hr
      obtain ⟨m', st', hrun, ha, hr'⟩ := ready_call hr hv hsm
      rw [FileWAL.call, hrun] at hc
      cases hc
      cases hview.symm.trans ha
      exact ⟨_, .call ha, rfl, hr'⟩
  | crash k j hv hsm hc =>
      obtain ⟨rfl, hr⟩ := hr
      obtain ⟨m', st', hrun, ha, hd⟩ := durable_crash hr hv hsm k j
      rw [FileWAL.crash, hrun] at hc
      cases hc
      exact ⟨st', .crash ha, hd⟩
  | kill => exact ⟨st, .kill, hr.2.durable⟩
  | openCrash k j hc =>
      obtain ⟨d', hc', hd⟩ := durable_openCrash hr k j
      cases hc.symm.trans hc'
      exact ⟨st, .openCrash, hd⟩
  | start ho hl =>
      obtain ⟨fw, ok, ho', hl', hrdy⟩ := open_load hr
      cases ho.symm.trans ho'
      cases hl.symm.trans hl'
      exact ⟨st, .start, rfl, hrdy⟩

variable (gob) in
/-- Nothing panics: a process carries out every valid call, whole or up to any point, and a disk
    can be started from, whole or up to any point, with `st` loaded. -/
def Live (st : PersistState NodeID Cmd) : Node NodeID Cmd → Prop
  | .up fw _ => ∀ op, Valid st op → Small gob op →
      (fw.call gob op).isSome ∧ ∀ k j, (fw.crash gob op k j).isSome
  | .down d => (∃ fw ok, openWAL d = some fw ∧ fw.load gob = some (st, ok)) ∧
      ∀ k j, (openCrash d k j).isSome

theorem Refines.live {n : Node NodeID Cmd} {st : PersistState NodeID Cmd} (h : Refines gob n st) :
    Live gob st n := by
  cases n with
  | up fw view =>
      obtain ⟨rfl, hr⟩ := h
      intro op hv hs
      constructor
      · obtain ⟨m', _, hrun, _⟩ := ready_call hr hv hs
        rw [FileWAL.call, hrun]
        rfl
      · intro k j
        obtain ⟨m', _, hrun, _⟩ := durable_crash hr hv hs k j
        rw [FileWAL.crash, hrun]
        rfl
  | down d =>
      constructor
      · obtain ⟨fw, ok, ho, hl, _⟩ := open_load h
        exact ⟨fw, ok, ho, hl⟩
      · intro k j
        obtain ⟨d', hc, _⟩ := durable_openCrash h k j
        rw [hc]
        rfl

/-- **FileWAL refines the reference over every run.** Any sequence of calls, crashes at any file
    operation of a call or of `Open`, and restarts, from an empty disk, is a sequence of the
    reference from a fresh state: what each `Load` returned is the reference state at that point,
    the state a running process goes on from is the reference state, and no step panics. -/
theorem filewal_crash_refinement (gob : Gob NodeID Cmd) {es : List (Event NodeID Cmd)}
    {n : Node NodeID Cmd} (ht : Trace (Step gob) (.down Disk.empty) es n) :
    ∃ st, Trace RefStep PersistState.fresh es st ∧ (∀ fw view, n = .up fw view → view = st) ∧
      Live gob st n := by
  have h0 : Refines gob (.down Disk.empty) PersistState.fresh := durable_empty gob
  obtain ⟨st, href, hr⟩ := ht.sim refines_step h0
  refine ⟨st, href, ?_, hr.live⟩
  intro fw view e
  subst e
  exact hr.1

/-! ## 3. Runs that can be computed -/

section Play

instance (st : PersistState NodeID Cmd) (op : WalOp NodeID Cmd) : Decidable (Valid st op) := by
  cases op <;> unfold Valid <;> infer_instance

instance (op : WalOp NodeID Cmd) : Decidable (Small gob op) := by
  cases op <;> unfold Small Fits <;> infer_instance

/-- An event with the place of its crash. -/
inductive Action (NodeID Cmd : Type) where
  | call (op : WalOp NodeID Cmd)
  | crash (op : WalOp NodeID Cmd) (k j : ℕ)
  | kill
  | openCrash (k j : ℕ)
  | start

variable (gob) in
def Node.next : Node NodeID Cmd → Action NodeID Cmd → Option (Event NodeID Cmd × Node NodeID Cmd)
  | .up fw view, .call op =>
      if Valid view op ∧ Small gob op then do
        let fw' ← fw.call gob op
        let view' ← view.apply op.stored
        some (.call op, .up fw' view')
      else none
  | .up fw view, .crash op k j =>
      if Valid view op ∧ Small gob op then do
        let d ← fw.crash gob op k j
        some (.crash op, .down d)
      else none
  | .up fw _, .kill => some (.kill, .down fw.mach.disk)
  | .down d, .openCrash k j => do
      let d' ← FileWal.openCrash d k j
      some (.openCrash, .down d')
  | .down d, .start => do
      let fw ← openWAL d
      let (loaded, _) ← fw.load gob
      some (.start loaded, .up fw loaded)
  | _, _ => none

theorem Node.next_step {n n' : Node NodeID Cmd} {act : Action NodeID Cmd} {e : Event NodeID Cmd}
    (h : n.next gob act = some (e, n')) : Step gob n e n' := by
  cases n with
  | up fw view =>
      cases act with
      | call op =>
          by_cases hv : Valid view op ∧ Small gob op
          · simp only [Node.next, if_pos hv, Option.bind_eq_bind, Option.bind_eq_some_iff] at h
            obtain ⟨fw', hc, view', hview, e⟩ := h
            cases e
            exact .call hv.1 hv.2 hc hview
          · simp [Node.next, if_neg hv] at h
      | crash op k j =>
          by_cases hv : Valid view op ∧ Small gob op
          · simp only [Node.next, if_pos hv, Option.bind_eq_bind, Option.bind_eq_some_iff] at h
            obtain ⟨d, hc, e⟩ := h
            cases e
            exact .crash k j hv.1 hv.2 hc
          · simp [Node.next, if_neg hv] at h
      | kill =>
          cases h
          exact .kill
      | openCrash k j => cases h
      | start => cases h
  | down d =>
      cases act with
      | openCrash k j =>
          simp only [Node.next, Option.bind_eq_bind, Option.bind_eq_some_iff] at h
          obtain ⟨d', hc, e⟩ := h
          cases e
          exact .openCrash k j hc
      | start =>
          simp only [Node.next, Option.bind_eq_bind, Option.bind_eq_some_iff] at h
          obtain ⟨fw, ho, ⟨loaded, ok⟩, hl, e⟩ := h
          cases e
          exact .start ho hl
      | call => cases h
      | crash => cases h
      | kill => cases h

variable (gob) in
def play : List (Action NodeID Cmd) → List (Event NodeID Cmd) → Node NodeID Cmd →
    Option (List (Event NodeID Cmd) × Node NodeID Cmd)
  | [], es, n => some (es, n)
  | act :: acts, es, n => do
      let (e, n') ← n.next gob act
      play acts (es ++ [e]) n'

theorem play_trace {n0 n n' : Node NodeID Cmd} {acts : List (Action NodeID Cmd)}
    {es es' : List (Event NodeID Cmd)} (ht : Trace (Step gob) n0 es n)
    (hp : play gob acts es n = some (es', n')) : Trace (Step gob) n0 es' n' := by
  induction acts generalizing es n with
  | nil =>
      cases hp
      exact ht
  | cons act acts ih =>
      obtain ⟨⟨e, n1⟩, hn, hp⟩ := Option.bind_eq_some_iff.mp hp
      exact ih (ht.snoc (Node.next_step hn)) hp

end Play

/-! ### A run with an encoding in unary -/

/-- Numbers in unary, a snapshot or a vote at the end. -/
def unaryGob : Gob ℕ ℕ where
  encEntry e := encNat e.command ++ encNat e.term
  decEntry bs := do
    let (command, bs) ← decNat bs
    let (term, _) ← decNat bs
    some ⟨command, term⟩
  encInt k := encNat k
  decInt bs := (decNat bs).map Prod.fst
  encHeader h := encNat h.snapshotIndex ++ (encNat h.sentinelTerm ++ h.snapshot.getD [])
  decHeader bs := do
    let (snapshotIndex, bs) ← decNat bs
    let (sentinelTerm, bs) ← decNat bs
    some ⟨snapshotIndex, sentinelTerm, Slice.nilIfEmpty (some bs)⟩
  encMeta s := encNat s.term ++ s.vote.elim [] encNat
  decMeta bs := do
    let (term, bs) ← decNat bs
    some ⟨term, (decNat bs).map Prod.fst⟩
  entry e := by simp [decNat_encNat, decNat_encNat_end]
  int k := by simp [decNat_encNat_end]
  header h := by
    obtain ⟨si, t, snap⟩ := h
    cases snap <;> simp [decNat_encNat, decNat_encNat_end, WalHeader.stored, Slice.nilIfEmpty]
  metaState s := by
    obtain ⟨term, vote⟩ := s
    cases vote with
    | none => simp [decNat_encNat_end, decNat]
    | some v => simp [decNat_encNat, decNat_encNat_end]
  nothing := rfl

/-- An append torn in its second record, a crash while `Open` heals it, a truncation, and a
    snapshot cut after the rename. -/
def sampleActions : List (Action ℕ ℕ) :=
  [.start, .call (.saveMeta 1 (some 7)), .crash (.appendLog [⟨5, 1⟩, ⟨6, 1⟩]) 2 5, .openCrash 1 0,
   .start, .call (.appendLog [⟨8, 1⟩]), .call (.truncateSuffix 2), .call (.appendLog [⟨9, 1⟩]),
   .crash (.saveSnapshot 1 1 (some [4]) [⟨9, 1⟩]) 5 0, .start]

def sampleEvents : List (Event ℕ ℕ) :=
  [.start ⟨0, none, [⟨0, 0⟩], 0, none⟩, .call (.saveMeta 1 (some 7)),
   .crash (.appendLog [⟨5, 1⟩, ⟨6, 1⟩]), .openCrash,
   .start ⟨1, some 7, [⟨0, 0⟩, ⟨5, 1⟩], 0, none⟩, .call (.appendLog [⟨8, 1⟩]),
   .call (.truncateSuffix 2), .call (.appendLog [⟨9, 1⟩]),
   .crash (.saveSnapshot 1 1 (some [4]) [⟨9, 1⟩]),
   .start ⟨1, some 7, [⟨0, 1⟩, ⟨9, 1⟩], 1, some [4]⟩]

theorem sample_played :
    (play unaryGob sampleActions [] (.down Disk.empty)).map Prod.fst = some sampleEvents := by
  decide +kernel

theorem filewal_crash_refinement_sample :
    ∃ n st, Trace (Step unaryGob) (.down Disk.empty) sampleEvents n ∧
      Trace RefStep PersistState.fresh sampleEvents st ∧ Live unaryGob st n := by
  obtain ⟨⟨es, n⟩, hp, e⟩ := Option.map_eq_some_iff.mp sample_played
  have ht : Trace (Step unaryGob) (.down Disk.empty) sampleEvents n := e ▸ play_trace .nil hp
  obtain ⟨st, href, _, hlive⟩ := filewal_crash_refinement unaryGob ht
  exact ⟨n, st, ht, href, hlive⟩

end RaftLab.FileWal

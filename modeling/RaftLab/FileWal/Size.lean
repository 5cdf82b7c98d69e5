/-
  File:      RaftLab/FileWal/Size.lean
  Subject:   `FileWAL.Size`: the counter and the log bytes in the file.

  `logBytes` is counted up by `AppendLog` and `TruncateSuffix`, set by `SaveSnapshot` and counted
  anew by `Open`. `liveBytes` is what it stands for: the payload bytes of the records that are no
  headers. The runs are those of AnyCalls.lean, so nothing is assumed of what the records mean.

  * `Logged m rs` -- the log file of a running process is the records `rs`, whole;
  * **`size_eq_live`**: in every run in which no completed call writes a record of 2^32 bytes or
    more, `Size` is the live bytes of the file, and what the next `Open` will count; with the first
    entry of 2^32 bytes it is not;
  * `size_drifts` -- such an entry on a new log.
-/
import RaftLab.FileWal.AnyCalls

namespace RaftLab.FileWal

open Relation
open RaftLab.Lib RaftLab.Wal
open RaftLab.Raft1 (Bytes LogEntry PersistState WalOp)

/-- `Size` -/
def FileWAL.size (fw : FileWAL) : ℕ := fw.logBytes

/-! ## 1. Live bytes -/

/-- The payload bytes of the records that are no headers. -/
def liveBytes (recs : List Bytes) : ℕ :=
  ((recs.filter fun p => p.head? ≠ some recHeader).map List.length).sum

theorem liveBytes_append (rs rs' : List Bytes) :
    liveBytes (rs ++ rs') = liveBytes rs + liveBytes rs' := by
  simp [liveBytes]

/-- `Open` leaves empty records out, which have no bytes. -/
theorem liveBytes_eq (recs : List Bytes) :
    ((recs.filter fun p => p ≠ [] ∧ p.head? ≠ some recHeader).map List.length).sum =
      liveBytes recs := by
  unfold liveBytes
  induction recs with
  | nil => rfl
  | cons p recs ih =>
      cases p with
      | nil => simpa using ih
      | cons b body =>
          by_cases hb : b = recHeader
          · simpa [hb] using ih
          · simpa [hb] using ih

section Encoded

variable {NodeID Cmd : Type} (gob : Gob NodeID Cmd)

theorem liveBytes_entries (es : List (LogEntry Cmd)) :
    liveBytes (es.map (encodeEntry gob)) = (es.map fun e => (encodeEntry gob e).length).sum := by
  unfold liveBytes
  have hall : (es.map (encodeEntry gob)).filter (fun p => p.head? ≠ some recHeader) =
      es.map (encodeEntry gob) := by
    refine List.filter_eq_self.mpr fun p hp => ?_
    obtain ⟨e, _, rfl⟩ := List.mem_map.mp hp
    rfl
  rw [hall, List.map_map]
  rfl

theorem liveBytes_truncate (k : ℕ) :
    liveBytes [encodeTruncate gob k] = (encodeTruncate gob k).length := rfl

/-- A header does not count, whatever snapshot it holds. -/
theorem liveBytes_header (h : WalHeader) (rs : List Bytes) :
    liveBytes (encodeHeader gob h :: rs) = liveBytes rs := rfl

/-- The records of the log file after a call. -/
def recordsAfter (rs : List Bytes) : WalOp NodeID Cmd → List Bytes
  | .saveMeta _ _ => rs
  | .appendLog entries => rs ++ entries.map (encodeEntry gob)
  | .truncateSuffix fromIndex => rs ++ [encodeTruncate gob fromIndex]
  | .saveSnapshot snapshotIndex sentinelTerm snapshot suffix =>
      snapshotRecords gob ⟨snapshotIndex, sentinelTerm, snapshot⟩ suffix

/-- **The counter follows the records.** -/
theorem sizeAfter_eq (rs : List Bytes) (op : WalOp NodeID Cmd) :
    sizeAfter gob (liveBytes rs) op = liveBytes (recordsAfter gob rs op) := by
  cases op with
  | saveMeta term vote => rfl
  | appendLog entries =>
      rw [recordsAfter, liveBytes_append, liveBytes_entries]
      rfl
  | truncateSuffix fromIndex =>
      rw [recordsAfter, liveBytes_append, liveBytes_truncate]
      rfl
  | saveSnapshot snapshotIndex sentinelTerm snapshot suffix =>
      rw [recordsAfter, snapshotRecords, liveBytes_header, liveBytes_entries]
      rfl

end Encoded

/-! ## 2. The log file of a running process -/

/-- The log file is the records `rs`, and the process writes at its end. -/
structure Logged (m : Machine) (rs : List Bytes) : Prop extends Opened m where
  content : m.disk.readFile walPath = records.frames rs
  fits : ∀ r ∈ rs, Fits r

theorem Logged.replay {m : Machine} {rs : List Bytes} (h : Logged m rs) :
    (replayRecords (m.disk.readFile walPath)).1 = rs := by
  have hfound := replayRecords_frames h.fits nextRecord_nil
  rw [List.append_nil] at hfound
  rw [h.content, hfound]

/-- One more record stands in the file, of whatever length. -/
theorem Logged.appendAny {m : Machine} {rs : List Bytes} (h : Logged m rs) (payload : Bytes) :
    ∃ m', runAll (appendOps payload) m = some m' ∧ Opened m' ∧
      m'.disk.readFile walPath = records.frames rs ++ appendRecord payload := by
  obtain ⟨i, hrl, hn⟩ := h.log
  refine ⟨_, runAll_appendOps hrl payload, ⟨h.sound.append i _, h.file, i, hrl, hn⟩, ?_⟩
  show (m.disk.append i (appendRecord payload)).readFile walPath = _
  rw [Disk.readFile_append h.sound hn, if_pos rfl, h.content]

theorem Logged.append {m : Machine} {rs : List Bytes} (h : Logged m rs) {payload : Bytes}
    (hfit : Fits payload) :
    ∃ m', runAll (appendOps payload) m = some m' ∧ Logged m' (rs ++ [payload]) := by
  obtain ⟨m', hrun, hopen, hfile⟩ := h.appendAny payload
  refine ⟨m', hrun, hopen, ?_, ?_⟩
  · rw [hfile, Framing.frames_append, Framing.frames_cons, Framing.frames_nil, List.append_nil]
    rfl
  · intro r hr
    rcases List.mem_append.mp hr with hr | hr
    · exact h.fits r hr
    · rw [List.mem_singleton.mp hr]
      exact hfit

section Calls

variable {NodeID Cmd : Type} {gob : Gob NodeID Cmd}

theorem Logged.appendLog (es : List (LogEntry Cmd)) {m : Machine} {rs : List Bytes}
    (h : Logged m rs) (hfit : ∀ e ∈ es, Fits (encodeEntry gob e)) :
    ∃ m', runAll (appendLogOps gob es) m = some m' ∧
      Logged m' (rs ++ es.map (encodeEntry gob)) := by
  induction es generalizing m rs with
  | nil =>
      refine ⟨m, rfl, ?_⟩
      rw [List.map_nil, List.append_nil]
      exact h
  | cons e es ih =>
      obtain ⟨m1, hrun, h1⟩ := h.append (hfit e List.mem_cons_self)
      obtain ⟨m2, hrun', h2⟩ := ih h1 fun e' he' => hfit e' (List.mem_cons_of_mem e he')
      refine ⟨m2, ?_, ?_⟩
      · show runAll (appendOps (encodeEntry gob e) ++ appendLogOps gob es) m = some m2
        rw [runAll_append, hrun]
        exact hrun'
      · rw [List.append_assoc] at h2
        exact h2

theorem Logged.saveMeta {m : Machine} {rs : List Bytes} (h : Logged m rs) (data : Bytes) :
    ∃ m', runAll (atomicWrite metaPath data) m = some m' ∧ Logged m' rs := by
  obtain ⟨hnames, hfile⟩ :=
    Disk.sameBut_replace h.sound metaPath data walPath (walPath_ne_tmp _) metaPath_ne.symm
  obtain ⟨i, hrl, hn⟩ := h.log
  exact ⟨_, runAll_atomicWrite metaPath data m,
    ⟨h.sound.replace _ _, rfl, i, hrl, hnames.trans hn⟩, hfile.trans h.content, h.fits⟩

/-- The whole file is replaced, and the process writes at the end of the new one. -/
theorem Logged.saveSnapshot {m : Machine} {rs : List Bytes} (h : Logged m rs) (hdr : WalHeader)
    (suffix : List (LogEntry Cmd)) (hfit : ∀ r ∈ snapshotRecords gob hdr suffix, Fits r) :
    ∃ m', runAll (saveSnapshotOps gob hdr suffix) m = some m' ∧
      Logged m' (snapshotRecords gob hdr suffix) := by
  obtain ⟨i, hrl, _⟩ := h.log
  exact ⟨_, runAll_saveSnapshotOps (by simp [hrl]) hdr suffix,
    ⟨h.sound.replace walPath _, rfl, _, rfl, names_replace _ _ _⟩,
    Disk.readFile_replace h.sound walPath _, hfit⟩

/-- **A call** leaves a log of whole records. -/
theorem Logged.call {m : Machine} {rs : List Bytes} (h : Logged m rs) {op : WalOp NodeID Cmd}
    (hs : Small gob op) :
    ∃ m', runAll (fileOps gob op) m = some m' ∧ Logged m' (recordsAfter gob rs op) := by
  cases op with
  | saveMeta term vote => exact h.saveMeta _
  | appendLog entries => exact h.appendLog entries hs
  | truncateSuffix fromIndex => exact h.append hs
  | saveSnapshot snapshotIndex sentinelTerm snapshot suffix => exact h.saveSnapshot _ suffix hs

end Calls

/-! ## 3. `Open` -/

/-- **`Open` on any disk**: it keeps the records it finds, and counts them. -/
theorem openWAL_logged {d : Disk} (hs : d.Sound) {fw : FileWAL} (ho : openWAL d = some fw) :
    Logged fw.mach fw.records ∧ fw.logBytes = liveBytes fw.records := by
  obtain ⟨_, ho', hopen, hrecs, hwal, _⟩ := openWAL_total hs
  cases ho.symm.trans ho'
  refine ⟨⟨hopen, hwal, hrecs ▸ (replayRecords_found _).1⟩, ?_⟩
  obtain ⟨m, _, e⟩ := Option.bind_eq_some_iff.mp ho
  cases e
  exact liveBytes_eq _

/-- What `Open` counts on any disk. -/
theorem openWAL_size {d : Disk} (hs : d.Sound) {fw : FileWAL} (ho : openWAL d = some fw) :
    fw.size = liveBytes (replayRecords (d.readFile walPath)).1 := by
  obtain ⟨_, ho', _, hrecs, _⟩ := openWAL_total hs
  cases ho.symm.trans ho'
  rw [← hrecs]
  exact (openWAL_logged hs ho).2

/-! ## 4. A record that is too long -/

theorem liveBytes_le (rs : List Bytes) :
    liveBytes rs + 8 * rs.length ≤ (records.frames rs).length := by
  induction rs with
  | nil => exact Nat.le_refl _
  | cons r rs ih =>
      have hlen : (records.frames (r :: rs)).length =
          r.length + 8 + (records.frames rs).length := by
        rw [Framing.frames_cons, List.length_append]
        exact congrArg (· + _) (length_appendRecord r)
      have hcons : liveBytes (r :: rs) ≤ r.length + liveBytes rs := by
        unfold liveBytes
        rw [List.filter_cons]
        split
        · exact Nat.le_of_eq (by simp)
        · exact Nat.le_add_left _ _
      rw [hlen, List.length_cons]
      omega

/-- **Of a record of 2^32 bytes or more less is found than was written**: one shorter record, or
    several with a header each. -/
theorem liveBytes_oversized {payload : Bytes} (h : ¬ Fits payload) :
    liveBytes (replayRecords (appendRecord payload)).1 < payload.length := by
  obtain ⟨hfits, hpre, _⟩ := replayRecords_found (appendRecord payload)
  have hle := hpre.length_le
  rw [length_appendRecord] at hle
  have hlive := liveBytes_le (replayRecords (appendRecord payload)).1
  have hbig : 2 ^ 32 ≤ payload.length := Nat.le_of_not_lt h
  generalize (replayRecords (appendRecord payload)).1 = found at *
  match found with
  | [] => exact Nat.lt_of_lt_of_le (Nat.two_pow_pos 32) hbig
  | [r] =>
      have hr : r.length < 2 ^ 32 := hfits r List.mem_cons_self
      have hone : liveBytes [r] ≤ r.length := by
        unfold liveBytes
        rw [List.filter_cons]
        split <;> simp
      exact Nat.lt_of_le_of_lt hone (Nat.lt_of_lt_of_le hr hbig)
  | r :: r' :: rs =>
      rw [List.length_cons, List.length_cons] at hlive
      omega

section AppendOne

variable {NodeID Cmd : Type} {gob : Gob NodeID Cmd}

/-- `AppendLog` of one entry counts its record, and writes it, of whatever length. -/
theorem Logged.appendOne {fw fw' : FileWAL} {rs : List Bytes} (h : Logged fw.mach rs)
    (hn : fw.logBytes = liveBytes rs) {e : LogEntry Cmd}
    (hc : fw.call gob (.appendLog [e]) = some fw') :
    fw'.mach.disk.Sound ∧ fw'.size = liveBytes rs + (encodeEntry gob e).length ∧
      fw'.mach.disk.readFile walPath = records.frames rs ++ appendRecord (encodeEntry gob e) := by
  obtain ⟨m', hrun, hopen, hfile⟩ := h.appendAny (encodeEntry gob e)
  have hops : runAll (fileOps gob (.appendLog [e])) fw.mach = some m' := hrun
  rw [FileWAL.call, hops] at hc
  cases hc
  refine ⟨hopen.sound, ?_, hfile⟩
  show fw.logBytes + ((encodeEntry gob e).length + 0) = _
  rw [hn, Nat.add_zero]

/-- **One entry keeps the counter right exactly if its record has a length of 32 bits.** -/
theorem Logged.appendOne_iff {fw fw' : FileWAL} {rs : List Bytes} (h : Logged fw.mach rs)
    (hn : fw.logBytes = liveBytes rs) {e : LogEntry Cmd}
    (hc : fw.call gob (.appendLog [e]) = some fw') :
    fw'.size = liveBytes (replayRecords (fw'.mach.disk.readFile walPath)).1 ↔
      Fits (encodeEntry gob e) := by
  obtain ⟨_, hsize, hfile⟩ := h.appendOne hn hc
  rw [hsize, hfile, replayRecords_append h.fits, liveBytes_append]
  constructor
  · intro heq
    by_contra hbig
    have := liveBytes_oversized hbig
    omega
  · intro hfit
    have hone : appendRecord (encodeEntry gob e) = records.frames [encodeEntry gob e] ++ [] := by
      simp [records]
    rw [hone, replayRecords_frames (by simpa using hfit) nextRecord_nil]
    rfl

end AppendOne

/-! ## 5. Runs -/

section Runs

variable {NodeID Cmd : Type} {gob : Gob NodeID Cmd}

/-- The counter of a running process is the live bytes of its log. -/
def Store.Counted : Store → Prop
  | .up fw => ∃ rs, Logged fw.mach rs ∧ fw.logBytes = liveBytes rs
  | .down d => d.Sound

theorem Store.Step.counted {s s' : Store} (h : Store.Step gob (Small gob) s s')
    (hc : s.Counted) : s'.Counted := by
  cases h with
  | call op hs hcall =>
      obtain ⟨rs, hl, hn⟩ := hc
      obtain ⟨m', hrun, hl'⟩ := hl.call hs
      rw [FileWAL.call, hrun] at hcall
      cases hcall
      refine ⟨_, hl', ?_⟩
      rw [← sizeAfter_eq, ← hn]
  | crash op k j hcut =>
      obtain ⟨rs, hl, _⟩ := hc
      obtain ⟨m', hrun, e⟩ := Option.bind_eq_some_iff.mp hcut
      cases e
      exact runAll_sound hl.sound hrun
  | kill =>
      obtain ⟨rs, hl, _⟩ := hc
      exact hl.sound
  | openCrash k j hcut =>
      obtain ⟨m', hrun, e⟩ := Option.bind_eq_some_iff.mp hcut
      cases e
      have hsound : Disk.Sound _ := hc
      exact runAll_sound hsound hrun
  | openWAL ho => exact ⟨_, openWAL_logged hc ho⟩

/-- **`Size` counts exactly the live log bytes**, over every run from any disk in which each record
    of a completed call is shorter than 2^32 bytes: the payload bytes of the records in the log file
    that are no headers. The next `Open` counts the same. One more entry keeps it so exactly if its
    record is shorter than 2^32 bytes. -/
theorem size_eq_live {d : Disk} (hd : d.Sound) {fw : FileWAL}
    (hrun : Store.Run gob (Small gob) (.down d) (.up fw)) :
    fw.size = liveBytes (replayRecords (fw.mach.disk.readFile walPath)).1 ∧
      (∃ fw', openWAL fw.mach.disk = some fw' ∧ fw'.size = fw.size) ∧
      ∀ (e : LogEntry Cmd) (fw' : FileWAL), fw.call gob (.appendLog [e]) = some fw' →
        (fw'.size = liveBytes (replayRecords (fw'.mach.disk.readFile walPath)).1 ↔
          Fits (encodeEntry gob e)) := by
  have hcounted : (Store.up fw).Counted :=
    run_inv (I := Store.Counted) (fun _ _ h => h.counted) hrun hd
  obtain ⟨rs, hl, hn⟩ := hcounted
  have hsize : fw.size = liveBytes (replayRecords (fw.mach.disk.readFile walPath)).1 := by
    rw [hl.replay]
    exact hn
  obtain ⟨fw', ho, _⟩ := openWAL_total hl.sound
  exact ⟨hsize, ⟨fw', ho, (openWAL_size hl.sound ho).trans hsize.symm⟩,
    fun e fw' hc => hl.appendOne_iff hn hc⟩

end Runs

/-- An append, a truncation and a snapshot, an append torn by a crash in its second record, a crash
    while `Open` heals it, and two more entries. -/
def sizeActions : List (Action ℕ ℕ) :=
  [.start, .call (.appendLog [⟨5, 1⟩, ⟨6, 1⟩, ⟨7, 1⟩]), .call (.truncateSuffix 2),
   .call (.saveSnapshot 1 1 (some [4, 4, 4]) [⟨9, 1⟩]), .crash (.appendLog [⟨8, 1⟩, ⟨2, 1⟩]) 2 5,
   .openCrash 1 0, .start, .call (.appendLog [⟨3, 2⟩, ⟨1, 2⟩])]

theorem size_eq_live_sample :
    ∃ fw, Store.Run unaryGob (Small unaryGob) (.down Disk.empty) (.up fw) ∧ fw.size = 39 ∧
      liveBytes (replayRecords (fw.mach.disk.readFile walPath)).1 = 39 ∧
      ∃ fw', openWAL fw.mach.disk = some fw' ∧ fw'.size = 39 := by
  have hplay : ((Lib.play (Store.next unaryGob (Small unaryGob)) (.down Disk.empty)
      sizeActions).bind Store.process).map FileWAL.size = some 39 := by decide +kernel
  obtain ⟨fw, hfw, hsize⟩ := Option.map_eq_some_iff.mp hplay
  obtain ⟨s, hs, hup⟩ := Option.bind_eq_some_iff.mp hfw
  have hrun := Store.run_of_play hs
  rw [Store.process_eq hup] at hrun
  obtain ⟨hlive, hopen, _⟩ := size_eq_live Disk.sound_empty hrun
  rw [hsize] at hlive hopen
  exact ⟨fw, hrun, hsize, hlive.symm, hopen⟩

theorem length_encodeEntry (command : ℕ) :
    (encodeEntry unaryGob ⟨command, 1⟩).length = command + 4 := by
  simp [encodeEntry, unaryGob, encNat]

/-- An `AppendLog` of one entry of 2^32 bytes or more, on a new log. -/
theorem size_oversized {e : LogEntry ℕ} {k : ℕ} (hk : (encodeEntry unaryGob e).length = k)
    (hbig : 2 ^ 32 ≤ k) :
    ∃ fw fw' : FileWAL, openWAL Disk.empty = some fw ∧
      fw.call unaryGob (.appendLog [e]) = some fw' ∧ fw'.size = k ∧
      fw'.size ≠ liveBytes (replayRecords (fw'.mach.disk.readFile walPath)).1 ∧
      ∀ fw'', openWAL fw'.mach.disk = some fw'' → fw''.size ≠ fw'.size := by
  obtain ⟨fw, ho, hopen, hrecs, _⟩ := openWAL_total Disk.sound_empty
  obtain ⟨hl, hn⟩ := openWAL_logged Disk.sound_empty ho
  have hnil : fw.records = [] := hrecs
  obtain ⟨m', hrun, _⟩ := hopen.call unaryGob (.appendLog [e])
  have hcall : fw.call unaryGob (.appendLog [e]) =
      some ⟨m', fw.records, sizeAfter unaryGob fw.logBytes (.appendLog [e])⟩ := by
    rw [FileWAL.call, hrun]
    rfl
  obtain ⟨hs, hsize, _⟩ := hl.appendOne hn hcall
  have hbad : ¬ Fits (encodeEntry unaryGob e) := by
    rw [Fits, hk]
    exact Nat.not_lt.mpr hbig
  have hdrift := mt (hl.appendOne_iff hn hcall).mp hbad
  refine ⟨fw, _, ho, hcall, ?_, hdrift, ?_⟩
  · rw [hsize, hnil, hk]
    exact Nat.zero_add k
  · intro fw'' ho'' heq
    rw [openWAL_size hs ho''] at heq
    exact hdrift heq.symm

/-- **`Size` drifts with an entry of 2^32 bytes**: it counts the entry, the file does not have it,
    and the next `Open` counts less. -/
theorem size_drifts :
    ∃ (e : LogEntry ℕ) (fw fw' : FileWAL), openWAL Disk.empty = some fw ∧
      fw.call unaryGob (.appendLog [e]) = some fw' ∧ fw'.size = 2 ^ 32 ∧
      fw'.size ≠ liveBytes (replayRecords (fw'.mach.disk.readFile walPath)).1 ∧
      ∀ fw'', openWAL fw'.mach.disk = some fw'' → fw''.size ≠ fw'.size := by
  obtain ⟨fw, fw', ho, hcall, hsize, hdrift, hopen⟩ :=
    size_oversized (length_encodeEntry 4294967292) (by decide)
  exact ⟨_, fw, fw', ho, hcall, hsize, hdrift, hopen⟩

end RaftLab.FileWal

/-
  File:      RaftLab/FileWal/Limits.lean
  Subject:   Two limits of the record format that `FileWAL` runs into.

  A record carries its length in 32 bits, and the checksum of no bytes is 0.

  * `zeroTail_harmless_iff` -- **zero bytes behind the last whole record of a log that can be loaded
    are harmless exactly if there are fewer than eight**; eight or more are read as empty records,
    on which `Load` panics;
  * `saveSnapshot_recovers_iff` -- **`SaveSnapshot` is recovered exactly if its records are shorter
    than 2^32 bytes**, whatever was called before; `snapshot_lost` is a snapshot whose record is
    2^32 bytes long.
-/
import RaftLab.FileWal.AnyCalls

namespace RaftLab.FileWal

open RaftLab.Lib RaftLab.Wal
open RaftLab.Raft1 (Bytes LogEntry PersistState WalOp)

variable {NodeID Cmd : Type} [Inhabited Cmd] {gob : Gob NodeID Cmd}

/-! ## 1. Runs in which every truncation is in range -/

theorem Refines.durable {n : Node NodeID Cmd} {st : PersistState NodeID Cmd}
    (h : Refines gob n st) : Durable gob n.store.disk st := by
  cases n with
  | up fw view => exact h.2.durable
  | down d => exact h

theorem refines_trace {es : List (Event NodeID Cmd)} {n n' : Node NodeID Cmd}
    {st : PersistState NodeID Cmd} (ht : Trace (Step gob) n es n') (h : Refines gob n st) :
    ∃ st', Trace RefStep st es st' ∧ Refines gob n' st' := ht.sim refines_step h

variable (gob) in
/-- `Open` and `Load` come through. -/
def Loads (d : Disk) : Prop := ∃ fw st ok, openWAL d = some fw ∧ fw.load gob = some (st, ok)

theorem loads_trace {es : List (Event NodeID Cmd)} {n : Node NodeID Cmd}
    (ht : Trace (Step gob) (.down Disk.empty) es n) : n.store.disk.Sound ∧ Loads gob n.store.disk := by
  obtain ⟨st, _, hr⟩ := refines_trace ht (durable_empty gob)
  obtain ⟨fw, ok, ho, hl, _⟩ := open_load hr.durable
  obtain ⟨rs, tail, himg⟩ := hr.durable
  exact ⟨himg.sound, fw, st, ok, ho, hl⟩

/-! ## 2. Empty records -/

section EmptyRecord

theorem foldlM_none {σ α : Type} {f : σ → α → Option σ} {x : α} (hf : ∀ s, f s x = none)
    {l : List α} (hx : x ∈ l) (s : σ) : l.foldlM f s = none := by
  induction l generalizing s with
  | nil => cases hx
  | cons y l ih =>
      rw [List.foldlM_cons]
      rcases List.mem_cons.mp hx with rfl | hx
      · rw [hf]
        rfl
      · cases f s y with
        | none => rfl
        | some s' => exact ih hx s'

omit [Inhabited Cmd] in
/-- An empty record is no header. -/
theorem mem_of_splitHeader {recs rest : List Bytes} {h : WalHeader}
    (hs : splitHeader gob recs = some (h, rest)) (hmem : [] ∈ recs) : [] ∈ rest := by
  match recs with
  | [] :: _ => cases hs
  | (b :: body) :: recs' =>
      simp only [splitHeader] at hs
      by_cases hb : b = recHeader
      · rw [if_pos hb] at hs
        obtain ⟨h', _, e⟩ := Option.bind_eq_some_iff.mp hs
        cases e
        simpa using hmem
      · rw [if_neg hb] at hs
        cases hs
        exact hmem

/-- `Load` reads the first byte of every record. -/
theorem loadRecords_empty {recs : List Bytes} (h : [] ∈ recs) : loadRecords gob recs = none := by
  unfold loadRecords
  cases hs : splitHeader gob recs with
  | none => rfl
  | some x =>
      have hfold := foldlM_none (f := loadRecord gob x.1.snapshotIndex) (fun _ => rfl)
        (mem_of_splitHeader hs h) [LogEntry.sentinel x.1.sentinelTerm]
      show (x.2.foldlM (loadRecord gob x.1.snapshotIndex) _).bind _ = none
      rw [hfold]
      rfl

end EmptyRecord

/-! ## 3. A tail of zero bytes -/

/-- A crash has extended the log: behind its last whole record stand `k` zero bytes. -/
def zeroTail (d : Disk) (k : ℕ) : Disk :=
  let data := d.readFile walPath
  d.put walPath (data.take (replayRecords data).2 ++ List.replicate k 0)

variable (gob) in
/-- **The bytes do not matter**: `Open` and `Load` return what they return without them, and
    whatever is done from there on is recovered by the next `Open` and `Load` as the reference has
    it. -/
def Harmless (d : Disk) (k : ℕ) : Prop :=
  ∃ st ok fw fw', openWAL d = some fw ∧ fw.load gob = some (st, ok) ∧
    openWAL (zeroTail d k) = some fw' ∧ fw'.load gob = some (st, ok) ∧
    ∀ es n, Trace (Step gob) (.up fw' st) es n →
      ∃ st', Trace RefStep st es st' ∧ Live gob st' n ∧
        ∃ fw'' ok', openWAL n.store.disk = some fw'' ∧ fw''.load gob = some (st', ok')

section ZeroTail

variable {d : Disk} {k : ℕ}

theorem readFile_zeroTail (hs : d.Sound) (k : ℕ) :
    (zeroTail d k).readFile walPath = healed (d.readFile walPath) ++ List.replicate k 0 ∧
      (zeroTail d k).readFile metaPath = d.readFile metaPath := by
  unfold zeroTail
  rw [Disk.readFile_put hs, Disk.readFile_put hs, if_pos rfl, if_neg metaPath_ne, healed_eq_take]
  exact ⟨rfl, rfl⟩

/-- Zero bytes that do not make up a header are a torn record. -/
theorem nextRecord_zeros (hk : k < 8) : nextRecord (List.replicate k 0) = none := by
  unfold nextRecord recordHeaderSize
  rw [if_neg]
  rw [List.length_replicate]
  omega

/-- **Fewer than eight zero bytes** are cut off like any torn record. -/
theorem harmless_of_loads (hs : d.Sound) (hk : k < 8) (h : Loads gob d) : Harmless gob d k := by
  obtain ⟨fw, st, ok, ho, hl⟩ := h
  obtain ⟨_, ho', hopen, hrecs, _, hmeta⟩ := openWAL_total hs
  cases ho.symm.trans ho'
  have himg := image_of_load hs ho hl
  obtain ⟨hwalZ, hmetaZ⟩ := readFile_zeroTail hs k
  have himgZ : Image gob (zeroTail d k) st fw.records (List.replicate k 0) := by
    refine ⟨hs.put _ _, ?_, ?_, himg.fits, nextRecord_zeros hk, himg.load⟩
    · rw [hmetaZ, ← hmeta]
      exact himg.metaFile
    · rw [hwalZ, healed, hrecs]
  obtain ⟨fw', hoZ, hready, hlZ⟩ := himgZ.openLoad
  have hok := hl.symm.trans (load_eq fw himg)
  rw [hmeta, ← hmetaZ] at hok
  refine ⟨st, ok, fw, fw', ho, hl, hoZ, hlZ.trans hok.symm, ?_⟩
  intro es n ht
  obtain ⟨st', href, hr⟩ := refines_trace ht ⟨rfl, hready⟩
  obtain ⟨fw'', ok', ho'', hl'', _⟩ := open_load hr.durable
  exact ⟨st', href, hr.live, fw'', ok', ho'', hl''⟩

/-- Eight zero bytes are an empty record with its checksum. -/
theorem zeros_eq (k : ℕ) :
    List.replicate (8 + k) (0 : UInt8) = records.frames [[]] ++ List.replicate k 0 := by
  have h8 : records.frames [[]] = List.replicate 8 0 := by decide +kernel
  rw [h8, List.replicate_append_replicate]

/-- **Eight or more zero bytes are fatal**: `Open` takes them for empty records, and `Load`
    panics. -/
theorem zeroTail_panics (hs : d.Sound) (hk : 8 ≤ k) {fw : FileWAL}
    (ho : openWAL (zeroTail d k) = some fw) : fw.load gob = none := by
  obtain ⟨_, ho', _, hrecs, _⟩ := openWAL_total (d := zeroTail d k) (hs.put _ _)
  cases ho.symm.trans ho'
  obtain ⟨k, rfl⟩ := Nat.exists_eq_add_of_le hk
  have hmem : [] ∈ fw.records := by
    rw [hrecs, (readFile_zeroTail hs _).1, zeros_eq, healed,
      replayRecords_append (replayRecords_found _).1,
      replayRecords_append fun p hp => by
        rw [List.mem_singleton.mp hp]
        exact Nat.two_pow_pos 32]
    simp
  unfold FileWAL.load
  dsimp only
  rw [loadRecords_empty hmem]
  cases loadMeta gob (fw.mach.disk.readFile metaPath) <;> rfl

theorem harmless_iff (hs : d.Sound) (h : Loads gob d) : Harmless gob d k ↔ k < 8 := by
  constructor
  · intro hharm
    obtain ⟨st, ok, _, fw', _, _, hoZ, hlZ, _⟩ := hharm
    by_contra hk
    rw [zeroTail_panics hs (Nat.le_of_not_lt hk) hoZ] at hlZ
    cases hlZ
  · intro hk
    exact harmless_of_loads hs hk h

end ZeroTail

/-- **`k` zero bytes are harmless exactly if `k < 8`**: after any run of any calls that leaves a log
    which can be loaded without them, and so after every run in which each `TruncateSuffix` is in
    range and each record is shorter than 2^32 bytes. -/
theorem zeroTail_harmless_iff (gob : Gob NodeID Cmd) (k : ℕ) :
    (∀ s, Store.Run gob (fun _ => True) (.down Disk.empty) s → Loads gob s.disk →
      (Harmless gob s.disk k ↔ k < 8)) ∧
    ∀ es n, Trace (Step gob) (.down Disk.empty) es n → (Harmless gob n.store.disk k ↔ k < 8) := by
  constructor
  · intro s hrun hloads
    exact harmless_iff (Store.held_run hrun).disk.1 hloads
  · intro es n ht
    obtain ⟨hs, hloads⟩ := loads_trace ht
    exact harmless_iff hs hloads

/-- Seven and eight zero bytes after an append torn by a crash, a truncation and a snapshot. -/
theorem zeroTail_harmless_iff_sample :
    ∃ n, Trace (Step unaryGob) (.down Disk.empty) sampleEvents n ∧
      Harmless unaryGob n.store.disk 7 ∧ ¬ Harmless unaryGob n.store.disk 8 := by
  obtain ⟨⟨es, n⟩, hp, e⟩ := Option.map_eq_some_iff.mp sample_played
  have ht : Trace (Step unaryGob) (.down Disk.empty) sampleEvents n := e ▸ play_trace .nil hp
  refine ⟨n, ht, ((zeroTail_harmless_iff unaryGob 7).2 _ n ht).mpr (by decide), ?_⟩
  intro h
  exact absurd (((zeroTail_harmless_iff unaryGob 8).2 _ n ht).mp h) (by decide)

/-- A truncation below the snapshot: `Load` panics without any zero byte. -/
example :
    ((Lib.play (Store.next unaryGob fun _ => True) (.down Disk.empty)
      [.start, .call (.saveSnapshot 5 1 (some [4]) []), .call (.truncateSuffix 4)]).bind fun s =>
        (openWAL s.disk).map fun fw => (fw.load unaryGob).isSome) = some false := by
  decide +kernel

/-- The same run with eight zero bytes: `Load` panics, and does not without them. -/
theorem zeroTail_breaks :
    ∃ n, Trace (Step unaryGob) (.down Disk.empty) sampleEvents n ∧
      (∃ fw st ok, openWAL n.store.disk = some fw ∧ fw.load unaryGob = some (st, ok)) ∧
      ∃ fw, openWAL (zeroTail n.store.disk 8) = some fw ∧ fw.load unaryGob = none := by
  obtain ⟨⟨es, n⟩, hp, e⟩ := Option.map_eq_some_iff.mp sample_played
  have ht : Trace (Step unaryGob) (.down Disk.empty) sampleEvents n := e ▸ play_trace .nil hp
  obtain ⟨hs, hloads⟩ := loads_trace ht
  obtain ⟨fw, ho, _⟩ := openWAL_total (d := zeroTail n.store.disk 8) (hs.put _ _)
  exact ⟨n, ht, hloads, fw, ho, zeroTail_panics hs (Nat.le_refl 8) ho⟩

/-! ## 4. Records of 2^32 bytes -/

/-- The length field of a record is the length of its payload exactly if that has 32 bits. -/
theorem lengthField_eq_iff (payload : Bytes) :
    (uint32 (appendRecord payload)).toNat = payload.length ↔ Fits payload := by
  unfold appendRecord
  rw [List.append_assoc, uint32_putUint32]
  constructor
  · intro h
    rw [Fits, ← h]
    exact UInt32.toNat_lt _
  · exact uint32_length

variable (gob) in
/-- **What a fresh `Open` and `Load` have to find of a `SaveSnapshot`**: the records it wrote, with
    nothing cut off; the snapshot, its index, the sentinel's term and the suffix; and the term and
    the vote of the meta file. -/
def Recovered (d : Disk) (s : MetaState NodeID) (h : WalHeader) (suffix : List (LogEntry Cmd)) :
    Prop :=
  ∃ fw ok, openWAL d = some fw ∧ fw.records = snapshotRecords gob h suffix ∧
    (replayRecords (d.readFile walPath)).2 = (d.readFile walPath).length ∧
    fw.load gob = some (⟨s.term, s.vote, .sentinel h.sentinelTerm :: suffix, h.snapshotIndex,
      Slice.nilIfEmpty h.snapshot⟩, ok)

omit [Inhabited Cmd] in
variable (gob) in
theorem call_saveSnapshot (fw : FileWAL) (hrl : fw.mach.rl.isSome) (h : WalHeader)
    (suffix : List (LogEntry Cmd)) :
    ∃ fw', fw.call gob (.saveSnapshot h.snapshotIndex h.sentinelTerm h.snapshot suffix) = some fw' ∧
      fw'.mach.disk =
        fw.mach.disk.replace walPath (records.frames (snapshotRecords gob h suffix)) := by
  have hops : runAll (fileOps gob
      (.saveSnapshot h.snapshotIndex h.sentinelTerm h.snapshot suffix)) fw.mach = _ :=
    runAll_saveSnapshotOps hrl h suffix
  unfold FileWAL.call
  rw [hops]
  exact ⟨_, rfl, rfl⟩

/-- `Open` finds only records that fit. -/
theorem Recovered.fits {d : Disk} {s : MetaState NodeID} {h : WalHeader}
    {suffix : List (LogEntry Cmd)} (hs : d.Sound) (hrec : Recovered gob d s h suffix) :
    ∀ r ∈ snapshotRecords gob h suffix, Fits r := by
  obtain ⟨fw, ok, ho, hrecs, _⟩ := hrec
  obtain ⟨_, ho', _, hfound, _⟩ := openWAL_total hs
  cases ho.symm.trans ho'
  rw [← hrecs, hfound]
  exact (replayRecords_found _).1

theorem recovered_of_fits {d : Disk} {s : MetaState NodeID} {h : WalHeader}
    {suffix : List (LogEntry Cmd)} (hs : d.Sound)
    (hmeta : loadMeta gob (d.readFile metaPath) = some s)
    (hfit : ∀ r ∈ snapshotRecords gob h suffix, Fits r) :
    Recovered gob (d.replace walPath (records.frames (snapshotRecords gob h suffix))) s h suffix := by
  have himg := image_saveSnapshot ⟨s.term, s.vote, [], 0, none⟩ hs hmeta hfit
  obtain ⟨fw, ho, _, hl⟩ := himg.openLoad
  obtain ⟨_, ho', _, hrecs, _⟩ := openWAL_total himg.sound
  cases ho.symm.trans ho'
  rw [himg.replay] at hrecs
  refine ⟨fw, _, ho, hrecs, ?_, hl⟩
  rw [himg.replay, himg.log, List.append_nil]

/-- **When `SaveSnapshot` is recovered.** Whatever was called before, with whatever records: the call
    returns, and a fresh `Open` and `Load` find what it wrote exactly if each of its own records is
    shorter than 2^32 bytes, which is also exactly when every length field is right. -/
theorem saveSnapshot_recovers_iff (gob : Gob NodeID Cmd) {fw : FileWAL}
    (hrun : Store.Run gob (fun _ => True) (.down Disk.empty) (.up fw)) (h : WalHeader)
    (suffix : List (LogEntry Cmd)) :
    ∃ fw' s, fw.call gob (.saveSnapshot h.snapshotIndex h.sentinelTerm h.snapshot suffix) =
        some fw' ∧
      loadMeta gob (fw.mach.disk.readFile metaPath) = some s ∧
      (Recovered gob fw'.mach.disk s h suffix ↔ ∀ r ∈ snapshotRecords gob h suffix, Fits r) ∧
      ((∀ r ∈ snapshotRecords gob h suffix, (uint32 (appendRecord r)).toNat = r.length) ↔
        ∀ r ∈ snapshotRecords gob h suffix, Fits r) := by
  obtain ⟨hopen, s, hmeta⟩ := Store.held_run hrun
  obtain ⟨i, hrl, _⟩ := hopen.log
  obtain ⟨fw', hcall, hdisk⟩ := call_saveSnapshot gob fw (by simp [hrl]) h suffix
  refine ⟨fw', s, hcall, hmeta, ?_, forall₂_congr fun r _ => lengthField_eq_iff r⟩
  rw [hdisk]
  exact ⟨Recovered.fits (hopen.sound.replace _ _), recovered_of_fits hopen.sound hmeta⟩

/-- A run in which a call wrote a truncation that `Load` panics on, and the meta file was rewritten
    with a crash after the rename; then a snapshot. -/
theorem saveSnapshot_recovers_iff_sample :
    ∃ fw fw' : FileWAL, Store.Run unaryGob (fun _ => True) (.down Disk.empty) (.up fw) ∧
      fw.call unaryGob (.saveSnapshot 7 2 (some [4, 5]) [⟨9, 2⟩, ⟨3, 3⟩]) = some fw' ∧
      ∃ fw'' ok, openWAL fw'.mach.disk = some fw'' ∧
        fw''.load unaryGob =
          some (⟨2, some 1, [⟨0, 2⟩, ⟨9, 2⟩, ⟨3, 3⟩], 7, some [4, 5]⟩, ok) := by
  have hplay : ((Lib.play (Store.next unaryGob fun _ => True) (.down Disk.empty)
      [.start, .call (.saveMeta 1 (some 0)), .call (.saveSnapshot 5 1 (some [4]) [⟨6, 1⟩]),
        .call (.truncateSuffix 4), .crash (.saveMeta 2 (some 1)) 5 0, .start]).bind Store.process).map
          (fun fw => loadMeta unaryGob (fw.mach.disk.readFile metaPath)) =
        some (some ⟨2, some 1⟩) := by decide +kernel
  obtain ⟨fw, hfw, hmeta⟩ := Option.map_eq_some_iff.mp hplay
  obtain ⟨s, hs, hup⟩ := Option.bind_eq_some_iff.mp hfw
  have hrun := Store.run_of_play hs
  rw [Store.process_eq hup] at hrun
  have hfit : ∀ r ∈ snapshotRecords unaryGob ⟨7, 2, some [4, 5]⟩ [⟨9, 2⟩, ⟨3, 3⟩], Fits r := by
    unfold Fits
    decide +kernel
  obtain ⟨fw', s', hcall, hs', hiff, _⟩ :=
    saveSnapshot_recovers_iff unaryGob hrun ⟨7, 2, some [4, 5]⟩ [⟨9, 2⟩, ⟨3, 3⟩]
  cases hs'.symm.trans hmeta
  obtain ⟨fw'', ok, ho, _, _, hl⟩ := hiff.mpr hfit
  exact ⟨fw, fw', hrun, hcall, fw'', ok, ho, hl⟩

/-- A log that is one record of 2^32 bytes is loaded as an empty log, if at all. -/
theorem load_wrapped {d : Disk} {payload : Bytes} (hd : d.readFile walPath = appendRecord payload)
    (hlen : payload.length % 2 ^ 32 = 0) {fw : FileWAL} {st : PersistState NodeID Cmd} {ok : Bool}
    (ho : openWAL d = some fw) (hl : fw.load gob = some (st, ok)) :
    st.logs = [.sentinel 0] ∧ st.snapshotIndex = 0 ∧ st.snapshot = none := by
  obtain ⟨m, _, e⟩ := Option.bind_eq_some_iff.mp ho
  have hrecs : fw.records = (replayRecords (appendRecord payload)).1 := by
    rw [← hd]
    cases e
    rfl
  obtain ⟨s, _, hl⟩ := Option.bind_eq_some_iff.mp hl
  obtain ⟨⟨h, logs⟩, hr, hl⟩ := Option.bind_eq_some_iff.mp hl
  rw [hrecs] at hr
  rcases replayRecords_wrapped hlen with hnil | ⟨rs, hcons⟩
  · rw [hnil] at hr
    cases hr
    cases hl
    exact ⟨rfl, rfl, rfl⟩
  · rw [hcons, loadRecords_empty List.mem_cons_self] at hr
    cases hr

/-- A snapshot that makes the header record a multiple of 2^32 bytes long is not recovered. -/
theorem saveSnapshot_wrapped {snapshot : Bytes} {k : ℕ} (hk : snapshot.length = k)
    (hlen : (k + 5) % 2 ^ 32 = 0) {fw : FileWAL} (hready : Ready unaryGob fw.mach .fresh) :
    ∃ fw', fw.call unaryGob (.saveSnapshot 1 1 (some snapshot) []) = some fw' ∧
      ∀ fw'' st ok, openWAL fw'.mach.disk = some fw'' → fw''.load unaryGob = some (st, ok) →
        st.snapshotIndex = 0 ∧ st.snapshot = none := by
  obtain ⟨rs, i, himg, hrl, _⟩ := hready
  obtain ⟨fw', hcall, hdisk⟩ :=
    call_saveSnapshot unaryGob fw (by simp [hrl]) ⟨1, 1, some snapshot⟩ []
  refine ⟨fw', hcall, ?_⟩
  intro fw'' st ok ho hl
  have hfile : fw'.mach.disk.readFile walPath =
      appendRecord (encodeHeader unaryGob ⟨1, 1, some snapshot⟩) := by
    rw [hdisk, Disk.readFile_replace himg.sound]
    simp [snapshotRecords, records]
  have hpay : (encodeHeader unaryGob ⟨1, 1, some snapshot⟩).length = k + 5 := by
    rw [← hk]
    simp [encodeHeader, unaryGob, encNat]
  exact (load_wrapped hfile (by rw [hpay]; exact hlen) ho hl).2

/-- **`SaveSnapshot` loses a snapshot whose record is 2^32 bytes long**: it returns, and `Open` and
    `Load` find neither the snapshot nor its index. -/
theorem snapshot_lost :
    ∃ (snapshot : Bytes) (fw fw' : FileWAL), openWAL Disk.empty = some fw ∧
      fw.call unaryGob (.saveSnapshot 1 1 (some snapshot) []) = some fw' ∧
      ∀ fw'' st ok, openWAL fw'.mach.disk = some fw'' → fw''.load unaryGob = some (st, ok) →
        st.snapshotIndex ≠ 1 ∧ st.snapshot ≠ some snapshot := by
  obtain ⟨fw, ok, ho, hl, hready⟩ := open_load (durable_empty unaryGob)
  have hlen : (List.replicate 4294967291 (0 : UInt8)).length = 4294967291 := List.length_replicate
  obtain ⟨fw', hcall, hload⟩ := saveSnapshot_wrapped hlen (by decide) hready
  refine ⟨_, fw, fw', ho, hcall, ?_⟩
  intro fw'' st ok' ho' hl'
  obtain ⟨h1, h2⟩ := hload fw'' st ok' ho' hl'
  rw [h1, h2]
  exact ⟨Nat.zero_ne_one, fun e => (by cases e)⟩

end RaftLab.FileWal

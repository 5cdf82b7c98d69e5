/-
  File:      RaftLab/Persist/File.lean
  Subject:   `src/persist/file.go`: the bundle format of `FilePersister`, and the persister over it.

  A bundle is `[len:u32][raftstate][len:u32][snapshot]`. `decodeBundle` compares each length with
  the number of bytes that follow, which it first cuts to 32 bits. For the raft state these are its
  own bytes, the second length and the snapshot, and their number may need 33 bits although both
  lengths fit.

  * `decodeBundle_encodeBundle` -- what comes back from a bundle, in both cases;
  * **`bundle_roundTrip_iff`**: when it is what was encoded, and that no strict prefix is accepted;
  * `bundle_rejected` -- a bundle that is written and not read;
  * **`file_refines`**: a `FilePersister` whose bundles stay below the limit is the `Persister` of
    `Raft1/PersisterWal.lean`, with crashes in `Save` and restarts.
-/
import RaftLab.Raft1.PersisterWal
import RaftLab.Lib.Runs

namespace RaftLab.Persist

open RaftLab.Lib RaftLab.Wal
open RaftLab.Raft1 (Bytes clone Persister)

/-! ## 1. Bundles -/

def encodeBundle (raftstate snapshot : Bytes) : Bytes :=
  putUint32 (UInt32.ofNat raftstate.length) ++ raftstate ++
    (putUint32 (UInt32.ofNat snapshot.length) ++ snapshot)

/-- `fmt.Errorf` for a section with less bytes than its length says. -/
def truncated (what : String) (want : UInt32) (len : ℕ) : String :=
  s!"truncated {what}: want {want}, have {len}"

/-- The second half of `decodeBundle`, when `raftstate` has been read. -/
def decodeSnapshot (raftstate : Option Bytes) (data : Bytes) :
    Except String (Option Bytes × Option Bytes) :=
  if data.length < 4 then .error "truncated snapshot header"
  else
    let m := uint32 data
    let data := data.drop 4
    if UInt32.ofNat data.length < m then .error (truncated "snapshot" m data.length)
    else .ok (raftstate, if m > 0 then clone (some (data.take m.toNat)) else none)

def decodeBundle (data : Bytes) : Except String (Option Bytes × Option Bytes) :=
  if data.length < 4 then .error s!"truncated bundle: {data.length} bytes"
  else
    let n := uint32 data
    let data := data.drop 4
    if UInt32.ofNat data.length < n then .error (truncated "raftstate" n data.length)
    else
      decodeSnapshot (if n > 0 then clone (some (data.take n.toNat)) else none) (data.drop n.toNat)

/-! ## 2. One section -/

/-- A section is read as a copy of its bytes, nil if there are none. -/
theorem read_section {x : Bytes} (hx : Fits x) (rest : Bytes) :
    (if UInt32.ofNat x.length > 0 then
      clone (some ((x ++ rest).take (UInt32.ofNat x.length).toNat)) else none) =
        clone (some x) := by
  rw [uint32_length hx, List.take_left' rfl]
  split
  · rfl
  next hzero =>
    have hnil : x = [] := by
      have h0 : (UInt32.ofNat x.length).toNat = 0 := by
        rw [gt_iff_lt, UInt32.lt_iff_toNat_lt] at hzero
        exact Nat.eq_zero_of_not_pos hzero
      rw [uint32_length hx] at h0
      exact List.length_eq_zero_iff.mp h0
    rw [hnil]
    rfl

theorem lt_length {x : Bytes} (hx : Fits x) (k : ℕ) :
    UInt32.ofNat k < UInt32.ofNat x.length ↔ k % 2 ^ 32 < x.length := by
  rw [UInt32.lt_iff_toNat_lt, uint32_length hx, UInt32.toNat_ofNat']

/-- What `decodeSnapshot` sees of a section: its length and what follows. -/
theorem decodeSnapshot_section {x : Bytes} (hx : Fits x) (raftstate : Option Bytes) (t : Bytes) :
    decodeSnapshot raftstate (putUint32 (UInt32.ofNat x.length) ++ t) =
      if t.length % 2 ^ 32 < x.length then
        .error (truncated "snapshot" (UInt32.ofNat x.length) t.length)
      else .ok (raftstate, if UInt32.ofNat x.length > 0 then
        clone (some (t.take (UInt32.ofNat x.length).toNat)) else none) := by
  unfold decodeSnapshot
  rw [if_neg (by simp), uint32_putUint32, List.drop_left' (length_putUint32 _)]
  simp only [lt_length hx]

theorem decodeBundle_section {x : Bytes} (hx : Fits x) (t : Bytes) :
    decodeBundle (putUint32 (UInt32.ofNat x.length) ++ t) =
      if t.length % 2 ^ 32 < x.length then
        .error (truncated "raftstate" (UInt32.ofNat x.length) t.length)
      else decodeSnapshot (if UInt32.ofNat x.length > 0 then
        clone (some (t.take (UInt32.ofNat x.length).toNat)) else none)
          (t.drop (UInt32.ofNat x.length).toNat) := by
  unfold decodeBundle
  rw [if_neg (by simp), uint32_putUint32, List.drop_left' (length_putUint32 _)]
  simp only [lt_length hx]

/-! ## 3. Whole bundles and prefixes -/

/-- A strict prefix of the second section is not read. -/
theorem decodeSnapshot_short {snapshot : Bytes} (hs : Fits snapshot) (state : Option Bytes)
    {t : Bytes} (ht : t <+: putUint32 (UInt32.ofNat snapshot.length) ++ snapshot)
    (hlt : t.length < 4 + snapshot.length) : ∃ e, decodeSnapshot state t = .error e := by
  by_cases h4 : t.length < 4
  · exact ⟨_, if_pos h4⟩
  · obtain ⟨u, rfl⟩ : putUint32 (UInt32.ofNat snapshot.length) <+: t :=
      List.prefix_of_prefix_length_le (List.prefix_append _ _) ht (Nat.le_of_not_lt h4)
    rw [List.length_append, length_putUint32] at hlt
    have hu : u.length < snapshot.length := Nat.lt_of_add_lt_add_left hlt
    rw [decodeSnapshot_section hs, if_pos (Nat.lt_of_le_of_lt (Nat.mod_le _ _) hu)]
    exact ⟨_, rfl⟩

section

variable {raftstate snapshot : Bytes} (hr : Fits raftstate) (hs : Fits snapshot)

include hr hs

/-- **What comes back from a bundle**: the raft state is refused if its length is more than that of
    all that follows the first header, modulo 2^32. -/
theorem decodeBundle_encodeBundle :
    decodeBundle (encodeBundle raftstate snapshot) =
      if (raftstate.length + (4 + snapshot.length)) % 2 ^ 32 < raftstate.length then
        .error (truncated "raftstate" (UInt32.ofNat raftstate.length)
          (raftstate.length + (4 + snapshot.length)))
      else .ok (clone (some raftstate), clone (some snapshot)) := by
  unfold encodeBundle
  have hlen : (raftstate ++ (putUint32 (UInt32.ofNat snapshot.length) ++ snapshot)).length =
      raftstate.length + (4 + snapshot.length) := by simp
  have hwhole : ¬ snapshot.length % 2 ^ 32 < snapshot.length := by
    rw [Nat.mod_eq_of_lt hs]
    exact Nat.lt_irrefl _
  have hread := read_section hs []
  rw [List.append_nil] at hread
  rw [List.append_assoc, decodeBundle_section hr, hlen, read_section hr, uint32_length hr,
    List.drop_left' rfl, decodeSnapshot_section hs, if_neg hwhole, hread]

/-- **No strict prefix of a bundle is read.** -/
theorem decodeBundle_short {p : Bytes} (hp : p <+: encodeBundle raftstate snapshot)
    (hne : p ≠ encodeBundle raftstate snapshot) : ∃ e, decodeBundle p = .error e := by
  have hlt : p.length < (encodeBundle raftstate snapshot).length :=
    Nat.lt_of_le_of_ne hp.length_le fun e => hne (hp.eq_of_length e)
  unfold encodeBundle at hp hlt
  rw [List.append_assoc] at hp hlt
  by_cases h4 : p.length < 4
  · exact ⟨_, if_pos h4⟩
  · obtain ⟨t, rfl⟩ : putUint32 (UInt32.ofNat raftstate.length) <+: p :=
      List.prefix_of_prefix_length_le (List.prefix_append _ _) hp (Nat.le_of_not_lt h4)
    rw [List.prefix_append_right_inj] at hp
    simp only [List.length_append, length_putUint32] at hlt
    rw [decodeBundle_section hr]
    by_cases hwant : t.length % 2 ^ 32 < raftstate.length
    · exact ⟨_, if_pos hwant⟩
    · rw [if_neg hwant]
      -- all of the raft state is there, and the cut is behind it
      have hle : raftstate.length ≤ t.length :=
        Nat.le_trans (Nat.le_of_not_lt hwant) (Nat.mod_le _ _)
      obtain ⟨u, rfl⟩ : raftstate <+: t :=
        List.prefix_of_prefix_length_le (List.prefix_append _ _) hp hle
      rw [List.prefix_append_right_inj] at hp
      rw [List.length_append] at hlt
      rw [uint32_length hr, List.drop_left' rfl]
      exact decodeSnapshot_short hs _ hp (by omega)

end

/-- **When a bundle comes back**, for a raft state and a snapshot each shorter than 2^32 bytes; and
    a strict prefix never does. -/
theorem bundle_roundTrip_iff (raftstate snapshot : Bytes) (hr : raftstate.length < 2 ^ 32)
    (hs : snapshot.length < 2 ^ 32) :
    (decodeBundle (encodeBundle raftstate snapshot) =
        .ok (clone (some raftstate), clone (some snapshot)) ↔
      raftstate.length ≤ (raftstate.length + (4 + snapshot.length)) % 2 ^ 32) ∧
    ∀ p, p <+: encodeBundle raftstate snapshot → p ≠ encodeBundle raftstate snapshot →
      ∃ e, decodeBundle p = .error e := by
  refine ⟨?_, fun p hp hne => decodeBundle_short hr hs hp hne⟩
  rw [decodeBundle_encodeBundle hr hs]
  split
  next hlt => exact ⟨fun e => (by cases e), fun hle => absurd hlt (Nat.not_lt.mpr hle)⟩
  next hle => exact ⟨fun _ => Nat.le_of_not_lt hle, fun _ => rfl⟩

/-- Two sections that are not empty, cut in the raft state, in the second header and in the
    snapshot. -/
theorem bundle_roundTrip_iff_sample :
    decodeBundle (encodeBundle [7, 8, 9] [4, 5]) = .ok (some [7, 8, 9], some [4, 5]) ∧
      (∃ e, decodeBundle [0, 0, 0, 3, 7, 8] = .error e) ∧
      (∃ e, decodeBundle [0, 0, 0, 3, 7, 8, 9, 0, 0] = .error e) ∧
      ∃ e, decodeBundle [0, 0, 0, 3, 7, 8, 9, 0, 0, 0, 2, 4] = .error e := by
  obtain ⟨hwhole, hshort⟩ := bundle_roundTrip_iff [7, 8, 9] [4, 5] (by decide) (by decide)
  exact ⟨hwhole.mpr (by decide), hshort _ (by decide) (by decide),
    hshort _ (by decide) (by decide), hshort _ (by decide) (by decide)⟩

/-- **A raft state of 2^32 - 1 bytes without a snapshot is written and not read**: the 2^32 + 3
    bytes after its header are taken for 3. -/
theorem bundle_rejected :
    ∃ raftstate : Bytes, raftstate.length < 2 ^ 32 ∧
      decodeBundle (encodeBundle raftstate []) =
        .error (truncated "raftstate" 4294967295 4294967299) := by
  have hlen : (List.replicate 4294967295 (0 : UInt8)).length = 4294967295 := List.length_replicate
  have hfits : Fits (List.replicate 4294967295 (0 : UInt8)) := by
    unfold Fits
    rw [hlen]
    decide
  have hnil : Fits [] := Nat.two_pow_pos 32
  refine ⟨_, hfits, ?_⟩
  rw [decodeBundle_encodeBundle hfits hnil, hlen]
  rfl

/-! ## 4. FilePersister -/

/-- What `FilePersister` keeps in memory. -/
structure FilePersister where
  raftstate : Option Bytes
  snapshot : Option Bytes

/-- `load`, with the contents of `state.bin`, `none` if there is no such file. -/
def load (path : String) : Option Bytes → Except String FilePersister
  | none => .ok ⟨none, none⟩
  | some data =>
      match decodeBundle data with
      | .ok (raftstate, snapshot) => .ok ⟨raftstate, snapshot⟩
      | .error err => .error s!"persist: decode {path}: {err}"

namespace FilePersister

/-- The new contents of the memory; `bundle` is what goes to the file. -/
def save (_ : FilePersister) (raftstate snapshot : Option Bytes) : FilePersister where
  raftstate := clone raftstate
  snapshot := clone snapshot

def bundle (p : FilePersister) : Bytes := encodeBundle (p.raftstate.getD []) (p.snapshot.getD [])

def readRaftState (p : FilePersister) : Option Bytes := clone p.raftstate

def readSnapshot (p : FilePersister) : Option Bytes := clone p.snapshot

def raftStateSize (p : FilePersister) : ℕ := (p.raftstate.getD []).length

end FilePersister

/-- A data directory and the process that has it open, if one runs. -/
structure Node where
  file : Option Bytes
  p : Option FilePersister

inductive Event where
  | openFile
  | save (raftstate snapshot : Option Bytes)
  /-- The process ends, not in a `Save`. -/
  | crash
  /-- The process ends in a `Save`, before or after `os.Rename`. -/
  | cut (raftstate snapshot : Option Bytes) (renamed : Bool)

def Node.next (path : String) (n : Node) : Event → Option Node
  | .openFile => (load path n.file).toOption.map fun p => ⟨n.file, some p⟩
  | .save raftstate snapshot => do
      let p := (← n.p).save raftstate snapshot
      some ⟨some p.bundle, some p⟩
  | .crash => some ⟨n.file, none⟩
  | .cut raftstate snapshot renamed => do
      let p := (← n.p).save raftstate snapshot
      some ⟨if renamed then some p.bundle else n.file, none⟩

/-- The bundles that `decodeBundle` measures right. -/
def Event.Within : Event → Prop
  | .save raftstate snapshot | .cut raftstate snapshot _ =>
      (raftstate.getD []).length + (4 + (snapshot.getD []).length) < 2 ^ 32
  | _ => True

/-- The same events on the persister that only remembers. -/
inductive RefStep : Persister → Event → Persister → Prop where
  | openFile {q : Persister} : RefStep q .openFile q
  | save {q : Persister} (raftstate snapshot : Option Bytes) :
      RefStep q (.save raftstate snapshot) (q.save (raftstate.getD []) snapshot)
  | crash {q : Persister} : RefStep q .crash q
  | kept {q : Persister} (raftstate snapshot : Option Bytes) (renamed : Bool) :
      RefStep q (.cut raftstate snapshot renamed) q
  | saved {q : Persister} (raftstate snapshot : Option Bytes) (renamed : Bool) :
      RefStep q (.cut raftstate snapshot renamed) (q.save (raftstate.getD []) snapshot)

/-! ## 5. Refinement -/

theorem clone_getD (b : Option Bytes) : clone (some (b.getD [])) = clone b := by
  match b with
  | none => rfl
  | some [] => rfl
  | some (_ :: _) => rfl

theorem clone_clone (b : Option Bytes) : clone (clone b) = clone b := by
  match b with
  | none => rfl
  | some [] => rfl
  | some (_ :: _) => rfl

theorem getD_clone (b : Option Bytes) : (clone b).getD [] = b.getD [] := by
  match b with
  | none => rfl
  | some [] => rfl
  | some (_ :: _) => rfl

/-- A file persister in memory that holds what `q` does. -/
structure Matches (p : FilePersister) (q : Persister) : Prop where
  raftstate : p.raftstate = clone (some q.raftstate)
  snapshot : p.snapshot = clone q.snapshot

theorem Matches.save {p : FilePersister} {q : Persister} (raftstate snapshot : Option Bytes) :
    Matches (p.save raftstate snapshot) (q.save (raftstate.getD []) snapshot) :=
  ⟨(clone_getD raftstate).symm, (clone_clone snapshot).symm⟩

/-- The reads of the file persister. -/
theorem Matches.reads {p : FilePersister} {q : Persister} (h : Matches p q) :
    p.readRaftState = clone (some q.readRaftState) ∧ p.readSnapshot = q.readSnapshot ∧
      p.raftStateSize = q.readRaftState.length := by
  refine ⟨?_, ?_, ?_⟩
  · exact (congrArg clone h.raftstate).trans (clone_clone _)
  · exact (congrArg clone h.snapshot).trans (clone_clone _)
  · unfold FilePersister.raftStateSize
    rw [h.raftstate, getD_clone]
    rfl

/-- **A saved bundle is loaded as it was in memory.** -/
theorem load_bundle (path : String) (p : FilePersister) {raftstate snapshot : Option Bytes}
    (h : (raftstate.getD []).length + (4 + (snapshot.getD []).length) < 2 ^ 32) :
    load path (some (p.save raftstate snapshot).bundle) = .ok (p.save raftstate snapshot) := by
  have hr : Fits (raftstate.getD []) := by
    unfold Fits
    omega
  have hs : Fits (snapshot.getD []) := by
    unfold Fits
    omega
  have hle : ¬ ((raftstate.getD []).length + (4 + (snapshot.getD []).length)) % 2 ^ 32 <
      (raftstate.getD []).length := by
    rw [Nat.mod_eq_of_lt h]
    omega
  have hdecode : decodeBundle (p.save raftstate snapshot).bundle =
      .ok (clone raftstate, clone snapshot) := by
    unfold FilePersister.bundle FilePersister.save
    rw [getD_clone, getD_clone, decodeBundle_encodeBundle hr hs, if_neg hle, clone_getD,
      clone_getD]
  rw [load, hdecode]
  rfl

/-- The file is loaded as `q`, and so is the memory of the process. -/
structure Refines (path : String) (n : Node) (q : Persister) : Prop where
  file : ∃ p, load path n.file = .ok p ∧ Matches p q
  memory : ∀ p, n.p = some p → Matches p q

theorem refines_step (path : String) (n n' : Node) (e : Event) (q : Persister)
    (h : e.Within ∧ n.next path e = some n') (hr : Refines path n q) :
    ∃ q', RefStep q e q' ∧ Refines path n' q' := by
  obtain ⟨hw, h⟩ := h
  obtain ⟨p0, hload, hm⟩ := hr.file
  cases e with
  | openFile =>
      rw [Node.next, hload] at h
      cases h
      exact ⟨q, .openFile, hr.file, fun p hp => by cases hp; exact hm⟩
  | save raftstate snapshot =>
      obtain ⟨p, _, h⟩ := Option.bind_eq_some_iff.mp h
      cases h
      exact ⟨_, .save raftstate snapshot, ⟨_, load_bundle path p hw, .save _ _⟩,
        fun p' hp' => by cases hp'; exact .save _ _⟩
  | crash =>
      cases h
      exact ⟨q, .crash, hr.file, fun p hp => by cases hp⟩
  | cut raftstate snapshot renamed =>
      obtain ⟨p, _, h⟩ := Option.bind_eq_some_iff.mp h
      cases h
      cases renamed with
      | true =>
          exact ⟨_, .saved raftstate snapshot true, ⟨_, load_bundle path p hw, .save _ _⟩,
            fun p' hp' => by cases hp'⟩
      | false =>
          exact ⟨q, .kept raftstate snapshot false, hr.file, fun p' hp' => by cases hp'⟩

/-- **A `FilePersister` remembers what was saved last**, through crashes and restarts, if all its
    bundles are within the limit: it opens, and its reads are those of the persister that only
    remembers. -/
theorem file_refines (path : String) {es : List Event} {n : Node}
    (ht : Trace (fun n e n' => e.Within ∧ n.next path e = some n') ⟨none, none⟩ es n) :
    ∃ q, Trace RefStep Persister.empty es q ∧ (∃ n', n.next path .openFile = some n') ∧
      ∀ p, n.p = some p → p.readRaftState = clone (some q.readRaftState) ∧
        p.readSnapshot = q.readSnapshot ∧ p.raftStateSize = q.readRaftState.length := by
  have hstart : Refines path ⟨none, none⟩ Persister.empty :=
    ⟨⟨⟨none, none⟩, rfl, rfl, rfl⟩, fun p hp => by cases hp⟩
  obtain ⟨q, href, hr⟩ := ht.sim (refines_step path) hstart
  obtain ⟨p0, hload, _⟩ := hr.file
  refine ⟨q, href, ⟨⟨n.file, some p0⟩, ?_⟩, fun p hp => (hr.memory p hp).reads⟩
  rw [Node.next, hload]
  rfl

end RaftLab.Persist

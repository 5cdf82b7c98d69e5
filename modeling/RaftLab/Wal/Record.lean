/-
  File:      RaftLab/Wal/Record.lean
  Subject:   `src/wal/record.go`: the framed record log.

  A record is `[len:u32][crc32:u32][payload]`, both numbers big-endian. `appendRecord` and
  `replayRecords` are the source's; `records` shows that they are a framing in the sense of
  Lib/Framing.lean for payloads shorter than 2^32 bytes, so a log of whole records with a torn
  one at its end is read back exactly (`replayRecords_frames`).

  * `replayRecords_exact` -- **on arbitrary bytes it finds the longest sequence of records** they
    begin with, and nothing that follows a record can change it;
  * `replayRecords_not_longest` -- a record of 2^32 bytes, whose length is written as 0, is not
    among those it finds.
-/
import RaftLab.Lib.Framing
import RaftLab.Raft1.Types
import Mathlib.Logic.Function.Iterate
import Mathlib.Algebra.GroupWithZero.Nat

namespace RaftLab.Wal

open RaftLab.Lib
open RaftLab.Raft1 (Bytes)

/-! ## 1. `encoding/binary` and `hash/crc32` -/

/-- `binary.BigEndian.PutUint32` -/
def putUint32 (v : UInt32) : Bytes :=
  [UInt8.ofNat (v.toNat / 2 ^ 24), UInt8.ofNat (v.toNat / 2 ^ 16), UInt8.ofNat (v.toNat / 2 ^ 8),
    UInt8.ofNat v.toNat]

/-- `binary.BigEndian.Uint32`, on the first four bytes. -/
def uint32 : Bytes → UInt32
  | b0 :: b1 :: b2 :: b3 :: _ =>
      UInt32.ofNat (b0.toNat * 2 ^ 24 + b1.toNat * 2 ^ 16 + b2.toNat * 2 ^ 8 + b3.toNat)
  | _ => 0

@[simp] theorem length_putUint32 (v : UInt32) : (putUint32 v).length = 4 := rfl

theorem uint32_putUint32 (v : UInt32) (rest : Bytes) : uint32 (putUint32 v ++ rest) = v := by
  have hv : v.toNat < 2 ^ 32 := v.toNat_lt
  unfold putUint32 uint32
  simp only [List.cons_append, UInt8.toNat_ofNat']
  refine UInt32.toNat_inj.mp ?_
  rw [UInt32.toNat_ofNat']
  omega

/-- One bit of the reflected CRC with polynomial `0xEDB88320`. -/
def crcBit (c : UInt32) : UInt32 := if c &&& 1 = 1 then (c >>> 1) ^^^ 0xEDB88320 else c >>> 1

def crcByte (c : UInt32) (b : UInt8) : UInt32 := crcBit^[8] (c ^^^ b.toUInt32)

/-- `crc32.ChecksumIEEE` -/
def checksumIEEE (data : Bytes) : UInt32 := data.foldl crcByte 0xFFFFFFFF ^^^ 0xFFFFFFFF

/-- The check value of the CRC: the checksum of the digits `123456789`. -/
example : checksumIEEE [49, 50, 51, 52, 53, 54, 55, 56, 57] = 0xCBF43926 := by decide +kernel

/-! ## 2. Records -/

def recordHeaderSize : ℕ := 8

/-- `appendRecord(nil, payload)`: the length is cut to 32 bits. -/
def appendRecord (payload : Bytes) : Bytes :=
  putUint32 (UInt32.ofNat payload.length) ++ putUint32 (checksumIEEE payload) ++ payload

/-- One turn of the loop of `replayRecords`: the payload at the front of the data and what follows
    it; `none` is a `break`. -/
def nextRecord (data : Bytes) : Option (Bytes × Bytes) :=
  if recordHeaderSize ≤ data.length then
    let n := (uint32 data).toNat
    let crc := uint32 (data.drop 4)
    if n > data.length - recordHeaderSize then
      none
    else
      let payload := (data.drop recordHeaderSize).take n
      if checksumIEEE payload ≠ crc then none else some (payload, data.drop (recordHeaderSize + n))
  else
    none

theorem length_appendRecord (payload : Bytes) : (appendRecord payload).length = payload.length + 8 := by
  simp [appendRecord]
  omega

/-- The payloads whose length the header can hold. -/
def Fits (payload : Bytes) : Prop := payload.length < 2 ^ 32

theorem uint32_length {payload : Bytes} (h : Fits payload) :
    (UInt32.ofNat payload.length).toNat = payload.length := by
  unfold Fits at h
  rw [UInt32.toNat_ofNat']
  exact Nat.mod_eq_of_lt h

/-- A header of eight bytes, whatever follows it. -/
theorem header_of_isPrefix {payload t : Bytes} (ht : t <+: appendRecord payload)
    (hlen : recordHeaderSize ≤ t.length) :
    uint32 t = UInt32.ofNat payload.length ∧ uint32 (t.drop 4) = checksumIEEE payload := by
  obtain ⟨r, rfl⟩ : ∃ r, t = putUint32 (UInt32.ofNat payload.length) ++
      (putUint32 (checksumIEEE payload) ++ r) := by
    have hp : putUint32 (UInt32.ofNat payload.length) ++ putUint32 (checksumIEEE payload) <+: t :=
      List.prefix_of_prefix_length_le (List.prefix_append _ _) ht hlen
    obtain ⟨r, hr⟩ := hp
    exact ⟨r, by rw [← hr, List.append_assoc]⟩
  exact ⟨uint32_putUint32 _ _, by
    rw [List.drop_left' (length_putUint32 _)]
    exact uint32_putUint32 _ _⟩

theorem nextRecord_appendRecord {payload : Bytes} (rest : Bytes) (h : Fits payload) :
    nextRecord (appendRecord payload ++ rest) = some (payload, rest) := by
  have hlen := length_appendRecord payload
  have hlen' : (appendRecord payload ++ rest).length = payload.length + 8 + rest.length := by
    rw [List.length_append, hlen]
  have hn : uint32 (appendRecord payload ++ rest) = UInt32.ofNat payload.length := by
    unfold appendRecord
    rw [List.append_assoc, List.append_assoc]
    exact uint32_putUint32 _ _
  have hc : uint32 ((appendRecord payload ++ rest).drop 4) = checksumIEEE payload := by
    unfold appendRecord
    rw [List.append_assoc, List.append_assoc, List.drop_left' (length_putUint32 _)]
    exact uint32_putUint32 _ _
  have hd : (appendRecord payload ++ rest).drop 8 = payload ++ rest := by
    unfold appendRecord
    rw [List.append_assoc]
    exact List.drop_left' (by simp)
  unfold nextRecord recordHeaderSize
  rw [if_pos (by omega)]
  simp only [hn, hc, uint32_length h, hd]
  rw [if_neg (by omega), List.take_left' rfl, if_neg (by simp)]
  have hrest : (appendRecord payload ++ rest).drop (8 + payload.length) = rest := by
    rw [← List.drop_drop, hd]
    exact List.drop_left' rfl
  rw [hrest]

/-- A record that is not all there is not read: the header is missing or names more bytes than
    there are. -/
theorem nextRecord_short {payload t : Bytes} (h : Fits payload) (ht : t <+: appendRecord payload)
    (hne : t ≠ appendRecord payload) : nextRecord t = none := by
  have hlt : t.length < payload.length + 8 := by
    have h1 := ht.length_le
    rw [length_appendRecord] at h1
    refine Nat.lt_of_le_of_ne h1 fun e => hne (ht.eq_of_length ?_)
    rw [length_appendRecord]
    exact e
  unfold nextRecord
  by_cases hlen : recordHeaderSize ≤ t.length
  · obtain ⟨hn, _⟩ := header_of_isPrefix ht hlen
    rw [if_pos hlen]
    simp only [hn, uint32_length h]
    rw [if_pos]
    unfold recordHeaderSize at hlen ⊢
    omega
  · rw [if_neg hlen]

/-- **The record log as a framing.** -/
def records : Framing Bytes UInt8 where
  frame := appendRecord
  read := nextRecord
  fits := Fits
  frame_ne_nil payload := by
    intro e
    have := length_appendRecord payload
    rw [e] at this
    simp at this
  read_frame := nextRecord_appendRecord
  read_short := nextRecord_short

/-- `replayRecords`: the records, and the length of what they take up. -/
def replayRecords (data : Bytes) : List Bytes × ℕ :=
  let (rs, rest) := records.scan data.length data
  (rs, data.length - rest.length)

theorem nextRecord_nil : nextRecord [] = none := rfl

theorem replayRecords_fst (data : Bytes) :
    (replayRecords data).1 = (records.scan data.length data).1 := by
  unfold replayRecords
  generalize records.scan data.length data = x
  cases x
  rfl

/-- A header with the length 0 is read as an empty record, or not at all where its checksum is not
    that of an empty record. -/
theorem nextRecord_of_length_zero {data : Bytes} (hlen : recordHeaderSize ≤ data.length)
    (hzero : (uint32 data).toNat = 0) :
    records.read data = none ∨ ∃ rest, records.read data = some ([], rest) := by
  have hnext : nextRecord data = none ∨ ∃ rest, nextRecord data = some ([], rest) := by
    unfold nextRecord
    rw [if_pos hlen]
    dsimp only
    rw [hzero, List.take_zero, if_neg (Nat.not_lt_zero _)]
    by_cases hcrc : checksumIEEE [] ≠ uint32 (data.drop 4)
    · rw [if_pos hcrc]
      exact Or.inl rfl
    · rw [if_neg hcrc]
      exact Or.inr ⟨_, rfl⟩
  exact hnext

/-- **The length of a payload of 2^32 bytes is written as 0**: it does not come back. -/
theorem replayRecords_wrapped {payload : Bytes} (h : payload.length % 2 ^ 32 = 0) :
    (replayRecords (appendRecord payload)).1 = [] ∨
      ∃ rs, (replayRecords (appendRecord payload)).1 = [] :: rs := by
  have hlen : recordHeaderSize ≤ (appendRecord payload).length := by
    rw [length_appendRecord]
    exact Nat.le_add_left _ _
  have hzero : (uint32 (appendRecord payload)).toNat = 0 := by
    have hn : uint32 (appendRecord payload) = UInt32.ofNat payload.length := by
      unfold appendRecord
      rw [List.append_assoc]
      exact uint32_putUint32 _ _
    rw [hn, UInt32.toNat_ofNat']
    exact h
  rw [replayRecords_fst]
  rcases nextRecord_of_length_zero hlen hzero with hnone | ⟨rest, hsome⟩
  · left
    rw [records.scan_of_read_none hnone]
  · right
    exact records.scan_of_read_some hsome (Nat.lt_of_lt_of_le (by decide) hlen)

/-- **A log with a torn tail is read back up to the tail.** -/
theorem replayRecords_frames {rs : List Bytes} {tail : Bytes} (hfit : ∀ r ∈ rs, Fits r)
    (ht : nextRecord tail = none) :
    replayRecords (records.frames rs ++ tail) = (rs, (records.frames rs).length) := by
  unfold replayRecords
  rw [records.scan_frames ht rs _ hfit (by simp)]
  simp

/-! ## 3. Arbitrary bytes -/

/-- Four bytes are the number they read as. -/
theorem putUint32_uint32 {data : Bytes} (h : 4 ≤ data.length) :
    putUint32 (uint32 data) = data.take 4 := by
  match data, h with
  | b0 :: b1 :: b2 :: b3 :: rest, _ =>
      have h0 := b0.toNat_lt
      have h1 := b1.toNat_lt
      have h2 := b2.toNat_lt
      have h3 := b3.toNat_lt
      have hbyte : ∀ (b : UInt8) (n : ℕ), n % 2 ^ 8 = b.toNat → UInt8.ofNat n = b := by
        intro b n e
        refine UInt8.toNat_inj.mp ?_
        rw [UInt8.toNat_ofNat']
        exact e
      unfold putUint32 uint32
      rw [UInt32.toNat_ofNat', hbyte b0 _ (by omega), hbyte b1 _ (by omega), hbyte b2 _ (by omega),
        hbyte b3 _ (by omega)]
      rfl

/-- **Only records are read**: the bytes in front are the encoding of the payload found. -/
theorem records_exact : records.Exact := by
  intro data rest payload h
  have h' : nextRecord data = some (payload, rest) := h
  unfold nextRecord at h'
  by_cases hlen : recordHeaderSize ≤ data.length
  · rw [if_pos hlen] at h'
    dsimp only at h'
    by_cases hn : (uint32 data).toNat > data.length - recordHeaderSize
    · rw [if_pos hn] at h'
      cases h'
    · rw [if_neg hn] at h'
      by_cases hcrc : checksumIEEE ((data.drop recordHeaderSize).take (uint32 data).toNat) ≠
          uint32 (data.drop 4)
      · rw [if_pos hcrc] at h'
        cases h'
      · rw [if_neg hcrc] at h'
        obtain ⟨rfl, rfl⟩ := Prod.mk.inj (Option.some.inj h')
        unfold recordHeaderSize at hlen hn hcrc ⊢
        have hpay : ((data.drop 8).take (uint32 data).toNat).length = (uint32 data).toNat := by
          rw [List.length_take, List.length_drop]
          omega
        refine ⟨?_, ?_⟩
        · show ((data.drop 8).take (uint32 data).toNat).length < 2 ^ 32
          rw [hpay]
          exact (uint32 data).toNat_lt
        · show data = appendRecord _ ++ _
          unfold appendRecord
          rw [hpay, UInt32.ofNat_toNat, not_not.mp hcrc, putUint32_uint32 (by omega),
            putUint32_uint32 (by rw [List.length_drop]; omega), ← List.drop_drop,
            List.append_assoc, List.append_assoc, List.take_append_drop,
            show data.drop 8 = (data.drop 4).drop 4 by rw [List.drop_drop],
            List.take_append_drop, List.take_append_drop]
  · rw [if_neg hlen] at h'
    cases h'

theorem replayRecords_eq (data : Bytes) :
    replayRecords data = ((records.scan data.length data).1,
      data.length - (records.scan data.length data).2.length) := rfl

/-- Records in front of any bytes are found, and then what the bytes are found to be. -/
theorem replayRecords_append {ps : List Bytes} (hfit : ∀ p ∈ ps, Fits p) (tail : Bytes) :
    replayRecords (records.frames ps ++ tail) =
      (ps ++ (replayRecords tail).1, (records.frames ps).length + (replayRecords tail).2) := by
  obtain ⟨_, hsplit, _⟩ := records_exact.scan_split (Nat.le_refl tail.length)
  have hlen := congrArg List.length hsplit
  rw [List.length_append] at hlen
  rw [replayRecords_eq, records_exact.scan_append hfit tail (Nat.le_refl _), replayRecords_eq]
  dsimp only
  rw [List.length_append, Nat.add_sub_assoc (by omega)]

/-- What is found stands at the front of the data, and the length is its length. -/
theorem replayRecords_found (data : Bytes) :
    (∀ r ∈ (replayRecords data).1, Fits r) ∧ records.frames (replayRecords data).1 <+: data ∧
      (replayRecords data).2 = (records.frames (replayRecords data).1).length := by
  obtain ⟨hfits, hsplit, _⟩ := records_exact.scan_split (Nat.le_refl data.length)
  have hlen := congrArg List.length hsplit
  rw [List.length_append] at hlen
  refine ⟨hfits, ⟨_, hsplit.symm⟩, ?_⟩
  rw [replayRecords_eq]
  dsimp only
  omega

/-- **`replayRecords` is exact.** The bytes up to `n` are the encoding of the records found; no
    sequence of records that the bytes begin with is longer; a record that is not all there is cut
    off; what was cut to `n` is found again; and no tail alters or removes a record before it. -/
theorem replayRecords_exact (data : Bytes) :
    (replayRecords data).2 ≤ data.length ∧
    data.take (replayRecords data).2 = records.frames (replayRecords data).1 ∧
    (∀ ps, (∀ p ∈ ps, Fits p) → records.frames ps <+: data →
      (records.frames ps).length ≤ (replayRecords data).2) ∧
    (∀ ps payload t, (∀ p ∈ ps, Fits p) → Fits payload → t <+: appendRecord payload →
      t ≠ appendRecord payload →
      replayRecords (records.frames ps ++ t) = (ps, (records.frames ps).length)) ∧
    replayRecords (data.take (replayRecords data).2) = replayRecords data ∧
    ∀ ps tail, (∀ p ∈ ps, Fits p) → ps <+: (replayRecords (records.frames ps ++ tail)).1 := by
  obtain ⟨hfits, hpre, hn⟩ := replayRecords_found data
  have htake : data.take (replayRecords data).2 = records.frames (replayRecords data).1 := by
    rw [hn]
    exact (List.prefix_iff_eq_take.mp hpre).symm
  refine ⟨?_, htake, ?_, ?_, ?_, ?_⟩
  · exact Nat.sub_le _ _
  · intro ps hps hpre
    obtain ⟨tail, rfl⟩ := hpre
    rw [replayRecords_append hps]
    exact Nat.le_add_right _ _
  · intro ps payload t hps hp ht hne
    exact replayRecords_frames hps (nextRecord_short hp ht hne)
  · rw [htake]
    have h := replayRecords_frames hfits nextRecord_nil
    rw [List.append_nil, ← hn] at h
    exact h
  · intro ps tail hps
    rw [replayRecords_append hps]
    exact List.prefix_append _ _

/-- A torn record behind a whole one: bytes that are no part of a record are cut off. -/
theorem replayRecords_exact_sample :
    replayRecords (records.frames [[7], []] ++ [0, 0, 0, 2, 9]) = ([[7], []], 17) ∧
    replayRecords ((records.frames [[7], []] ++ [0, 0, 0, 2, 9]).take 17) = ([[7], []], 17) := by
  have hrun : replayRecords (records.frames [[7], []] ++ [0, 0, 0, 2, 9]) = ([[7], []], 17) := by
    decide +kernel
  obtain ⟨_, _, _, _, hagain, _⟩ :=
    replayRecords_exact (records.frames [[7], []] ++ [0, 0, 0, 2, 9])
  rw [hrun] at hagain
  exact ⟨hrun, hagain⟩

/-- A header with the length 2^32 - 1 and fewer bytes behind it. -/
theorem nextRecord_ones {k : ℕ} (hk : k < 2 ^ 32 + 3) :
    nextRecord (List.replicate (k + 4) 255) = none := by
  have hn : (uint32 (List.replicate (k + 4) 255)).toNat = 2 ^ 32 - 1 := rfl
  unfold nextRecord recordHeaderSize
  by_cases hlen : 8 ≤ (List.replicate (k + 4) (255 : UInt8)).length
  · rw [if_pos hlen]
    dsimp only
    rw [hn, List.length_replicate, if_pos (by omega)]
  · rw [if_neg hlen]

/-- **A record of 2^32 bytes is not found**: its length is written as 0, and behind the header stands
    no record. -/
theorem replayRecords_ones {k : ℕ} (hk : k + 4 = 2 ^ 32) :
    (replayRecords (appendRecord (List.replicate (k + 4) 255))).2 ≤ 8 := by
  set payload : Bytes := List.replicate (k + 4) 255 with hp
  have hlen : payload.length = 2 ^ 32 := by rw [hp, List.length_replicate, hk]
  obtain ⟨_, hpre, hn⟩ := replayRecords_found (appendRecord payload)
  have hwrap : payload.length % 2 ^ 32 = 0 := by rw [hlen, Nat.mod_self]
  rcases replayRecords_wrapped hwrap with hnil | ⟨rs, hcons⟩
  · rw [hn, hnil]
    exact Nat.zero_le _
  · -- the header is the encoding of an empty record
    have hhead : appendRecord payload = records.frames [[]] ++ payload := by
      have h8 : appendRecord [] <+: appendRecord payload := by
        rw [hcons, Framing.frames_cons] at hpre
        exact (List.prefix_append _ _).trans hpre
      have htake : appendRecord [] = (appendRecord payload).take 8 := by
        have h := List.prefix_iff_eq_take.mp h8
        rwa [length_appendRecord] at h
      have hdrop : (appendRecord payload).drop 8 = payload := by
        unfold appendRecord
        exact List.drop_left' (by simp)
      calc appendRecord payload
          = (appendRecord payload).take 8 ++ (appendRecord payload).drop 8 :=
            (List.take_append_drop 8 _).symm
        _ = appendRecord [] ++ payload := by rw [hdrop, ← htake]
        _ = records.frames [[]] ++ payload := by simp [records]
    have hnone : nextRecord payload = none := nextRecord_ones (by omega)
    have hrest : replayRecords payload = ([], 0) :=
      replayRecords_frames (fun r hr => absurd hr List.not_mem_nil) hnone
    rw [hhead, replayRecords_append (fun p hp => by
      rw [List.mem_singleton.mp hp]
      exact Nat.two_pow_pos 32), hrest]
    exact Nat.le_refl _

/-- **Among all payloads the sequence is not the longest**: the encoding of one payload of 2^32 bytes
    is data that begins with it, and at most eight bytes of it are found. -/
theorem replayRecords_not_longest :
    ∃ data ps, records.frames ps <+: data ∧ (replayRecords data).2 < (records.frames ps).length := by
  refine ⟨appendRecord (List.replicate (4294967292 + 4) 255),
    [List.replicate (4294967292 + 4) 255], ?_, ?_⟩
  · rw [Framing.frames_cons, Framing.frames_nil, List.append_nil]
    exact List.prefix_rfl
  · have h := replayRecords_ones (k := 4294967292) (by decide)
    have hlen : (records.frames [List.replicate (4294967292 + 4) 255]).length =
        4294967292 + 4 + 8 := by
      rw [Framing.frames_cons, Framing.frames_nil, List.append_nil]
      show (appendRecord _).length = _
      rw [length_appendRecord, List.length_replicate]
    rw [hlen]
    omega

end RaftLab.Wal

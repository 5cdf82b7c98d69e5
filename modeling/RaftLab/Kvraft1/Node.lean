/-
  File:      RaftLab/Kvraft1/Node.lean
  Subject:   A raftkvd node: Raft on a file WAL, the apply loop, and the state machine in pebble.

  `StartKVServerGrpc` puts a Raft server, `readApplyCh` and a durable store into one process
  (ApplyLoop.lean). The node has two disks that advance at different times: Raft's, and the store's.
  At a start Raft reads its disk and the store is used as it is; the Raft snapshot is not restored.
  The process may die at any point. What is assumed of a snapshot that comes from a leader: it is a
  store that is up to its index (`UpTo`).

  * `installed_snapshot_lost` -- a node that dies after Raft has saved an installed snapshot and
    before `Restore` has run loses the entries in between for good;
  * `durable_state_machine` -- if no crash falls into that window, the store holds what the
    entries up to the delivered index lead to, in every state of the run.
-/
import RaftLab.Lib.Unary
import RaftLab.Kvraft1.ApplyLoop
import RaftLab.Kvraft1.Server

namespace RaftLab.Kvraft1

open RaftLab.Lib RaftLab.Raft1 RaftLab.Kvsrv1

variable {NodeID Key Value : Type}

instance [Inhabited Key] : Inhabited (Req Key Value) := ⟨.get ⟨default⟩⟩

/-! ## 1. The node and its steps -/

/-- The process of a node; `state` is the store in pebble. -/
abbrev Node (NodeID Key Value : Type) := Applier NodeID (Req Key Value) (Store Key Value)

/-- The state machine over a store. -/
def storeMachine [DecidableEq Key] [Inhabited Value] (tar : Tar Key Value) :
    StateMachine (Store Key Value) (Req Key Value) where
  start := .empty
  doOp s index req := (doOp s index req).1
  snapshot := tar.pack
  restore := tar.unpack

section Steps

variable [DecidableEq NodeID] [DecidableEq Key] [Inhabited Key] [Inhabited Value]
  (cfg : Config NodeID) (me : NodeID) (tar : Tar Key Value) (ops : List (Req Key Value))

/-- A node started on empty disks. -/
def Node.init : Node NodeID Key Value := .boot .fresh .empty

/-- `StartKVServerGrpc` on what a crash left: Raft's disk at `st`, the store as it is. -/
def Node.reboot (n : Node NodeID Key Value) (st : PersistState NodeID (Req Key Value)) :
    Node NodeID Key Value := .boot st n.state

/-- A snapshot of a store that is up to index `N`. -/
def Packs (N : ℕ) (data : Bytes) : Prop := UpTo ops N (tar.unpack data)

/-- When an event can occur, and what is assumed of the cluster. -/
abbrev Node.Occurs (n : Node NodeID Key Value) : Event NodeID (Req Key Value) → Prop :=
  Applier.Occurs (storeMachine tar) (Packs tar ops) ops n

inductive Label (NodeID Key Value : Type) where
  | run (ev : Event NodeID (Req Key Value))
  | skip
  | crash

/-- **One step of the node.** -/
inductive Step : Node NodeID Key Value → Label NodeID Key Value → Node NodeID Key Value → Prop where
  | run {n : Node NodeID Key Value} (ev : Event NodeID (Req Key Value))
      (hev : n.Occurs tar ops ev) (o : Outcome NodeID (Req Key Value))
      (ho : exec cfg me n.proc ev = some o) (st : PersistState NodeID (Req Key Value))
      (hst : n.disk.applyAll o.proc.rf.wal = some st) :
      Step n (.run ev) (n.complete (storeMachine tar) ev o st)
  /-- The log is short, or `maxraftstate` is -1: no `Snapshot`. -/
  | skip {n : Node NodeID Key Value} : Step n .skip { n with pending := none }
  | crash {n : Node NodeID Key Value} (ev : Event NodeID (Req Key Value))
      (hev : n.Occurs tar ops ev) (o : Outcome NodeID (Req Key Value))
      (ho : exec cfg me n.proc ev = some o) (k j : ℕ) (st : PersistState NodeID (Req Key Value))
      (hst : n.disk.applyAll (torn WalOp.cut o.proc.rf.wal k j) = some st) :
      Step n .crash (n.reboot st)
  | restart {n : Node NodeID Key Value} : Step n .crash (n.reboot n.disk)

/-- No crash while Raft's durable snapshot is ahead of the service: of what it was handed, and of
    what the store has applied. -/
def SafeCrash (n : Node NodeID Key Value) (l : Label NodeID Key Value)
    (n' : Node NodeID Key Value) : Prop :=
  l = .crash → n'.disk.snapshotIndex ≤ max n.proc.delivered n.state.applied

end Steps

/-! ## 2. The invariant -/

section Invariant

variable [DecidableEq Key] [Inhabited Value] {tar : Tar Key Value} {ops : List (Req Key Value)}

/-- **A store that is up to an index is kept so**: by `DoOp` whether it skips the entry or not, and
    by the tar both ways. -/
theorem storeMachine_follows : (storeMachine tar).Follows ops (Packs tar ops) (UpTo ops) where
  doOp hs hop := hs.doOp hop
  snapshot hs := by
    show UpTo ops _ (tar.unpack (tar.pack _))
    rw [tar.unpack_pack]
    exact hs
  restore hP := hP

variable (tar ops) in
abbrev Inv (n : Node NodeID Key Value) : Prop := Applier.Inv (Packs tar ops) ops (UpTo ops) n

variable [Inhabited Key]

theorem inv_init : Inv tar ops (Node.init : Node NodeID Key Value) :=
  Applier.inv_boot ⟨fun _ => rfl, fun _ h => (by cases h)⟩ upTo_empty

variable [DecidableEq NodeID] {cfg : Config NodeID} {me : NodeID} {n n' : Node NodeID Key Value}

omit [Inhabited Key] [DecidableEq NodeID] in
/-- A crash that leaves a snapshot the service has reached. -/
theorem Inv.reboot (h : Inv tar ops n) {st : PersistState NodeID (Req Key Value)}
    (hsnap : SnapHolds (Packs tar ops) st.snapshotIndex st.snapshot)
    (hsafe : st.snapshotIndex ≤ max n.proc.delivered n.state.applied) :
    Inv tar ops (n.reboot st) := Applier.inv_boot hsnap (h.state.mono hsafe)

/-- **Every step keeps the invariant**, unless it is a crash in the window. -/
theorem inv_step {l : Label NodeID Key Value} (h : Inv tar ops n) (hs : Step cfg me tar ops n l n')
    (hsafe : SafeCrash n l n') : Inv tar ops n' := by
  cases hs with
  | run ev hev o ho st hst => exact Applier.Inv.run h storeMachine_follows hev ho hst
  | skip => exact Applier.Inv.skip h
  | crash ev hev o ho k j st hst =>
      exact Inv.reboot h (Applier.Inv.snap_torn h storeMachine_follows hev ho hst) (hsafe rfl)
  | restart => exact Inv.reboot h (Applier.Inv.snap_disk h) (hsafe rfl)

end Invariant

/-! ## 3. Runs -/

section Runs

variable [DecidableEq NodeID] [DecidableEq Key] [Inhabited Key] [Inhabited Value]

/-- The states of a node whose crashes all meet `SafeCrash`. -/
def SafeRun (cfg : Config NodeID) (me : NodeID) (tar : Tar Key Value) (ops : List (Req Key Value)) :
    Node NodeID Key Value → Node NodeID Key Value → Prop :=
  Relation.ReflTransGen fun n n' => ∃ l, Step cfg me tar ops n l n' ∧ SafeCrash n l n'

/-- **The durable state machine.** In every state of a run whose crashes never fall between the
    installation of a snapshot and its `Restore`, the store is the result of the committed entries
    up to the index the service was handed, or up to its own applied index where the node is
    replaying entries it has; that index is Raft's `appliedIndex` once a batch is delivered; and
    Raft's durable snapshot is again a store that is up to its index. -/
theorem durable_state_machine (cfg : Config NodeID) (me : NodeID) (tar : Tar Key Value)
    (ops : List (Req Key Value)) {n : Node NodeID Key Value} (h : SafeRun cfg me tar ops .init n) :
    n.state.kv = (replay ops (max n.proc.delivered n.state.applied)).m ∧
      (n.proc.applying = [] → n.proc.delivered = n.proc.rf.appliedIndex) ∧
      ∀ data, n.disk.snapshot = some data → UpTo ops n.disk.snapshotIndex (tar.unpack data) := by
  have hinv : Inv tar ops n :=
    run_inv (I := Inv tar ops) (fun _ _ ⟨_, hs, hsafe⟩ hi => inv_step hi hs hsafe) h inv_init
  refine ⟨hinv.state.eq_replay, fun hnil => ?_, fun data hd => ?_⟩
  · have hb := hinv.batch
    rw [hnil] at hb
    exact hb
  · rw [hinv.disk.1]
    exact hinv.snap.2 data (by rw [← hinv.disk.2]; exact hd)

end Runs

/-! ## 4. Runs that can be computed -/

section Play

variable [DecidableEq NodeID] [DecidableEq Key] [DecidableEq Value] [Inhabited Key]
  [Inhabited Value] (cfg : Config NodeID) (me : NodeID) (tar : Tar Key Value)
  (ops : List (Req Key Value))

instance (d : ℕ) (s : Store Key Value) : Decidable (UpTo ops d s) :=
  decidable_of_iff (∀ i, i < max d s.applied + 1 → s.applied ≤ i → s.kv = (replay ops i).m)
    ⟨fun h i h1 h2 => h i (by omega) h1, fun h i h1 h2 => h i h2 (by omega)⟩

instance (N : ℕ) (data : Bytes) : Decidable (Packs tar ops N data) :=
  inferInstanceAs (Decidable (UpTo ops N (tar.unpack data)))

/-- What a schedule lets the node do; `safe` asks for `SafeCrash`. -/
inductive Action (NodeID Key Value : Type) where
  | run (ev : Node NodeID Key Value → Event NodeID (Req Key Value))
  | skip
  | restart

def Node.next (safe : Bool) (n : Node NodeID Key Value) :
    Action NodeID Key Value → Option (Node NodeID Key Value)
  | .run ev =>
      if n.Occurs tar ops (ev n) then do
        let o ← exec cfg me n.proc (ev n)
        let st ← n.disk.applyAll o.proc.rf.wal
        some (n.complete (storeMachine tar) (ev n) o st)
      else none
  | .skip => some { n with pending := none }
  | .restart =>
      if safe → n.disk.snapshotIndex ≤ max n.proc.delivered n.state.applied then
        some (n.reboot n.disk)
      else none

theorem Node.next_step {safe : Bool} {n n' : Node NodeID Key Value}
    {act : Action NodeID Key Value} (h : n.next cfg me tar ops safe act = some n') :
    ∃ l, Step cfg me tar ops n l n' ∧ (safe → SafeCrash n l n') := by
  cases act with
  | run ev =>
      by_cases hev : n.Occurs tar ops (ev n)
      · simp only [Node.next, if_pos hev, Option.bind_eq_bind, Option.bind_eq_some_iff] at h
        obtain ⟨o, ho, st, hst, e⟩ := h
        cases e
        exact ⟨_, .run _ hev o ho st hst, fun _ e => (by cases e)⟩
      · simp [Node.next, if_neg hev] at h
  | skip =>
      cases h
      exact ⟨_, .skip, fun _ e => (by cases e)⟩
  | restart =>
      by_cases hs : safe → n.disk.snapshotIndex ≤ max n.proc.delivered n.state.applied
      · simp only [Node.next, if_pos hs] at h
        cases h
        exact ⟨_, .restart, fun hsafe _ => hs hsafe⟩
      · simp only [Node.next, if_neg hs] at h
        cases h

def Node.play (safe : Bool) (n : Node NodeID Key Value) (script : List (Action NodeID Key Value)) :
    Option (Node NodeID Key Value) := script.foldlM (fun n act => n.next cfg me tar ops safe act) n

variable {cfg me tar ops}

theorem Node.play_run {script : List (Action NodeID Key Value)} {n n' : Node NodeID Key Value}
    (h : n.play cfg me tar ops false script = some n') :
    Relation.ReflTransGen (fun a b => ∃ l, Step cfg me tar ops a l b) n n' := by
  refine (Lib.play_run h).lift id ?_
  intro n n' hn
  obtain ⟨act, hact⟩ := hn
  obtain ⟨l, hs, _⟩ := Node.next_step cfg me tar ops hact
  exact ⟨l, hs⟩

theorem Node.play_safeRun {script : List (Action NodeID Key Value)} {n n' : Node NodeID Key Value}
    (h : n.play cfg me tar ops true script = some n') : SafeRun cfg me tar ops n n' := by
  refine (Lib.play_run h).lift id ?_
  intro n n' hn
  obtain ⟨act, hact⟩ := hn
  obtain ⟨l, hs, hsafe⟩ := Node.next_step cfg me tar ops hact
  exact ⟨l, hs, hsafe rfl⟩

end Play

/-! ### A follower that lags -/

section Sample

def encEntries (m : KvMap ℕ ℕ) : Bytes :=
  m.flatMap fun x => encNat x.1 ++ (encNat x.2.value ++ encNat x.2.version)

def decEntries : ℕ → Bytes → Option (KvMap ℕ ℕ)
  | 0, _ => some []
  | k + 1, bs => do
      let (key, bs) ← decNat bs
      let (value, bs) ← decNat bs
      let (version, bs) ← decNat bs
      let m ← decEntries k bs
      some ((key, ⟨value, version⟩) :: m)

theorem decEntries_encEntries (m : KvMap ℕ ℕ) : decEntries m.length (encEntries m) = some m := by
  induction m with
  | nil => rfl
  | cons x m ih =>
      have e : encEntries (x :: m) =
          encNat x.1 ++ (encNat x.2.value ++ (encNat x.2.version ++ encEntries m)) := by
        simp [encEntries]
      rw [e, List.length_cons, decEntries]
      simp [decNat_encNat, ih]

/-- Applied index, number of entries, entries. -/
def unaryTar : Tar ℕ ℕ where
  pack s := encNat s.applied ++ (encNat s.kv.length ++ encEntries s.kv)
  unpack bs :=
    let s : Option (Store ℕ ℕ) := do
      let (applied, bs) ← decNat bs
      let (k, bs) ← decNat bs
      let kv ← decEntries k bs
      some ⟨kv, applied⟩
    s.getD .empty
  unpack_pack s := by simp [decNat_encNat, decEntries_encEntries]

def trio : Config ℕ := ⟨[0, 1, 2], by decide⟩

def threePuts : List (Req ℕ ℕ) := [.put ⟨0, 10, 0⟩, .put ⟨1, 11, 0⟩, .put ⟨2, 12, 0⟩]

/-- The leader's store after two entries. -/
def leaderStore : Store ℕ ℕ := ⟨[(0, ⟨10, 1⟩), (1, ⟨11, 1⟩)], 2⟩

/-- The leader's message with the snapshot of index 2. -/
def snapshotCall : Packet ℕ (Req ℕ ℕ) :=
  ⟨0, 1, .appendEntries ⟨1, 0, 0, 0, [], 2, some (unaryTar.pack leaderStore), 2, 1⟩⟩

/-- Its message with entry 3, committed. -/
def entryCall : Packet ℕ (Req ℕ ℕ) :=
  ⟨0, 1, .appendEntries ⟨1, 0, 2, 1, [⟨.put ⟨2, 12, 0⟩, 1⟩], 3, none, 2, 1⟩⟩

/-- Install the snapshot, hand it over, die, go on. -/
def restoredThenKilled : List (Action ℕ ℕ ℕ) :=
  [.run fun _ => .deliver snapshotCall, .run fun _ => .applyBatch, .run fun _ => .apply, .restart,
   .run fun _ => .deliver entryCall, .run fun _ => .applyBatch, .run fun _ => .apply,
   .run fun n => .snapshot 3 (unaryTar.pack n.state), .restart]

/-- Install the snapshot, die, go on. -/
def killedBeforeRestore : List (Action ℕ ℕ ℕ) :=
  [.run fun _ => .deliver snapshotCall, .restart, .run fun _ => .deliver entryCall,
   .run fun _ => .applyBatch, .run fun _ => .apply, .skip]

theorem durable_state_machine_sample :
    ∃ n : Node ℕ ℕ ℕ, SafeRun trio 1 unaryTar threePuts .init n ∧ n.proc.delivered = 3 ∧
      n.state.kv = (replay threePuts 3).m := by
  have hplay : ((Node.init.play trio 1 unaryTar threePuts true restoredThenKilled).map
      fun n => (n.proc.delivered, n.state.applied)) = some (3, 3) := by decide +kernel
  obtain ⟨n, hn, hv⟩ := Option.map_eq_some_iff.mp hplay
  have hd : n.proc.delivered = 3 := congrArg Prod.fst hv
  have ha : n.state.applied = 3 := congrArg Prod.snd hv
  obtain ⟨hkv, _⟩ := durable_state_machine trio 1 unaryTar threePuts (Node.play_safeRun hn)
  rw [hd, ha] at hkv
  exact ⟨n, Node.play_safeRun hn, hd, hkv⟩

/-- **Entries 1 and 2 are lost**: the node has delivered and applied entry 3, and its store holds
    nothing but that entry. -/
theorem installed_snapshot_lost :
    ∃ n : Node ℕ ℕ ℕ,
      Relation.ReflTransGen (fun a b => ∃ l, Step trio 1 unaryTar threePuts a l b) .init n ∧
      n.proc.applying = [] ∧ n.proc.delivered = 3 ∧ n.proc.rf.appliedIndex = 3 ∧
      n.state = ⟨[(2, ⟨12, 1⟩)], 3⟩ ∧ n.state.kv ≠ (replay threePuts 3).m := by
  have hplay : ((Node.init.play trio 1 unaryTar threePuts false killedBeforeRestore).map
      fun n => (n.proc.applying, n.proc.delivered, n.proc.rf.appliedIndex, n.state)) =
      some ([], 3, 3, ⟨[(2, ⟨12, 1⟩)], 3⟩) := by decide +kernel
  obtain ⟨n, hn, hv⟩ := Option.map_eq_some_iff.mp hplay
  obtain ⟨h1, h2, h3, h4⟩ : _ ∧ _ ∧ _ ∧ _ := by simpa [Prod.ext_iff] using hv
  refine ⟨n, Node.play_run hn, h1, h2, h3, h4, ?_⟩
  rw [h4]
  decide

end Sample

end RaftLab.Kvraft1

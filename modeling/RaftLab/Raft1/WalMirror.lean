/-
  File:      RaftLab/Raft1/WalMirror.lean
  Subject:   Both WAL implementations mirror the persistent fields of a Raft server.

  `persisterWAL` and `fileWAL` put the two implementations behind one interface, and each meets
  the contract of Deployment.lean: `persisterContract` for every call, `fileContract` for calls
  whose records are shorter than 2^32 bytes.

  * `wal_mirrors_state` -- **in every reachable state `Load` on what is durable returns the
    server's persistent fields**, and every `TruncateSuffix` is inside the WAL's own log;
  * `wal_mirror_breaks` -- the two places where it is not so: `persisterWAL` on a node that never
    wrote returns no log, not even the sentinel, and `FileWAL` loses an entry whose record is 2^32
    bytes long.
-/
import RaftLab.FileWal.Limits
import RaftLab.Raft1.Deployment

namespace RaftLab.Raft1

open RaftLab.Lib RaftLab.Wal Relation
open RaftLab.FileWal (Gob FileWAL Valid Small Ready Durable openWAL openCrash walPath unaryGob)

/-! ## 1. The two implementations -/

section Implementations

variable {NodeID Cmd : Type} [Inhabited Cmd]

def persisterWAL (gob : StateGob NodeID Cmd) : WalImpl NodeID Cmd where
  Wal := PersisterWAL NodeID Cmd
  Store := Persister
  blank := .empty
  store w := w.p
  call := PersisterWAL.call gob
  cut w op k _ := w.cut gob op (decide (0 < k))
  start p := do
    let w ← newPersisterWAL gob p
    let x ← w.load gob
    some (w, x)
  startCut p _ _ := some p
  model w := some w.model

/-- `FileWAL` keeps no state in memory: its model is what a second `Open` and `Load` would find. -/
def fileWAL (gob : Gob NodeID Cmd) : WalImpl NodeID Cmd where
  Wal := FileWAL
  Store := Disk
  blank := Disk.empty
  store fw := fw.mach.disk
  call := FileWAL.call gob
  cut := FileWAL.crash gob
  start d := do
    let fw ← openWAL d
    let x ← fw.load gob
    some (fw, x)
  startCut := openCrash
  model fw := do
    let fw ← openWAL fw.mach.disk
    let x ← fw.load gob
    some x.1

/-- **`persisterWAL` meets the contract** for every call. -/
def persisterContract (gob : StateGob NodeID Cmd) :
    Contract (persisterWAL gob) fun _ => True where
  holds := Holds gob
  inStep := InStep gob
  blank := holds_empty gob
  store h := h.2
  model h := congrArg some h.1
  call h hv hf _ := PersisterWAL.inStep_call h hv hf
  cut k _ h hv hf _ := PersisterWAL.holds_cut h hv hf (decide (0 < k))
  start h := by
    obtain ⟨w, hw, hp, hstep⟩ := inStep_newPersisterWAL h
    obtain ⟨x, hx, hrec⟩ := recovered_load hstep.2
    refine ⟨w, x, ?_, hrec, hstep⟩
    show (newPersisterWAL gob _).bind _ = _
    rw [hw]
    show (w.load gob).bind _ = _
    rw [hx]
    rfl
  startCut _ _ h := ⟨_, rfl, h⟩

/-- `Load` answers `ok = false` on a fresh state only. -/
theorem recovered_fileLoad {gob : Gob NodeID Cmd} {fw : FileWAL} {st : PersistState NodeID Cmd}
    {ok : Bool} (h : fw.load gob = some (st, ok)) : recovered (st, ok) = st := by
  cases ok with
  | true => rfl
  | false =>
      obtain ⟨s, hs, h⟩ := Option.bind_eq_some_iff.mp h
      obtain ⟨⟨hd, logs⟩, hr, h⟩ := Option.bind_eq_some_iff.mp h
      obtain ⟨hst, hok⟩ := Prod.mk.inj (Option.some.inj h)
      have hempty : ¬ ((fw.mach.disk.readFile FileWal.metaPath).length > 0 ∨
          fw.records.length > 0) := of_decide_eq_false hok
      have hmeta : fw.mach.disk.readFile FileWal.metaPath = [] :=
        List.eq_nil_of_length_eq_zero (by omega)
      have hrecs : fw.records = [] := List.eq_nil_of_length_eq_zero (by omega)
      rw [hmeta] at hs
      rw [hrecs] at hr
      cases hs
      cases hr
      rw [← hst]
      rfl

/-- **`FileWAL` meets the contract** for calls whose records have a length of 32 bits. -/
def fileContract (gob : Gob NodeID Cmd) : Contract (fileWAL gob) (Small gob) where
  holds := Durable gob
  inStep fw := Ready gob fw.mach
  blank := FileWal.durable_empty gob
  store h := h.durable
  model h := by
    obtain ⟨fw, ok, ho, hl, _⟩ := FileWal.open_load h.durable
    show (openWAL _).bind _ = _
    rw [ho]
    show (fw.load gob).bind _ = _
    rw [hl]
    rfl
  call := by
    intro fw st op h hv hf hs
    obtain ⟨m, st', hrun, ha, h'⟩ := FileWal.ready_call h hv hs
    rw [hf.stored] at ha
    refine ⟨{ fw with mach := m, logBytes := FileWal.sizeAfter gob fw.logBytes op }, st', ?_, ha, h'⟩
    show (runAll _ _).bind _ = _
    rw [hrun]
    rfl
  cut k j h hv hf hs := by
    obtain ⟨m, st, hrun, hcut, hd⟩ := FileWal.durable_crash h hv hs k j
    rw [hf.stored] at hcut
    refine ⟨m.disk, st, ?_, hcut, hd⟩
    show (runAll _ _).bind _ = _
    rw [hrun]
    rfl
  start h := by
    obtain ⟨fw, ok, ho, hl, hr⟩ := FileWal.open_load h
    refine ⟨fw, _, ?_, recovered_fileLoad hl, hr⟩
    show (openWAL _).bind _ = _
    rw [ho]
    show (fw.load gob).bind _ = _
    rw [hl]
    rfl
  startCut k j h := FileWal.durable_openCrash h k j

end Implementations

/-! ## 2. Runs that can be computed -/

namespace Deployment

variable {NodeID Cmd : Type} {impl : WalImpl NodeID Cmd}

/-- What a node is let do. -/
inductive Action (NodeID Cmd : Type) where
  | run (ev : Event NodeID Cmd)
  | crash (ev : Event NodeID Cmd) (calls k j : ℕ) (starts : List (ℕ × ℕ))
  | restart (starts : List (ℕ × ℕ))

variable [DecidableEq NodeID] [Inhabited Cmd] [DecidableEq Cmd]
  (fits : WalOp NodeID Cmd → Prop) [DecidablePred fits]

/-- The step of one action, if it can be taken. -/
def next (cfg : Config NodeID) (d : Deployment impl) (n : NodeID) :
    Action NodeID Cmd → Option (Deployment impl)
  | .run ev =>
      if n ∈ cfg.nodeIDs ∧ d.bare.Enabled n ev then do
        let o ← exec cfg n (d.node n) ev
        let w ← impl.callAll (d.wal n) o.proc.rf.wal
        if ∀ op ∈ o.proc.rf.wal, fits op then some (d.complete n o w) else none
      else
        none
  | .crash ev calls k j starts =>
      if n ∈ cfg.nodeIDs ∧ d.bare.Enabled n ev then do
        let o ← exec cfg n (d.node n) ev
        let s ← impl.crashIn (d.wal n) o.proc.rf.wal calls k j
        let x ← impl.reboot s starts
        if ∀ op ∈ o.proc.rf.wal, fits op then some (d.reboot n o.made x.1 (recovered x.2))
        else none
      else
        none
  | .restart starts =>
      if n ∈ cfg.nodeIDs then do
        let x ← impl.reboot (impl.store (d.wal n)) starts
        some (d.reboot n [] x.1 (recovered x.2))
      else
        none

theorem next_step {cfg : Config NodeID} {d d' : Deployment impl} {n : NodeID}
    {act : Action NodeID Cmd} (h : d.next fits cfg n act = some d') : Step cfg fits d d' := by
  cases act with
  | run ev =>
      by_cases hc : n ∈ cfg.nodeIDs ∧ d.bare.Enabled n ev
      · simp only [next, if_pos hc, Option.bind_eq_bind, Option.bind_eq_some_iff] at h
        obtain ⟨o, ho, w, hw, h⟩ := h
        split at h
        · rename_i hfits
          cases h
          exact .run n hc.1 ev hc.2 o ho hfits w hw
        · cases h
      · simp [next, hc] at h
  | crash ev calls k j starts =>
      by_cases hc : n ∈ cfg.nodeIDs ∧ d.bare.Enabled n ev
      · simp only [next, if_pos hc, Option.bind_eq_bind, Option.bind_eq_some_iff] at h
        obtain ⟨o, ho, s, hs, x, hx, h⟩ := h
        split at h
        · rename_i hfits
          cases h
          exact .crash n hc.1 ev hc.2 o ho hfits calls k j s hs starts x.1 x.2 hx
        · cases h
      · simp [next, hc] at h
  | restart starts =>
      by_cases hn : n ∈ cfg.nodeIDs
      · simp only [next, if_pos hn, Option.bind_eq_bind, Option.bind_eq_some_iff] at h
        obtain ⟨x, hx, h⟩ := h
        cases h
        exact .restart n hn starts x.1 x.2 hx
      · simp [next, hn] at h

/-- A schedule names a node and chooses its action from the state of the cluster. -/
abbrev Schedule (NodeID Cmd : Type) := List (NodeID × (Cluster NodeID Cmd → Action NodeID Cmd))

/-- The state after a schedule, from blank disks. -/
def playFrom (impl : WalImpl NodeID Cmd) (cfg : Config NodeID) (script : Schedule NodeID Cmd) :
    Option (Deployment impl) := do
  let x ← impl.start impl.blank
  play (fun d (act : NodeID × (Cluster NodeID Cmd → Action NodeID Cmd)) =>
    d.next fits cfg act.1 (act.2 d.bare)) (boot x.1 x.2) script

theorem reachable_of_playFrom {cfg : Config NodeID} {script : Schedule NodeID Cmd}
    {d : Deployment impl} (h : playFrom fits impl cfg script = some d) : d.Reachable cfg fits := by
  obtain ⟨x, hx, h⟩ := Option.bind_eq_some_iff.mp h
  refine ⟨x.1, x.2, hx, ?_⟩
  refine (play_run h).lift id ?_
  intro s s' hs
  obtain ⟨act, hact⟩ := hs
  exact next_step fits hact

omit [DecidableEq Cmd] [DecidablePred fits] in
variable {fits} in
/-- With more calls allowed there are more runs. -/
theorem Reachable.mono {fits' : WalOp NodeID Cmd → Prop} (hf : ∀ op, fits op → fits' op)
    {cfg : Config NodeID} {d : Deployment impl} (h : d.Reachable cfg fits) :
    d.Reachable cfg fits' := by
  obtain ⟨w, x, hx, hrun⟩ := h
  refine ⟨w, x, hx, hrun.lift id ?_⟩
  intro s s' hs
  cases hs with
  | run n hn ev hev o ho hfits w hw =>
      exact .run n hn ev hev o ho (fun op hop => hf op (hfits op hop)) w hw
  | crash n hn ev hev o ho hfits calls k j st hs starts w x hx =>
      exact .crash n hn ev hev o ho (fun op hop => hf op (hfits op hop)) calls k j st hs starts w x
        hx
  | restart n hn starts w x hx => exact .restart n hn starts w x hx

end Deployment

/-! ## 3. The mirror -/

section Mirror

variable {NodeID Cmd : Type} [DecidableEq NodeID] [Inhabited Cmd] {cfg : Config NodeID}

/-- **The WAL mirrors the persistent state.** In every state a deployment reaches with
    `persisterWAL`, `Load` returns the node's persistent fields; only on a node whose persister is
    still empty, and which is then still in its first state, it answers `ok = false` and no log. In every state it
    reaches with `FileWAL` by calls whose records have a length of 32 bits, `Open` and `Load` return
    the node's persistent fields. Every `TruncateSuffix` made in such a state is above the
    snapshot and inside the log of the WAL's own model. -/
theorem wal_mirrors_state {stateGob : StateGob NodeID Cmd} {gob : Gob NodeID Cmd}
    {dp : Deployment (persisterWAL stateGob)} {df : Deployment (fileWAL gob)}
    (hp : dp.Reachable cfg fun _ => True) (hf : df.Reachable cfg (Small gob)) :
    (∀ n ∈ cfg.nodeIDs,
      ((PersisterWAL.p (dp.wal n) ≠ .empty ∧
          PersisterWAL.load stateGob (dp.wal n) = some ((dp.node n).rf.persist, true)) ∨
        (PersisterWAL.p (dp.wal n) = .empty ∧
          PersisterWAL.load stateGob (dp.wal n) = some (⟨0, none, [], 0, none⟩, false) ∧
          (dp.node n).rf.persist = .fresh)) ∧
      TruncatesInside cfg (fun _ => True) dp n) ∧
    ∀ n ∈ cfg.nodeIDs,
      (∃ fw ok, openWAL (FileWAL.mach (df.wal n)).disk = some fw ∧
        fw.load gob = some ((df.node n).rf.persist, ok)) ∧
      TruncatesInside cfg (Small gob) df n := by
  constructor
  · intro n hn
    have hstep : InStep stateGob (dp.wal n) (dp.node n).rf.persist :=
      reachable_inStep (C := persisterContract stateGob) hp n
    exact ⟨load_of_holds hstep.2, reachable_truncatesInside (persisterContract stateGob) hp hn⟩
  · intro n hn
    have hready : Ready gob (FileWAL.mach (df.wal n)) (df.node n).rf.persist :=
      reachable_inStep (C := fileContract gob) hf n
    obtain ⟨fw, ok, ho, hl, _⟩ := FileWal.open_load hready.durable
    exact ⟨⟨fw, ok, ho, hl⟩, reachable_truncatesInside (fileContract gob) hf hn⟩

end Mirror

/-! ### Runs of three servers -/

/-- Entries in unary, as many as are asked for. -/
def decEntries : ℕ → Bytes → Option (List (LogEntry ℕ))
  | 0, _ => some []
  | k + 1, bs => do
      let (command, bs) ← decNat bs
      let (term, bs) ← decNat bs
      let es ← decEntries k bs
      some (⟨command, term⟩ :: es)

def encEntries (es : List (LogEntry ℕ)) : Bytes :=
  es.flatMap fun e => encNat e.command ++ encNat e.term

theorem decEntries_encEntries (es : List (LogEntry ℕ)) :
    decEntries es.length (encEntries es) = some es := by
  induction es with
  | nil => rfl
  | cons e es ih =>
      have hcons : encEntries (e :: es) = encNat e.command ++ (encNat e.term ++ encEntries es) := by
        simp [encEntries]
      rw [hcons, List.length_cons, decEntries]
      simp [decNat_encNat, ih]

def unaryStateGob : StateGob ℕ ℕ where
  enc s := encNat s.term ++ (encNat s.snapshotIndex ++
    (encNat (s.vote.elim 0 (· + 1)) ++ (encNat s.logs.length ++ encEntries s.logs)))
  dec bs := do
    let (term, bs) ← decNat bs
    let (snapshotIndex, bs) ← decNat bs
    let (vote, bs) ← decNat bs
    let (k, bs) ← decNat bs
    let logs ← decEntries k bs
    some ⟨term, logs, if vote = 0 then none else some (vote - 1), snapshotIndex⟩
  roundTrip s := by
    obtain ⟨term, logs, vote, snapshotIndex⟩ := s
    cases vote <;> simp [decNat_encNat, decEntries_encEntries]
  nothing := rfl

/-- Server 0 is elected, commits and compacts an entry; server 2 dies while it installs the
    snapshot, dies again while it starts, and installs it; then server 1 is started again. -/
def mirrorRun : Deployment.Schedule ℕ ℕ :=
  [(0, fun _ => .run .tickerArm), (0, fun _ => .run .tickerFire),
    (1, fun c => .run (deliverNth 0 c)), (0, fun c => .run (replyNth 0 0 c)),
    (0, fun _ => .run (.start 7)), (0, fun _ => .run .heartbeat),
    (1, fun c => .run (deliverNth 2 c)), (0, fun c => .run (replyNth 1 1 c)),
    (0, fun _ => .run .applyBatch), (0, fun _ => .run .apply),
    (0, fun _ => .run (.snapshot 1 [42])), (0, fun _ => .run .heartbeat),
    (2, fun c => .crash (deliverNth 5 c) 1 2 1 [(0, 0)]),
    (2, fun c => .run (deliverNth 5 c)), (1, fun _ => .restart [(1, 0)])]

theorem wal_mirrors_state_sample :
    ∃ (dp : Deployment (persisterWAL unaryStateGob)) (df : Deployment (fileWAL unaryGob)),
      (dp.Reachable three fun _ => True) ∧ df.Reachable three (Small unaryGob) ∧
      PersisterWAL.load unaryStateGob (dp.wal 2) =
        some (⟨1, none, [⟨0, 1⟩], 1, some [42]⟩, true) ∧
      ∃ fw ok, openWAL (FileWAL.mach (df.wal 1)).disk = some fw ∧
        fw.load unaryGob = some (⟨1, some 0, [⟨0, 0⟩, ⟨7, 1⟩], 0, none⟩, ok) := by
  have hplayp : ((Deployment.playFrom (fun _ => True) (persisterWAL unaryStateGob) three
      mirrorRun).map fun d => decide ((d.node 2).rf.persist =
        ⟨1, none, [⟨0, 1⟩], 1, some [42]⟩)) = some true := by decide +kernel
  have hplayf : ((Deployment.playFrom (Small unaryGob) (fileWAL unaryGob) three
      mirrorRun).map fun d => decide ((d.node 1).rf.persist =
        ⟨1, some 0, [⟨0, 0⟩, ⟨7, 1⟩], 0, none⟩)) = some true := by decide +kernel
  obtain ⟨dp, hdp, hvp⟩ := Option.map_eq_some_iff.mp hplayp
  obtain ⟨df, hdf, hvf⟩ := Option.map_eq_some_iff.mp hplayf
  have hp := Deployment.reachable_of_playFrom _ hdp
  have hf := Deployment.reachable_of_playFrom _ hdf
  have ep := of_decide_eq_true hvp
  have ef := of_decide_eq_true hvf
  obtain ⟨h1, h2⟩ := wal_mirrors_state hp hf
  refine ⟨dp, df, hp, hf, ?_, ?_⟩
  · rcases (h1 2 (by decide)).1 with ⟨_, hl⟩ | ⟨_, _, hfresh⟩
    · rw [hl, ep]
    · rw [ep] at hfresh
      cases hfresh
  · rw [← ef]
    exact (h2 1 (by decide)).1

/-! ### Where the mirror breaks -/

/-- `AppendLog` of one entry puts one record behind the log, whatever its length. -/
theorem callAll_appendOne {NodeID Cmd : Type} [Inhabited Cmd] {gob : Gob NodeID Cmd} {fw : FileWAL}
    {st : PersistState NodeID Cmd} (h : Ready gob fw.mach st) (e : LogEntry Cmd) :
    ∃ fw' : FileWAL, (fileWAL gob).callAll fw [.appendLog [e]] = some fw' ∧
      fw'.mach.disk.readFile walPath =
        fw.mach.disk.readFile walPath ++ appendRecord (FileWal.encodeEntry gob e) := by
  obtain ⟨rs, i, himg, hrl, hname⟩ := h
  have hrun : runAll (FileWal.fileOps gob (.appendLog [e])) fw.mach =
      some { fw.mach with
        disk := fw.mach.disk.append i (appendRecord (FileWal.encodeEntry gob e)) } := by
    show runAll (FileWal.appendOps (FileWal.encodeEntry gob e) ++ []) _ = _
    rw [List.append_nil]
    exact FileWal.runAll_appendOps hrl _
  refine ⟨{ fw with
    mach := { fw.mach with
      disk := fw.mach.disk.append i (appendRecord (FileWal.encodeEntry gob e)) }
    logBytes := FileWal.sizeAfter gob fw.logBytes (.appendLog [e]) }, ?_, ?_⟩
  · show ((runAll _ _).bind _).bind _ = _
    rw [hrun]
    rfl
  · rw [Disk.readFile_append himg.sound hname, if_pos rfl]

/-- Server 0 is elected. -/
def electionRun : Deployment.Schedule ℕ ℕ := mirrorRun.take 4

/-- **`FileWAL` loses an entry whose record is 2^32 bytes long**: the leader's log has it, and what
    `Open` and `Load` return has not. -/
theorem filewal_loses (command : ℕ) (hc : (command + 4) % 2 ^ 32 = 0) :
    ∃ d : Deployment (fileWAL unaryGob), (d.Reachable three fun _ => True) ∧
      ∀ fw st ok, openWAL (FileWAL.mach (d.wal 0)).disk = some fw →
        fw.load unaryGob = some (st, ok) → st ≠ (d.node 0).rf.persist := by
  have hplay : ((Deployment.playFrom (Small unaryGob) (fileWAL unaryGob) three
      electionRun).map fun d => decide ((d.node 0).rf.customerId = .leader ∧
        (d.node 0).rf.term = 1 ∧ (d.node 0).rf.wal = [] ∧ (d.node 0).rf.logs.length = 1 ∧
        (FileWAL.mach (d.wal 0)).disk.readFile walPath = [])) = some true := by decide +kernel
  obtain ⟨d, hd, hv⟩ := Option.map_eq_some_iff.mp hplay
  obtain ⟨hlead, hterm, hwal, hone, hempty⟩ := of_decide_eq_true hv
  have hsmall := Deployment.reachable_of_playFrom _ hd
  have hready : Ready unaryGob (FileWAL.mach (d.wal 0)) (d.node 0).rf.persist :=
    reachable_inStep (C := fileContract unaryGob) hsmall 0
  set e : LogEntry ℕ := ⟨command, 1⟩ with he
  have hlen : (FileWal.encodeEntry unaryGob e).length % 2 ^ 32 = 0 := by
    have h4 : (FileWal.encodeEntry unaryGob e).length = command + 4 := by
      simp [FileWal.encodeEntry, unaryGob, encNat, he]
    rw [h4]
    exact hc
  -- `Start` appends the entry to the log and its record to the file
  have hstart : ((d.node 0).rf.start command).1.wal = [.appendLog [e]] ∧
      ((d.node 0).rf.start command).1.logs.length = 2 := by
    unfold Raft.start
    rw [if_neg (by simp [hlead]), hterm, hwal]
    exact ⟨rfl, by simp [hone]⟩
  obtain ⟨fw, hcall, hdisk⟩ := callAll_appendOne hready e
  rw [hempty, List.nil_append] at hdisk
  have hstep : Deployment.Step three (fun _ => True) d (d.complete 0
      { proc := { d.node 0 with rf := ((d.node 0).rf.start command).1 } } fw) :=
    .run 0 (show 0 ∈ three.nodeIDs by decide) (.start command) trivial _ rfl (fun _ _ => trivial) fw
      (by rw [hstart.1]; exact hcall)
  obtain ⟨w, x, hx, hrun⟩ := hsmall.mono (fun _ _ => trivial)
  refine ⟨_, ⟨w, x, hx, hrun.tail hstep⟩, ?_⟩
  intro fw' st ok ho hl hst
  have hlogs : st.logs.length = 2 := by
    rw [hst]
    exact hstart.2
  have ho' : openWAL fw.mach.disk = some fw' := by
    have hw := Deployment.complete_wal d 0
      { proc := { d.node 0 with rf := ((d.node 0).rf.start command).1 } } fw
    exact (congrArg (fun w => openWAL (FileWAL.mach w).disk) hw).symm.trans ho
  rw [(FileWal.load_wrapped hdisk hlen ho' hl).1] at hlogs
  cases hlogs

/-- **A node that never wrote**: `persisterWAL` loads no log. **A record of 2^32 bytes**: `FileWAL`
    loads a log without it. -/
theorem wal_mirror_breaks :
    (∃ d : Deployment (persisterWAL unaryStateGob), (d.Reachable three fun _ => True) ∧
      ∀ st ok, PersisterWAL.load unaryStateGob (d.wal 0) = some (st, ok) →
        st ≠ (d.node 0).rf.persist) ∧
    ∃ d : Deployment (fileWAL unaryGob), (d.Reachable three fun _ => True) ∧
      ∀ fw st ok, openWAL (FileWAL.mach (d.wal 0)).disk = some fw →
        fw.load unaryGob = some (st, ok) → st ≠ (d.node 0).rf.persist := by
  constructor
  · refine ⟨Deployment.boot ⟨.empty, 0, none, [⟨0, 0⟩], 0, none⟩ (⟨0, none, [], 0, none⟩, false),
      ⟨_, _, rfl, .refl⟩, ?_⟩
    intro st ok hl
    cases hl
    decide
  · exact filewal_loses 4294967292 (by decide)

end RaftLab.Raft1

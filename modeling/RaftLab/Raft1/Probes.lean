/-
  File:      RaftLab/Raft1/Probes.lean
  Subject:   Where a leader probes a peer, and what late rejections do to it.

  A leader probes a peer at `nextIndex - 1` and discards a rejection if the probe it answers is
  below `matchIndex`. What it writes is another number, the index the peer has answered; that index
  may be below `matchIndex` although the probe is not.

  * `Fresh` -- a rejection that is not discarded does not answer below `matchIndex`;
  * `probes_ahead` -- **in every run in which only such rejections are handled the probe is never
    below `matchIndex`**, and the leader does not discard the rejection of a probe it sends now;
  * `late_rejection` -- **without it**: two probes are rejected alike, and the second rejection
    arrives after the peer has confirmed, applied and compacted. From then on every probe is
    rejected and every rejection discarded (`stuck_rounds`).
-/
import RaftLab.Raft1.Agreement
import RaftLab.Raft1.Delivery
import RaftLab.Raft1.Reconcile

namespace RaftLab.Raft1

open RaftLab.Lib Relation Cluster

variable {NodeID Cmd : Type}

/-! ## 1. What a section does to the leader's bookkeeping -/

/-- A section that makes no leader and leaves the bookkeeping of one alone. -/
def Steady (rf rf' : Raft NodeID Cmd) : Prop :=
  rf'.customerId = .leader → rf.customerId = .leader ∧ rf'.matchIndex = rf.matchIndex ∧
    rf'.nextIndex = rf.nextIndex

theorem Plain.steady {rf rf' : Raft NodeID Cmd} (h : Plain (fun _ => True) rf rf') :
    Steady rf rf' :=
  fun hl => ⟨(h.changes.advances.leads hl).1, h.matchIndex, h.nextIndex⟩

section Books

variable [DecidableEq NodeID] {cfg : Config NodeID} {me : NodeID} {p : Proc NodeID Cmd}
  {o : Outcome NodeID Cmd}

/-- What an event does to the bookkeeping: nothing, or an election was won, or a peer has
    answered. -/
def Books (cfg : Config NodeID) (me : NodeID) (ev : Event NodeID Cmd) (p p' : Proc NodeID Cmd) :
    Prop :=
  Steady p.rf p'.rf ∨
  (∃ count, p'.rf = Raft.won me cfg.nodeIDs { p.rf with voteCount := count }) ∨
  ∃ k server args reply, ev = .reply k (.appendEntries reply) ∧
    p.calls[k]? = some (server, .appendEntries args) ∧
    p.rf.sendAppendEntries me cfg.nodeIDs server args reply = some p'.rf

variable [Inhabited Cmd]

theorem exec_books {ev : Event NodeID Cmd} (h : exec cfg me p ev = some o) :
    Books cfg me ev p o.proc := by
  cases exec_cases h with
  | tickerArm | tickerReset | callFailed | heartbeat | apply | transfer | noTransfer =>
      exact Or.inl fun hl => ⟨hl, rfl, rfl⟩
  | tickerFire _ hr => exact Or.inl (plain_tickerFire _ hr).steady
  | requestVote _ hr => exact Or.inl (plain_requestVote _ hr).steady
  | appendEntries _ hr =>
      rcases appendEntriesHandler_plain (fun _ => True) (fun _ _ => trivial) hr with
        hc | ⟨data, rf1, term, suffix, c, _, hc, _, _, rfl⟩
      · exact Or.inl hc.steady
      · exact Or.inl hc.steady
  | timeoutNow _ hr => exact Or.inl (plain_timeoutNow _ hr).steady
  | votes _ =>
      rcases sendRequestVote_plain (fun _ => True) me cfg.nodeIDs p.rf _ _ with hc | ⟨_, count, e⟩
      · exact Or.inl hc.steady
      · exact Or.inr (Or.inl ⟨count, e⟩)
  | matched hk hr => exact Or.inr (Or.inr ⟨_, _, _, _, rfl, hk, hr⟩)
  | transferred _ => exact Or.inl (plain_stepDownIf _ p.rf _).steady
  | start => exact Or.inl (plain_start _ p.rf trivial).steady
  | applyBatch hr =>
      rw [sendApplyMsg_eq hr]
      exact Or.inl fun hl => ⟨hl, rfl, rfl⟩
  | snapshot hr =>
      rcases snapshotUpTo_changes hr with rfl | ⟨_, term, suffix, _, rfl⟩
      · exact Or.inl fun hl => ⟨hl, rfl, rfl⟩
      · exact Or.inl fun hl => ⟨hl, rfl, rfl⟩

end Books

/-! ## 2. The probe is ahead of what is confirmed -/

/-- A leader would send every peer what the peer has not confirmed. -/
def Ahead (nodeIDs : List NodeID) (rf : Raft NodeID Cmd) : Prop :=
  rf.customerId = .leader → ∀ m ∈ nodeIDs, rf.matchIndex m < rf.nextIndex m

/-- A rejection that would be handled although it answers below `matchIndex`. -/
def Stale (rf : Raft NodeID Cmd) (reply : AppendEntriesReply) : NodeID × Call NodeID Cmd → Prop
  | (server, .appendEntries args) =>
      rf.customerId = .leader ∧ rf.term = args.term ∧ reply.term ≤ rf.term ∧
        reply.success = false ∧ rf.matchIndex server ≤ args.prevLogIndex ∧
        reply.lastMatchIndex < rf.matchIndex server
  | _ => False

instance (rf : Raft NodeID Cmd) (reply : AppendEntriesReply) : DecidablePred (Stale rf reply)
  | (server, .appendEntries args) => inferInstanceAs (Decidable
      (rf.customerId = .leader ∧ rf.term = args.term ∧ reply.term ≤ rf.term ∧
        reply.success = false ∧ rf.matchIndex server ≤ args.prevLogIndex ∧
        reply.lastMatchIndex < rf.matchIndex server))
  | (_, .requestVote _) => inferInstanceAs (Decidable False)
  | (_, .timeoutNow _) => inferInstanceAs (Decidable False)

/-- The event is no such rejection. -/
def Fresh (p : Proc NodeID Cmd) : Event NodeID Cmd → Prop
  | .reply k (.appendEntries reply) => ∀ x ∈ p.calls[k]?, ¬ Stale p.rf reply x
  | _ => True

instance (p : Proc NodeID Cmd) : DecidablePred (Fresh p)
  | .reply k (.appendEntries reply) =>
      inferInstanceAs (Decidable (∀ x ∈ p.calls[k]?, ¬ Stale p.rf reply x))
  | .reply _ (.requestVote _) | .reply _ (.timeoutNow _) | .tickerArm | .tickerFire | .tickerReset
  | .deliver _ | .callFailed _ | .start _ | .heartbeat | .applyBatch | .apply | .snapshot _ _
  | .transferLeadership => isTrue trivial

section Sections

variable {rf rf' : Raft NodeID Cmd} {me : NodeID} {nodeIDs : List NodeID}

theorem ahead_boot (nodeIDs : List NodeID) (st : PersistState NodeID Cmd) :
    Ahead nodeIDs (Proc.boot st).rf := by
  intro hl
  cases hl

theorem Ahead.steady (h : Ahead nodeIDs rf) (hs : Steady rf rf') : Ahead nodeIDs rf' := by
  intro hl m hm
  obtain ⟨hlead, hmatch, hnext⟩ := hs hl
  rw [hmatch, hnext]
  exact h hlead m hm

variable [DecidableEq NodeID]

theorem ahead_won (me : NodeID) (nodeIDs : List NodeID) (rf : Raft NodeID Cmd) :
    Ahead nodeIDs (Raft.won me nodeIDs rf) := by
  intro _ m hm
  simp [Raft.won, hm]

/-- One entry of the bookkeeping changes, and is ahead. -/
theorem Ahead.update (h : Ahead nodeIDs rf) (server : NodeID) {k next : ℕ} (hlt : k < next)
    (c : ℕ) : Ahead nodeIDs { rf with
      matchIndex := Function.update rf.matchIndex server k
      nextIndex := Function.update rf.nextIndex server next
      commitIndex := c } := by
  intro hl m hm
  by_cases e : m = server
  · subst e
    simpa using hlt
  · simpa [Function.update_of_ne e] using h hl m hm

theorem sendAppendEntries_ahead {server : NodeID} {args : AppendEntries NodeID Cmd}
    {reply : AppendEntriesReply} (hfresh : ¬ Stale rf reply (server, .appendEntries args))
    (h : rf.sendAppendEntries me nodeIDs server args reply = some rf')
    (ha : Ahead nodeIDs rf) : Ahead nodeIDs rf' := by
  have hsame : Function.update rf.matchIndex server (rf.matchIndex server) = rf.matchIndex :=
    Function.update_eq_self _ _
  unfold Raft.sendAppendEntries at h
  split at h
  · cases h
    intro hl
    cases hl
  rename_i hterm
  split at h
  · cases h
    exact ha
  rename_i hlead
  split at h
  · by_cases hgt : Raft.newMatch args > rf.matchIndex server
    · simp only [if_pos hgt, Function.update_self] at h
      obtain ⟨c, rfl⟩ := commitLoop_eq me nodeIDs _ h
      exact ha.update server (Nat.lt_succ_self _) c
    · simp only [if_neg hgt] at h
      obtain ⟨c, rfl⟩ := commitLoop_eq me nodeIDs _ h
      have h1 := ha.update server (Nat.lt_succ_self (rf.matchIndex server)) c
      rw [hsame] at h1
      exact h1
  · rename_i hfail
    split at h
    · cases h
      exact ha
    · rename_i hlow
      cases h
      have hk : rf.matchIndex server ≤ reply.lastMatchIndex := by
        refine Nat.le_of_not_lt fun hlt => hfresh ?_
        simp only [not_or, not_not] at hlead
        exact ⟨hlead.2, hlead.1, Nat.le_of_not_lt hterm, by simpa using hfail,
          Nat.le_of_not_lt hlow, hlt⟩
      have hpos : rf.matchIndex server <
          if reply.lastMatchIndex + 1 < 1 then 1 else reply.lastMatchIndex + 1 := by
        split <;> omega
      have h1 := ha.update server hpos rf.commitIndex
      rw [hsame] at h1
      exact h1

variable [Inhabited Cmd] {cfg : Config NodeID} {p : Proc NodeID Cmd} {o : Outcome NodeID Cmd}

theorem exec_ahead {ev : Event NodeID Cmd} (hfresh : Fresh p ev)
    (h : exec cfg me p ev = some o) (ha : Ahead cfg.nodeIDs p.rf) :
    Ahead cfg.nodeIDs o.proc.rf := by
  rcases exec_books h with hs | ⟨count, e⟩ | ⟨k, server, args, reply, rfl, hk, hsend⟩
  · exact ha.steady hs
  · rw [e]
    exact ahead_won me cfg.nodeIDs _
  · exact sendAppendEntries_ahead (hfresh _ hk) hsend ha

end Sections

/-! ## 3. Over every run -/

section Runs

variable [DecidableEq NodeID] [Inhabited Cmd]

/-- A step of the cluster in which no process handles a stale rejection. -/
inductive Cluster.StepFresh (cfg : Config NodeID) :
    Cluster NodeID Cmd → Cluster NodeID Cmd → Prop where
  | run {c : Cluster NodeID Cmd} (m : NodeID) (hm : m ∈ cfg.nodeIDs) (ev : Event NodeID Cmd)
      (hev : c.Enabled m ev) (hfresh : Fresh (c.node m) ev) (o : Outcome NodeID Cmd)
      (ho : exec cfg m (c.node m) ev = some o) (st : PersistState NodeID Cmd)
      (hst : (c.disk m).applyAll o.proc.rf.wal = some st) : StepFresh cfg c (c.complete m o st)
  | crash {c : Cluster NodeID Cmd} (m : NodeID) (hm : m ∈ cfg.nodeIDs)
      (ev : Event NodeID Cmd) (hev : c.Enabled m ev) (o : Outcome NodeID Cmd)
      (ho : exec cfg m (c.node m) ev = some o) (k j : ℕ) (st : PersistState NodeID Cmd)
      (hst : (c.disk m).applyAll (torn WalOp.cut o.proc.rf.wal k j) = some st) :
      StepFresh cfg c (c.reboot m o.made st)
  | restart {c : Cluster NodeID Cmd} (m : NodeID) (hm : m ∈ cfg.nodeIDs) :
      StepFresh cfg c (c.reboot m [] (c.disk m))

variable {cfg : Config NodeID} {c c' : Cluster NodeID Cmd} {a : Record NodeID Cmd} {n s : NodeID}

theorem Cluster.StepFresh.step (h : StepFresh cfg c c') : Step cfg c c' := by
  cases h with
  | run m hm ev hev _ o ho st hst => exact .run m hm ev hev o ho st hst
  | crash m hm ev hev o ho k j st hst => exact .crash m hm ev hev o ho k j st hst
  | restart m hm => exact .restart m hm

/-- A step leaves every process ahead. -/
theorem Cluster.StepFresh.ahead (h : StepFresh cfg c c')
    (ha : ∀ n, Ahead cfg.nodeIDs (c.node n).rf) (n : NodeID) :
    Ahead cfg.nodeIDs (c'.node n).rf := by
  cases h with
  | run m hm ev hev hfresh o ho st hst =>
      by_cases e : n = m
      · subst e
        simp only [Cluster.complete, Function.update_self]
        exact exec_ahead hfresh ho (ha n)
      · simp only [Cluster.complete, Function.update_of_ne e]
        exact ha n
  | crash m hm ev hev o ho k j st hst =>
      by_cases e : n = m
      · subst e
        simp only [Cluster.reboot, Function.update_self]
        exact ahead_boot _ st
      · simp only [Cluster.reboot, Function.update_of_ne e]
        exact ha n
  | restart m hm =>
      by_cases e : n = m
      · subst e
        simp only [Cluster.reboot, Function.update_self]
        exact ahead_boot _ _
      · simp only [Cluster.reboot, Function.update_of_ne e]
        exact ha n

theorem ahead_run (h : ReflTransGen (StepFresh cfg) init c) (n : NodeID) :
    Ahead cfg.nodeIDs (c.node n).rf := by
  have hrun := run_inv (I := fun c => ∀ n, Ahead cfg.nodeIDs (c.node n).rf)
    (fun _ _ hs ha => hs.ahead ha) h (fun _ => ahead_boot _ _)
  exact hrun n

/-- What a leader has been confirmed is in its log. -/
theorem Sim.matchIndex_le (h : Sim cfg c a) (hL : (c.node n).rf.customerId = .leader)
    (hs : s ∈ cfg.nodeIDs) : (c.node n).rf.matchIndex s ≤ (a.log n).length := by
  rcases Nat.eq_zero_or_pos ((c.node n).rf.matchIndex s) with e | hpos
  · rw [e]
    exact Nat.zero_le _
  · obtain ⟨_, hk, _⟩ := h.inv.ackOk ((h.proc n).mem.matched hL s hs hpos)
    rw [h.inv.leaderLog ((h.proc n).mem.leader hL) rfl]
    exact hk

theorem Sim.leads (h : Sim cfg c a) (hL : (c.node n).rf.customerId = .leader) :
    Leads (a.log n) (c.node n).rf.snapshotIndex (c.node n).rf.term (c.node n).rf := by
  refine ⟨h.views n, rfl, rfl, hL, fun hpos hnone => ?_, (h.proc n).mem.snapLe⟩
  have h0 := (h.proc n).disk.snap.1 hnone
  exact absurd h0 (Nat.ne_of_gt hpos)

/-- **The probe is ahead of what is confirmed** in every run without stale rejections: every probe
    is at or above `matchIndex`, its rejection moves it, and a rejection that answers below
    `matchIndex` is discarded. -/
theorem probes_ahead (h : ReflTransGen (StepFresh cfg) init c)
    (hL : (c.node n).rf.customerId = .leader) (hs : s ∈ cfg.nodeIDs) :
    (c.node n).rf.matchIndex s < (c.node n).rf.nextIndex s ∧
    (∀ args, (c.node n).rf.heartbeatArgs n s = some args → args.snapshot = none →
      (c.node n).rf.matchIndex s ≤ args.prevLogIndex ∧
      ∀ m, (c.node n).rf.sendAppendEntries n cfg.nodeIDs s args ⟨(c.node n).rf.term, false, m⟩ =
        some { (c.node n).rf with
          nextIndex := Function.update (c.node n).rf.nextIndex s (m + 1) }) ∧
    ∀ k args m, (c.node n).calls[k]? = some (s, .appendEntries args) →
      Fresh (c.node n) (.reply k (.appendEntries ⟨(c.node n).rf.term, false, m⟩)) →
      (c.node n).rf.term = args.term → m < (c.node n).rf.matchIndex s →
      (c.node n).rf.sendAppendEntries n cfg.nodeIDs s args ⟨(c.node n).rf.term, false, m⟩ =
        some (c.node n).rf := by
  have hreach : Reachable cfg c := h.lift id fun _ _ hs => hs.step
  obtain ⟨a, hsim⟩ := reachable_sim hreach
  have hahead := ahead_run h n hL s hs
  have hlead := hsim.leads hL
  have hle := hsim.matchIndex_le hL hs
  refine ⟨hahead, ?_, ?_⟩
  · intro args hargs hsnap
    by_cases hS : (c.node n).rf.snapshotIndex ≤ (c.node n).rf.nextIndex s - 1
    · have hS' := hlead.le_length
      rw [hlead.probe n rfl (by omega) (by omega)] at hargs
      cases hargs
      have hprev : (c.node n).rf.matchIndex s ≤
          min ((c.node n).rf.nextIndex s - 1) (a.log n).length := by
        omega
      exact ⟨hprev, fun m => hlead.rejected n cfg.nodeIDs _ m rfl hprev⟩
    · obtain ⟨data, hship⟩ := hlead.ship (F := s) n (by omega) (by omega)
      rw [hship] at hargs
      cases hargs
      cases hsnap
  · intro k args m hk hfresh hterm hm
    have hlow : args.prevLogIndex < (c.node n).rf.matchIndex s := by
      refine Nat.lt_of_not_le fun hprev => hfresh _ hk ?_
      exact ⟨hL, hterm, Nat.le_refl _, rfl, hprev, hm⟩
    simp [Raft.sendAppendEntries, ← hterm, hL, hlow]

end Runs

/-! ## 4. A late rejection -/

section Stuck

variable [DecidableEq NodeID] [Inhabited Cmd] {me F : NodeID} (nodeIDs : List NodeID)
  {L f : Raft NodeID Cmd} {args : AppendEntries NodeID Cmd}

/-- A probe below what is confirmed, to a peer that has compacted more: the peer rejects it and the
    leader discards the rejection. -/
theorem stuck_round (hL : L.customerId = .leader) (hargs : L.heartbeatArgs me F = some args)
    (hterm : args.term = L.term) (hsnap : args.snapshot = none)
    (hlow : args.prevLogIndex < L.matchIndex F) (ht : f.term ≤ L.term)
    (hf : args.prevLogIndex < f.snapshotIndex) :
    ∃ f', roundTrip me F nodeIDs (L, f) = some (L, f') ∧ f'.term ≤ L.term ∧
      f'.snapshotIndex = f.snapshotIndex := by
  obtain ⟨f', hacc, ht', hs'⟩ : ∃ f', f.acceptLeader args.term args.leaderId = f' ∧
      f'.term = L.term ∧ f'.snapshotIndex = f.snapshotIndex := by
    refine ⟨_, rfl, ?_, ?_⟩
    · rw [← hterm] at ht ⊢
      unfold Raft.acceptLeader
      by_cases hgt : args.term > f.term
      · simp only [if_pos hgt]
        rfl
      · simp only [if_neg hgt]
        exact Nat.le_antisymm ht (Nat.le_of_not_lt hgt)
    · unfold Raft.acceptLeader
      dsimp only
      split <;> rfl
  have hrun : f.appendEntriesHandler args = some (f', ⟨L.term, false, f'.snapshotIndex⟩) := by
    rw [← hs'] at hf
    simp [Raft.appendEntriesHandler, hterm ▸ Nat.not_lt.mpr ht, hacc, hsnap, Raft.appendOrReject,
      hf, ht']
  refine ⟨f', ?_, Nat.le_of_eq ht', hs'⟩
  simp [roundTrip, hargs, hrun, Raft.sendAppendEntries, hterm, hL, hlow]

/-- **And so for ever.** -/
theorem stuck_rounds (hL : L.customerId = .leader) (hargs : L.heartbeatArgs me F = some args)
    (hterm : args.term = L.term) (hsnap : args.snapshot = none)
    (hlow : args.prevLogIndex < L.matchIndex F) (k : ℕ) (ht : f.term ≤ L.term)
    (hf : args.prevLogIndex < f.snapshotIndex) :
    ∃ f', roundTrips me F nodeIDs k (L, f) = some (L, f') := by
  induction k generalizing f with
  | zero => exact ⟨f, rfl⟩
  | succ k ih =>
      obtain ⟨f1, hr, ht1, hs1⟩ := stuck_round nodeIDs hL hargs hterm hsnap hlow ht hf
      rw [← hs1] at hf
      obtain ⟨f', hrest⟩ := ih ht1 hf
      refine ⟨f', ?_⟩
      rw [roundTrips, hr]
      exact hrest

end Stuck

/-! ### Two probes in flight -/

section Sample

/-- Server 0 wins term 1 and commits command 7 with server 1. -/
def commitSeven : List (ℕ × (Cluster ℕ ℕ → Event ℕ ℕ)) :=
  [(0, fun _ => .tickerArm), (0, fun _ => .tickerFire), (1, deliverNth 0), (0, replyNth 0 0),
    (0, fun _ => .start 7), (0, fun _ => .heartbeat), (1, deliverNth 2), (0, replyNth 1 1)]

/-- Server 1 hears of it and wins term 2 with the vote of server 2, which has an empty log. It
    probes server 2 at index 1 twice. -/
def twoProbes : List (ℕ × (Cluster ℕ ℕ → Event ℕ ℕ)) :=
  [(0, fun _ => .heartbeat), (1, deliverNth 4), (1, fun _ => .tickerArm),
    (1, fun _ => .tickerFire), (2, deliverNth 7), (1, replyNth 1 3), (1, fun _ => .heartbeat),
    (1, fun _ => .heartbeat), (2, deliverNth 9), (2, deliverNth 11)]

/-- The second rejection arrives; the next probe is accepted, and server 2 applies the command and
    compacts its log before server 1 hears of it. -/
def acceptedProbe : List (ℕ × (Cluster ℕ ℕ → Event ℕ ℕ)) :=
  [(1, replyNth 4 5), (1, fun _ => .heartbeat), (2, deliverNth 13), (2, fun _ => .applyBatch),
    (2, fun _ => .apply), (2, fun _ => .snapshot 1 [42]), (1, replyNth 5 6)]

/-- One section, if it handles no stale rejection. -/
def nextFresh : Cluster ℕ ℕ → ℕ × (Cluster ℕ ℕ → Event ℕ ℕ) → Option (Cluster ℕ ℕ) :=
  guarded (fun c x => Fresh (c.node x.1) (x.2 c)) fun c x => c.next three x.1 (.run (x.2 c))

theorem play_fresh {acts : List (ℕ × (Cluster ℕ ℕ → Event ℕ ℕ))} {c c' : Cluster ℕ ℕ}
    (h : Lib.play nextFresh c acts = some c') : ReflTransGen (StepFresh three) c c' := by
  refine (play_guarded_run h).lift id ?_
  intro c c' hs
  obtain ⟨x, hfresh, hx⟩ := hs
  obtain ⟨hm, hev, o, st, ho, hst, rfl⟩ := next_run hx
  exact .run x.1 hm _ hev hfresh o ho st hst

/-- Up to here all is well. -/
theorem probes_ahead_sample : ∃ c : Cluster ℕ ℕ, ReflTransGen (StepFresh three) init c ∧
    (c.node 1).rf.matchIndex 2 = 1 ∧ 1 < (c.node 1).rf.nextIndex 2 ∧
    (c.node 1).rf.sendAppendEntries 1 three.nodeIDs 2 ⟨2, 1, 1, 1, [], 1, none, 0, 0⟩
        ⟨2, false, 4⟩ =
      some { (c.node 1).rf with nextIndex := Function.update (c.node 1).rf.nextIndex 2 5 } := by
  have hplay : (Lib.play nextFresh init (commitSeven ++ twoProbes ++ acceptedProbe)).map
      (fun c => decide ((c.node 1).rf.customerId = .leader ∧ (c.node 1).rf.matchIndex 2 = 1 ∧
        (c.node 1).rf.term = 2 ∧
        (c.node 1).rf.heartbeatArgs 1 2 = some ⟨2, 1, 1, 1, [], 1, none, 0, 0⟩)) = some true := by
    decide +kernel
  obtain ⟨c, hc, hread⟩ := Option.map_eq_some_iff.mp hplay
  obtain ⟨hL, hm, ht, hargs⟩ := of_decide_eq_true hread
  have hrun := play_fresh hc
  obtain ⟨hahead, hprobe, _⟩ := probes_ahead (s := 2) hrun hL (by decide)
  obtain ⟨_, hmove⟩ := hprobe _ hargs rfl
  rw [ht] at hmove
  exact ⟨c, hrun, hm, by omega, hmove 4⟩

/-- **The first rejection arrives last**: the leader's probe is below what server 2 has confirmed,
    and neither of them moves any more. -/
theorem late_rejection : ∃ c : Cluster ℕ ℕ, Reachable three c ∧
    (c.node 1).rf.customerId = .leader ∧
    (c.node 1).rf.nextIndex 2 ≤ (c.node 1).rf.matchIndex 2 ∧
    ∀ k, ∃ f', roundTrips 1 2 three.nodeIDs k ((c.node 1).rf, (c.node 2).rf) =
      some ((c.node 1).rf, f') := by
  obtain ⟨c, hr, hread⟩ := exists_played init
    (sections (commitSeven ++ twoProbes ++ acceptedProbe ++ [(1, replyNth 2 4)]))
    (fun c => decide ((c.node 1).rf.customerId = .leader ∧ (c.node 1).rf.matchIndex 2 = 1 ∧
      (c.node 1).rf.nextIndex 2 = 1 ∧ (c.node 1).rf.term = 2 ∧
      (c.node 1).rf.heartbeatArgs 1 2 = some ⟨2, 1, 0, 0, [⟨7, 1⟩], 1, none, 0, 0⟩ ∧
      (c.node 2).rf.term = 2 ∧ (c.node 2).rf.snapshotIndex = 1)) (v := true) (by decide +kernel)
  obtain ⟨hL, hm, hn, ht, hargs, ht2, hs2⟩ := of_decide_eq_true hread
  refine ⟨c, hr, hL, by rw [hm, hn], fun k => ?_⟩
  refine stuck_rounds three.nodeIDs hL hargs ht.symm rfl ?_ k ?_ ?_
  · rw [hm]
    decide
  · rw [ht, ht2]
  · rw [hs2]
    decide

end Sample

end RaftLab.Raft1

/-
  File:      RaftLab/Raft1/Agreement.lean
  Subject:   What a leader may take a follower's log for, and a follower the leader's.

  * `matchIndex_sound` -- **what a leader has credited a server of its term with is there**, and
    the credit never shrinks;
  * `commits_verified` -- **a follower commits only what its leader's message vouches for**,
    although it takes the minimum with its own last index.

  Both come down to one fact of the record: an index confirmed in a term stays in the log of the
  node that confirmed it for as long as the node stays in the term (`confirmed_prefix`).
  Nothing is assumed about the order in which messages and replies arrive.
-/
import RaftLab.Raft1.Indexes

namespace RaftLab.Raft1

open RaftLab.Lib RaftLab.Lib.TermLog Relation Cluster

variable {NodeID Cmd : Type} [DecidableEq NodeID] [Inhabited Cmd]

/-! ## 1. Confirmed indexes -/

section Confirmed

variable {cfg : Config NodeID} {a : Record NodeID Cmd} {m : NodeID}

omit [Inhabited Cmd] in
/-- **A node still in the term holds the prefix it has confirmed.** Only a leader of a later term
    could have cut it off. -/
theorem confirmed_prefix (hI : Inv cfg.quorums tm a) {k : ℕ} (hack : a.ack (a.term m) m k) :
    k ≤ (a.llog (a.term m)).length ∧ (a.llog (a.term m)).take k <+: a.log m := by
  obtain ⟨_, hk, hp | ⟨t', hlt, hle, _⟩⟩ := hI.ackOk hack
  · exact ⟨hk, hp⟩
  · omega

end Confirmed

/-! ## 2. The leader's credit -/

section Credit

variable {cfg : Config NodeID} {c c' : Cluster NodeID Cmd} {a : Record NodeID Cmd} {L m : NodeID}

theorem Sim.credit (h : Sim cfg c a) (hL : (c.node L).rf.customerId = .leader)
    (hm : m ∈ cfg.nodeIDs) (ht : (c.node m).rf.term = (c.node L).rf.term) :
    (c.node L).rf.matchIndex m ≤ (a.log L).length ∧
      (a.log L).take ((c.node L).rf.matchIndex m) <+: a.log m := by
  have hterm : a.term m = a.term L := by
    rw [← (h.enter m).term, ← (h.enter L).term]
    exact ht
  have hlog : a.log L = a.llog (a.term m) := by
    rw [hterm]
    exact h.inv.leaderLog ((h.proc L).mem.leader hL) rfl
  rcases Nat.eq_zero_or_pos ((c.node L).rf.matchIndex m) with e | hpos
  · rw [e]
    exact ⟨Nat.zero_le _, List.nil_prefix⟩
  · have hack := (h.proc L).mem.matched hL m hm hpos
    rw [← hterm] at hack
    rw [hlog]
    exact confirmed_prefix h.inv hack

/-- A server that leads a term it led before has led it all along: once elected it can stand
    for later terms only. -/
theorem matchIndex_run (h : Reachable cfg c) (hL : (c.node L).rf.customerId = .leader)
    (hr : Run cfg c c') (hL' : (c'.node L).rf.customerId = .leader)
    (ht : (c'.node L).rf.term = (c.node L).rf.term) (m : NodeID) :
    (c.node L).rf.matchIndex m ≤ (c'.node L).rf.matchIndex m := by
  obtain ⟨a, hsim⟩ := reachable_sim h
  have hled := (hsim.proc L).mem.leader hL
  rw [← (hsim.enter L).term] at hled
  induction hr with
  | refl => exact le_refl _
  | @tail b c' hrun hs ih =>
      rcases hs.alive_or_boot L with halive | ⟨st, e⟩
      · rcases halive.node with e | ⟨ev, o, _, _, ho, e⟩
        · rw [e] at hL' ht ⊢
          exact ih hL' ht
        · rw [e] at hL' ht ⊢
          rcases exec_advances ho with hadv | hel
          · obtain ⟨hlead, hterm, hmatch, _⟩ := hadv.leads hL'
            exact (ih hlead (hterm.symm.trans ht)).trans (hmatch m)
          · -- a candidate of the term has not been its leader
            obtain ⟨b', hx, hsimb⟩ := hsim.run hrun
            have hstands := ((hsimb.proc L).mem.stands hel.candidate).2
            rw [← (hsimb.enter L).term, hel.term.symm.trans ht] at hstands
            exact absurd (hx.leader hled) hstands
      · rw [e] at hL'
        cases hL'

/-- **`matchIndex` is sound**: a server in the leader's term holds what the leader has credited
    it with, and the leader credits more and more while it leads. -/
theorem matchIndex_sound (h : Reachable cfg c) (hL : (c.node L).rf.customerId = .leader) :
    (∀ m ∈ cfg.nodeIDs, (c.node m).rf.term = (c.node L).rf.term →
      (c.node L).rf.matchIndex m ≤ (c.node m).rf.lastLogIndex ∧
      ∀ i, (c.node L).rf.snapshotIndex < i → (c.node m).rf.snapshotIndex < i →
        i ≤ (c.node L).rf.matchIndex m →
        ∃ e, (c.node L).rf.logAt i = some e ∧ (c.node m).rf.logAt i = some e) ∧
    ∀ c', Run cfg c c' → (c'.node L).rf.customerId = .leader →
      (c'.node L).rf.term = (c.node L).rf.term →
      ∀ m, (c.node L).rf.matchIndex m ≤ (c'.node L).rf.matchIndex m := by
  refine ⟨fun m hm ht => ?_, fun c' hr hL' ht m => matchIndex_run h hL hr hL' ht m⟩
  obtain ⟨a, hsim⟩ := reachable_sim h
  obtain ⟨hlen, hpre⟩ := hsim.credit hL hm ht
  refine ⟨?_, fun i h1 h2 hi => ?_⟩
  · rw [(hsim.views m).lastLogIndex, ← List.length_take_of_le hlen]
    exact hpre.length_le
  · exact (hsim.views L).agree (hsim.views m) h1 h2 (hi.trans hlen)
      ((List.take_prefix_take_left hi).trans hpre)

end Credit

theorem matchIndex_sound_sample : ∃ c : Cluster ℕ ℕ, Reachable three c ∧
    (c.node 0).rf.matchIndex 1 = 1 ∧
    ∃ e, (c.node 0).rf.logAt 1 = some e ∧ (c.node 1).rf.logAt 1 = some e := by
  obtain ⟨c, hr, hv⟩ := exists_played init (firstElection ++ firstCommit)
    (fun c => decide ((c.node 0).rf.customerId = .leader ∧ (c.node 0).rf.matchIndex 1 = 1 ∧
      (c.node 1).rf.term = (c.node 0).rf.term ∧ (c.node 0).rf.snapshotIndex = 0 ∧
      (c.node 1).rf.snapshotIndex = 0)) (v := true) (by decide +kernel)
  obtain ⟨hL, hmatch, ht, h0, h1⟩ := of_decide_eq_true hv
  obtain ⟨_, hagree⟩ := (matchIndex_sound hr hL).1 1 (by decide) ht
  exact ⟨c, hr, hmatch, hagree 1 (by omega) (by omega) hmatch.ge⟩

/-! ## 3. Where a message comes from -/

section Built

variable {cfg : Config NodeID} {c : Cluster NodeID Cmd}

/-- The message `args` as its sender builds it in state `c`. -/
structure Builds (c : Cluster NodeID Cmd) (pkt : Packet NodeID Cmd)
    (args : AppendEntries NodeID Cmd) : Prop where
  leader : (c.node pkt.src).rf.customerId = .leader
  args : (c.node pkt.src).rf.heartbeatArgs pkt.src pkt.dst = some args

/-- **Every message in flight was built by a leader, in a state of the run.** -/
theorem exists_built (h : Reachable cfg c) {pkt : Packet NodeID Cmd} (hpkt : pkt ∈ c.net)
    {args : AppendEntries NodeID Cmd} (hcall : pkt.call = .appendEntries args) :
    ∃ s, Reachable cfg s ∧ Run cfg s c ∧ Builds s pkt args := by
  induction h with
  | refl => exact absurd hpkt List.not_mem_nil
  | @tail b c hr hs ih =>
      have old : pkt ∈ b.net → ∃ s, Reachable cfg s ∧ Run cfg s c ∧ Builds s pkt args := by
        intro hmem
        obtain ⟨s, h1, h2, h3⟩ := ih hmem
        exact ⟨s, h1, h2.tail hs, h3⟩
      cases hs with
      | run n hn ev hev o ho st hst =>
          rcases List.mem_append.mp hpkt with hmem | hnew
          · exact old hmem
          · obtain ⟨⟨id, call⟩, hout, rfl⟩ := List.mem_map.mp hnew
            cases hcall
            obtain ⟨h1, h2⟩ := (exec_output ho).appendEntries id args hout
            exact ⟨b, hr, .single (.run n hn ev hev o ho st hst), h1, h2⟩
      | crash n hn ev hev o ho k j st hst => exact old hpkt
      | restart n hn => exact old hpkt

end Built

/-! ## 4. What a follower commits -/

section Raises

omit [DecidableEq NodeID] [Inhabited Cmd] in
theorem appendOrReject_raises {rf rf' : Raft NodeID Cmd} {args : AppendEntries NodeID Cmd}
    {reply : AppendEntriesReply} (h : rf.appendOrReject args = some (rf', reply))
    (hlt : rf.commitIndex < rf'.commitIndex) :
    reply.success = true ∧ rf'.term = rf.term ∧
      rf'.commitIndex = min args.leaderCommit rf'.lastLogIndex := by
  rcases appendOrReject_cases h with rfl | ⟨hok, _, rf1, h1, rfl⟩
  · omega
  · have hsame : rf1.commitIndex = rf.commitIndex ∧ rf1.term = rf.term := by
      rcases appendNew_cases h1 with rfl | ⟨i, logs, rfl⟩ <;> exact ⟨rfl, rfl⟩
    by_cases hgt : args.leaderCommit > rf1.commitIndex
    · rw [if_pos hgt]
      exact ⟨hok, hsame.2, rfl⟩
    · rw [if_neg hgt] at hlt
      omega

omit [DecidableEq NodeID] in
/-- A message without a snapshot raises `commitIndex` only where it is accepted. -/
theorem appendEntriesHandler_raises {rf rf' : Raft NodeID Cmd} {args : AppendEntries NodeID Cmd}
    {reply : AppendEntriesReply} (h : rf.appendEntriesHandler args = some (rf', reply))
    (hsnap : args.snapshot = none) (hlt : rf.commitIndex < rf'.commitIndex) :
    reply.success = true ∧ rf'.term = args.term ∧
      rf'.commitIndex = min args.leaderCommit rf'.lastLogIndex := by
  unfold Raft.appendEntriesHandler at h
  split at h
  · cases h
    omega
  · rename_i hterm
    rw [hsnap] at h
    have hsame : (rf.acceptLeader args.term args.leaderId).commitIndex = rf.commitIndex ∧
        (rf.acceptLeader args.term args.leaderId).term = args.term := by
      unfold Raft.acceptLeader
      dsimp only
      split
      · exact ⟨rfl, rfl⟩
      · exact ⟨rfl, by show rf.term = args.term; omega⟩
    obtain ⟨h1, h2, h3⟩ := appendOrReject_raises h (hsame.1 ▸ hlt)
    exact ⟨h1, h2.trans hsame.2, h3⟩

end Raises

section Verified

variable {cfg : Config NodeID} {c s : Cluster NodeID Cmd} {a b : Record NodeID Cmd}
  {pkt : Packet NodeID Cmd} {args : AppendEntries NodeID Cmd}

/-- What a message without a snapshot says of its sender when it built it: it ships the log to
    its end. -/
theorem Sim.built (h : Sim cfg s b) (hb : Builds s pkt args) (hsnap : args.snapshot = none) :
    args.term = (s.node pkt.src).rf.term ∧
      b.llog args.term = b.log pkt.src ∧ b.leader args.term ≠ none ∧
      args.prevLogIndex + args.entries.length = (b.log pkt.src).length ∧
      args.leaderCommit ≤ (b.log pkt.src).length := by
  have h0 := h.enter pkt.src
  obtain ⟨args', he, ht, _, hlc, _, _, hor⟩ :=
    h0.views.heartbeatArgs_spec h0.disk.snap.1 pkt.src pkt.dst
  obtain rfl : args' = args := Option.some.inj (he.symm.trans hb.args)
  have hlead := h0.mem.leader hb.leader
  have hterm : args'.term = b.term pkt.src := ht.trans h0.term
  rcases hor with ⟨hne, _⟩ | ⟨_, hprev, _, hes⟩
  · exact absurd hsnap hne
  refine ⟨ht, ?_, ?_, ?_, ?_⟩
  · rw [hterm]
    exact (h.inv.leaderLog hlead rfl).symm
  · rw [hterm, hlead]
    simp
  · rw [hes, List.length_drop]
    omega
  · rw [hlc]
    exact h0.mem.commitLe

/-- After it has accepted the message, the follower holds the whole log its sender had. -/
theorem accepted_holds (hs : Reachable cfg s) (hr : Run cfg s c) (hpkt : pkt ∈ c.net)
    (hcall : pkt.call = .appendEntries args) (hsnap : args.snapshot = none)
    (hb : Builds s pkt args) {rf' : Raft NodeID Cmd} {reply : AppendEntriesReply}
    (he : (c.node pkt.dst).rf.appendEntriesHandler args = some (rf', reply))
    (hok : reply.success = true) (hterm : rf'.term = args.term) :
    ∃ l l', Views l (s.node pkt.src).rf ∧ Views l' rf' ∧ args.leaderCommit ≤ l.length ∧
      l <+: l' := by
  obtain ⟨b, hsim⟩ := reachable_sim hs
  obtain ⟨a, hx, hsim'⟩ := hsim.run hr
  have hpk := hsim'.net pkt hpkt
  unfold PacketOk at hpk
  rw [hcall] at hpk
  obtain ⟨hid, hne, hE⟩ := hpk
  obtain ⟨rf1, reply1, a', he1, htrack, _, hack⟩ :=
    (hsim'.enter pkt.dst).appendEntriesHandler hsim'.inv hE (hid ▸ hne)
  obtain ⟨rfl, rfl⟩ := Prod.mk.inj (Option.some.inj (he1.symm.trans he))
  obtain ⟨_, hlog, hled, hlen, hlc⟩ := hsim.built hb hsnap
  have hx' : Ext b a' := hx.trans (htrack.ext hsim'.inv)
  have hmatch : Raft.newMatch args = (b.log pkt.src).length := by
    unfold Raft.newMatch
    rw [if_neg (by simp [hsnap])]
    exact hlen
  have hat : a'.term pkt.dst = args.term := htrack.term.symm.trans hterm
  have hconf := hack hok
  rw [← hat] at hconf
  obtain ⟨_, hpre⟩ := confirmed_prefix htrack.inv hconf
  refine ⟨b.log pkt.src, a'.log pkt.dst, hsim.views _, htrack.views, hlc, ?_⟩
  -- the confirmed prefix is the whole log the sender had
  rw [hat, hmatch, hx'.take_llog hled (by rw [hlog]), hlog, List.take_length] at hpre
  exact hpre

/-- **A follower commits only verified entries.** A message in flight without a snapshot covers
    its `LeaderCommit`. Some leader of its term built it in a state of the run; and whichever
    state `s` that was, where handling it raises `commitIndex` the follower ends up with the
    entries that leader had in `s`, up to the new `commitIndex`. -/
theorem commits_verified (h : Reachable cfg c) (hpkt : pkt ∈ c.net)
    (hcall : pkt.call = .appendEntries args) (hsnap : args.snapshot = none) :
    args.leaderCommit ≤ args.prevLogIndex + args.entries.length ∧
    (∃ s, Reachable cfg s ∧ Run cfg s c ∧ Builds s pkt args) ∧
    ∀ s, Reachable cfg s → Run cfg s c → Builds s pkt args →
      (s.node pkt.src).rf.term = args.term ∧
      ∀ rf' reply, (c.node pkt.dst).rf.appendEntriesHandler args = some (rf', reply) →
        (c.node pkt.dst).rf.commitIndex < rf'.commitIndex →
        rf'.commitIndex = min args.leaderCommit rf'.lastLogIndex ∧
        ∀ i, (s.node pkt.src).rf.snapshotIndex < i → rf'.snapshotIndex < i →
          i ≤ rf'.commitIndex →
          ∃ e, (s.node pkt.src).rf.logAt i = some e ∧ rf'.logAt i = some e := by
  refine ⟨?_, exists_built h hpkt hcall, fun s hs hr hb => ⟨?_, fun rf' reply he hlt => ?_⟩⟩
  · obtain ⟨a, hsim⟩ := reachable_sim h
    have hpk := hsim.net pkt hpkt
    unfold PacketOk at hpk
    rw [hcall] at hpk
    obtain ⟨_, _, hE⟩ := hpk
    obtain ⟨_, _, _, hlc, _⟩ := hE.entries hsnap
    exact hlc
  · obtain ⟨b, hsim⟩ := reachable_sim hs
    exact (hsim.built hb hsnap).1.symm
  · obtain ⟨hok, hterm, hmin⟩ := appendEntriesHandler_raises he hsnap hlt
    obtain ⟨l, l', hv, hv', hlc, hpre⟩ :=
      accepted_holds hs hr hpkt hcall hsnap hb he hok hterm
    refine ⟨hmin, fun i h1 h2 hi => ?_⟩
    have hil : i ≤ l.length := by omega
    exact hv.agree hv' h1 h2 hil ((List.take_prefix _ _).trans hpre)

end Verified

/-- The message by which server 1 learns that command 7 is committed. -/
def commitNews : AppendEntries ℕ ℕ := ⟨1, 0, 1, 1, [], 1, none, 0, 0⟩

theorem commits_verified_sample : ∃ (s c : Cluster ℕ ℕ) (rf' : Raft ℕ ℕ),
    Reachable three c ∧ Run three s c ∧ Builds s ⟨0, 1, .appendEntries commitNews⟩ commitNews ∧
    (c.node 1).rf.commitIndex = 0 ∧ rf'.commitIndex = 1 ∧
    ∃ e, (s.node 0).rf.logAt 1 = some e ∧ rf'.logAt 1 = some e := by
  obtain ⟨s, c, hs, hr, hv, hw⟩ := exists_played_twice init (firstElection ++ firstCommit)
    [(0, fun _ => .run .heartbeat)]
    (fun s => decide ((s.node 0).rf.customerId = .leader ∧ (s.node 0).rf.snapshotIndex = 0 ∧
      (s.node 0).rf.heartbeatArgs 0 1 = some commitNews))
    (fun c => decide (⟨0, 1, .appendEntries commitNews⟩ ∈ c.net ∧ (c.node 1).rf.commitIndex = 0 ∧
      ((c.node 1).rf.appendEntriesHandler commitNews).map
        (fun x => (x.1.commitIndex, x.1.snapshotIndex)) = some (1, 0)))
    (v := true) (w := true) (by decide +kernel)
  obtain ⟨hL, h0, hargs⟩ := of_decide_eq_true hv
  obtain ⟨hpkt, hc, hraise⟩ := of_decide_eq_true hw
  obtain ⟨⟨rf', reply⟩, he, e⟩ := Option.map_eq_some_iff.mp hraise
  obtain ⟨hc', hs'⟩ := Prod.mk.inj e
  dsimp only at hc' hs'
  have hb : Builds s ⟨0, 1, .appendEntries commitNews⟩ commitNews := ⟨hL, hargs⟩
  obtain ⟨_, _, hall⟩ := commits_verified (hs.trans hr) hpkt rfl rfl
  obtain ⟨_, hagree⟩ := (hall s hs hr hb).2 rf' reply he (hc.trans_lt (by omega))
  exact ⟨s, c, rf', hs.trans hr, hr, hb, hc, hc',
    hagree 1 (h0.trans_lt Nat.zero_lt_one) (by omega) (by omega)⟩

end RaftLab.Raft1

/-
  File:      RaftLab/Raft1/Safety.lean
  Subject:   The guarantees of the Raft cluster, over every run.

  * `election_safety` -- at most one server ever leads a term, and `GetState` tells who does;
  * `log_matching` -- logs that agree on the term at an index agree on every entry up to it;
  * `leader_completeness` -- later leaders hold what a leader has committed;
  * `state_machine_safety` -- no two servers apply different commands at an index, and every
    snapshot handed over was made by some service for that index.

  All four are read off the abstract term log through `Sim`. The schedule `sampleRun` drives
  three servers through an election, a commit, a snapshot, a crash inside the installation of
  that snapshot and a second election; it shows that the hypotheses are met by real runs.
-/
import RaftLab.Raft1.Simulation

namespace RaftLab.Raft1

open RaftLab.Lib RaftLab.Lib.TermLog Relation Cluster

variable {NodeID Cmd : Type} [DecidableEq NodeID] [Inhabited Cmd]

/-! ## 1. What the relation says of logs -/

section Logs

variable {cfg : Config NodeID} {c : Cluster NodeID Cmd} {a : Record NodeID Cmd} {n : NodeID}

theorem Sim.views (h : Sim cfg c a) (n : NodeID) : Views (a.log n) (c.node n).rf :=
  (h.enter n).views

/-- What a server has committed and not compacted ends a committed prefix. -/
theorem Sim.committed_at (h : Sim cfg c a) {i : ℕ} (h1 : (c.node n).rf.snapshotIndex < i)
    (h2 : i ≤ (c.node n).rf.commitIndex) :
    ∃ p e, Committed cfg a (a.term n) (p ++ [e]) ∧ p.length + 1 = i ∧
      (c.node n).rf.logAt i = some e := by
  have hm := (h.proc n).mem
  have hlen : i ≤ (a.log n).length := h2.trans hm.commitLe
  obtain ⟨e, he, _, hget⟩ := (h.views n).logAt h1.le hlen
  have hsplit : (a.log n).take i = (a.log n).take (i - 1) ++ [e] := by
    obtain ⟨j, rfl⟩ : ∃ j, i = j + 1 := ⟨i - 1, by omega⟩
    rw [List.take_add_one, show (a.log n)[j]? = some e from hget h1]
    rfl
  refine ⟨(a.log n).take (i - 1), e, ?_, by rw [List.length_take]; omega, he⟩
  rw [← hsplit]
  exact hm.committed.shorter (List.take_prefix_take_left h2)

/-- A leader of a term holds every prefix committed by then. -/
theorem Sim.leader_holds (h : Sim cfg c a) {t i : ℕ} {p : List (LogEntry Cmd)}
    (hr : (c.node n).rf.customerId = .leader) (hp : Committed cfg a t p) (hi : p.length = i)
    (ht : t ≤ (c.node n).rf.term) (hs : (c.node n).rf.snapshotIndex < i) :
    ∃ q e, p = q ++ [e] ∧ (c.node n).rf.logAt i = some e := by
  have hlead := (h.proc n).mem.leader hr
  have hpre : p <+: a.log n := by
    rw [h.inv.leaderLog hlead rfl]
    refine hp.llog h.inv ?_ (by rw [hlead]; simp)
    rw [← (h.enter n).term]
    exact ht
  have hne : p ≠ [] := by
    intro e
    rw [e] at hi
    simp at hi
    omega
  obtain ⟨q, x, rfl⟩ : ∃ q x, p = q ++ [x] := ⟨_, _, (List.dropLast_append_getLast hne).symm⟩
  obtain ⟨e, he, _, hget⟩ := (h.views n).logAt hs.le (hi ▸ hpre.length_le)
  refine ⟨q, e, ?_, he⟩
  have hx : (a.log n)[i - 1]? = some x := by
    obtain ⟨r, hr⟩ := hpre
    have hidx : i - 1 = q.length := by
      rw [← hi]
      simp
    rw [hidx, ← hr]
    simp
  rw [hget hs] at hx
  rw [Option.some.inj hx]

end Logs

/-! ## 2. A sample run -/

section Sample

theorem three_nodup : [0, 1, 2].Nodup := by decide

def three : Config ℕ := ⟨[0, 1, 2], three_nodup⟩

def deliverNth (k : ℕ) (c : Cluster ℕ ℕ) : Event ℕ ℕ :=
  match c.net[k]? with
  | some pkt => .deliver pkt
  | none => .tickerArm

def replyNth (k j : ℕ) (c : Cluster ℕ ℕ) : Event ℕ ℕ :=
  match c.replies[j]? with
  | some x => .reply k x.2
  | none => .tickerArm

/-- Server 0 wins term 1. -/
def firstElection : Schedule ℕ ℕ :=
  [(0, fun _ => .run .tickerArm), (0, fun _ => .run .tickerFire),
    (1, fun c => .run (deliverNth 0 c)), (0, fun c => .run (replyNth 0 0 c))]

/-- It commits command 7 with server 1 and applies it. -/
def firstCommit : Schedule ℕ ℕ :=
  [(0, fun _ => .run (.start 7)), (0, fun _ => .run .heartbeat),
    (1, fun c => .run (deliverNth 2 c)), (0, fun c => .run (replyNth 1 1 c)),
    (0, fun _ => .run .applyBatch), (0, fun _ => .run .apply)]

/-- It compacts its log; server 1 applies the command, server 2 crashes while it installs the
    snapshot, installs it again and hands it over. -/
def firstSnapshot : Schedule ℕ ℕ :=
  [(0, fun _ => .run (.snapshot 1 [42])), (0, fun _ => .run .heartbeat),
    (1, fun c => .run (deliverNth 4 c)), (1, fun _ => .run .applyBatch),
    (1, fun _ => .run .apply), (2, fun c => .crash (deliverNth 5 c) 1 0),
    (2, fun c => .run (deliverNth 5 c)), (2, fun _ => .run .applyBatch),
    (2, fun _ => .run .apply)]

/-- Servers 1 and 2 get two more commands. -/
def laterCommands : Schedule ℕ ℕ :=
  [(0, fun c => .run (replyNth 2 2 c)), (0, fun c => .run (replyNth 2 3 c)),
    (0, fun _ => .run (.start 8)), (0, fun _ => .run (.start 9)), (0, fun _ => .run .heartbeat),
    (1, fun c => .run (deliverNth 6 c)), (2, fun c => .run (deliverNth 7 c))]

/-- Server 1 wins term 2 with the vote of server 2. -/
def secondElection : Schedule ℕ ℕ :=
  [(1, fun _ => .run .tickerArm), (1, fun _ => .run .tickerFire),
    (2, fun c => .run (deliverNth 7 c)), (1, fun c => .run (replyNth 1 4 c))]

def sampleRun : Schedule ℕ ℕ := firstElection ++ firstCommit ++ firstSnapshot

/-- What `f` reads at the end of a schedule played from `c`. -/
theorem exists_played {α : Type} (c : Cluster ℕ ℕ) (script : Schedule ℕ ℕ)
    (f : Cluster ℕ ℕ → α) {v : α} (h : (play three c script).map f = some v) :
    ∃ c', Run three c c' ∧ f c' = v := by
  obtain ⟨c', hc, hf⟩ := Option.map_eq_some_iff.mp h
  exact ⟨c', play_run hc, hf⟩

/-- What `f` and `g` read in the middle and at the end of a schedule. -/
theorem exists_played_twice {α β : Type} (c : Cluster ℕ ℕ) (script script' : Schedule ℕ ℕ)
    (f : Cluster ℕ ℕ → α) (g : Cluster ℕ ℕ → β) {v : α} {w : β}
    (h : ((play three c script).bind fun c₁ => (play three c₁ script').map fun c₂ => (f c₁, g c₂)) =
      some (v, w)) :
    ∃ c₁ c₂, Run three c c₁ ∧ Run three c₁ c₂ ∧ f c₁ = v ∧ g c₂ = w := by
  obtain ⟨c₁, h1, h2⟩ := Option.bind_eq_some_iff.mp h
  obtain ⟨c₂, hc, hf⟩ := exists_played _ _ _ h2
  exact ⟨c₁, c₂, play_run h1, hc, congrArg Prod.fst hf, congrArg Prod.snd hf⟩

def entryMsg : ApplyMsg ℕ := ⟨true, 7, 1, false, none, 0, 0⟩

def snapshotMsg : ApplyMsg ℕ := ⟨false, 0, 0, true, some [42], 1, 1⟩

end Sample

/-! ## 3. The guarantees -/

section Guarantees

variable {cfg : Config NodeID} {c s₁ s₂ : Cluster NodeID Cmd}

/-- **Election safety**: over a whole run at most one server leads a term, and in every state
    `GetState` reports leadership exactly at the server whose role is leader. -/
theorem election_safety (h₁ : Reachable cfg s₁) (h₂ : Run cfg s₁ s₂) :
    (∀ n₁ n₂, (s₁.node n₁).rf.customerId = .leader → (s₂.node n₂).rf.customerId = .leader →
      (s₁.node n₁).rf.term = (s₂.node n₂).rf.term → n₁ = n₂) ∧
    ∀ n, ((s₂.node n).rf.getState n).2 = true ↔ (s₂.node n).rf.customerId = .leader := by
  obtain ⟨a₁, hs₁⟩ := reachable_sim h₁
  obtain ⟨a₂, hx, hs₂⟩ := hs₁.run h₂
  refine ⟨fun n₁ n₂ hr₁ hr₂ ht => ?_, fun n => ?_⟩
  · have hl₁ := hx.leader ((hs₁.proc n₁).mem.leader hr₁)
    have hl₂ := (hs₂.proc n₂).mem.leader hr₂
    rw [← (hs₁.enter n₁).term, ht, (hs₂.enter n₂).term] at hl₁
    exact Option.some.inj (hl₁.symm.trans hl₂)
  · unfold Raft.getState
    rw [decide_eq_true_iff]
    exact (hs₂.proc n).mem.leads

theorem election_safety_sample : ∃ s₁ s₂ : Cluster ℕ ℕ, Reachable three s₁ ∧ Run three s₁ s₂ ∧
    (s₁.node 0).rf.customerId = .leader ∧ (s₁.node 0).rf.term = 1 ∧
    (∀ n, (s₂.node n).rf.customerId = .leader → (s₂.node n).rf.term = 1 → 0 = n) ∧
    ((s₂.node 0).rf.getState 0).2 = true := by
  obtain ⟨s₁, s₂, h₁, h₂, hf, hg⟩ := exists_played_twice init firstElection
    (firstCommit ++ firstSnapshot) (fun c => ((c.node 0).rf.customerId, (c.node 0).rf.term))
    (fun c => (c.node 0).rf.customerId) (v := (.leader, 1)) (w := .leader) (by decide +kernel)
  obtain ⟨hr, ht⟩ := Prod.mk.inj hf
  obtain ⟨hone, hstate⟩ := election_safety h₁ h₂
  exact ⟨s₁, s₂, h₁, h₂, hr, ht, fun n hn htn => hone 0 n hr hn (ht.trans htn.symm),
    (hstate 0).mpr hg⟩

/-- **Log matching under compaction**: where two servers both represent index `i`, with the same
    term, they hold the same entry at every index up to `i` that neither has compacted. -/
theorem log_matching (h : Reachable cfg c) {n m : NodeID} {i : ℕ} {e e' : LogEntry Cmd}
    (he : (c.node n).rf.logAt i = some e) (he' : (c.node m).rf.logAt i = some e')
    (ht : e.term = e'.term) {j : ℕ} (hj : j ≤ i) (hn : (c.node n).rf.snapshotIndex < j)
    (hm : (c.node m).rf.snapshotIndex < j) :
    ∃ x, (c.node n).rf.logAt j = some x ∧ (c.node m).rf.logAt j = some x := by
  obtain ⟨a, hs⟩ := reachable_sim h
  obtain ⟨_, hi, hte, _⟩ := (hs.views n).of_logAt he
  obtain ⟨_, hi', hte', _⟩ := (hs.views m).of_logAt he'
  have htake : (a.log n).take i = (a.log m).take i :=
    (hs.inv.goodLog n).matching (hs.inv.goodLog m) hi hi' (by rw [← hte, ← hte', ht])
  refine (hs.views n).agree (hs.views m) hn hm (hj.trans hi) ?_
  calc (a.log n).take j <+: (a.log n).take i := List.take_prefix_take_left hj
    _ = (a.log m).take i := htake
    _ <+: a.log m := List.take_prefix _ _

/-- Server 0 has compacted its log, server 2 has installed the snapshot, server 1 has its whole log:
    they agree on index 3, so on index 2. -/
theorem log_matching_sample : ∃ c : Cluster ℕ ℕ, Reachable three c ∧
    (c.node 0).rf.snapshotIndex = 1 ∧ (c.node 1).rf.snapshotIndex = 0 ∧
    (c.node 2).rf.snapshotIndex = 1 ∧
    (∃ x, (c.node 0).rf.logAt 2 = some x ∧ (c.node 2).rf.logAt 2 = some x) ∧
    ∃ x, (c.node 1).rf.logAt 2 = some x ∧ (c.node 2).rf.logAt 2 = some x := by
  obtain ⟨c, h, hf⟩ := exists_played init (sampleRun ++ laterCommands)
    (fun c => [0, 1, 2].map fun n => ((c.node n).rf.logAt 3, (c.node n).rf.snapshotIndex))
    (v := [(some ⟨9, 1⟩, 1), (some ⟨9, 1⟩, 0), (some ⟨9, 1⟩, 1)]) (by decide +kernel)
  simp only [List.map_cons, List.map_nil, List.cons.injEq, Prod.mk.injEq, and_true] at hf
  obtain ⟨⟨h0, hs0⟩, ⟨h1, hs1⟩, h2, hs2⟩ := hf
  exact ⟨c, h, hs0, hs1, hs2,
    log_matching h h0 h2 rfl (by decide : 2 ≤ 3) (by omega) (by omega),
    log_matching h h1 h2 rfl (by decide : 2 ≤ 3) (by omega) (by omega)⟩

/-- **Leader completeness**: once a server, a leader in particular, has `commitIndex` at or above
    `i` in its term, every leader of a later term has compacted `i` or holds there the entry that
    every server had there which, at any time of the run, had `i` committed and not compacted. -/
theorem leader_completeness (h₁ : Reachable cfg s₁) (h₂ : Run cfg s₁ s₂) {L M : NodeID} {i : ℕ}
    (hi : i ≤ (s₁.node L).rf.commitIndex) (hM : (s₂.node M).rf.customerId = .leader)
    (hT : (s₁.node L).rf.term < (s₂.node M).rf.term) :
    i ≤ (s₂.node M).rf.snapshotIndex ∨
      ∃ e, (s₂.node M).rf.logAt i = some e ∧
        ∀ s, Reachable cfg s → Run cfg s s₁ ∨ (Run cfg s₁ s ∧ Run cfg s s₂) →
          ∀ n, (s.node n).rf.snapshotIndex < i → i ≤ (s.node n).rf.commitIndex →
            (s.node n).rf.logAt i = some e := by
  refine (Nat.lt_or_ge (s₂.node M).rf.snapshotIndex i).symm.imp id fun hs => ?_
  -- what `L` committed, in any state the record has reached since
  have hcom : ∀ {a₁ a₂ : Record NodeID Cmd}, Sim cfg s₁ a₁ → Ext a₁ a₂ →
      ∃ p, Committed cfg a₂ (s₁.node L).rf.term p ∧ p.length = i := by
    intro a₁ a₂ hs₁ hx
    have hm := (hs₁.proc L).mem
    refine ⟨(a₁.log L).take i, ?_, ?_⟩
    · rw [(hs₁.enter L).term]
      exact (hm.committed.shorter (List.take_prefix_take_left hi)).mono hx
    · rw [List.length_take]
      exact Nat.min_eq_left (hi.trans hm.commitLe)
  obtain ⟨a₁, hs₁⟩ := reachable_sim h₁
  obtain ⟨a₂, hx, hs₂⟩ := hs₁.run h₂
  obtain ⟨p, hp, hlen⟩ := hcom hs₁ hx
  obtain ⟨_, e, _, he⟩ := hs₂.leader_holds hM hp hlen hT.le hs
  refine ⟨e, he, fun s hr hrun n hn hc => ?_⟩
  -- a record of the run through `s`
  obtain ⟨a, a₁, a₂, hsim, hs₁, hs₂, hxa, hx⟩ : ∃ a a₁ a₂ : Record NodeID Cmd,
      Sim cfg s a ∧ Sim cfg s₁ a₁ ∧ Sim cfg s₂ a₂ ∧ Ext a a₂ ∧ Ext a₁ a₂ := by
    rcases hrun with hb | ⟨hb, hb'⟩
    · obtain ⟨a, ha⟩ := reachable_sim hr
      obtain ⟨a₁, hx₁, ha₁⟩ := ha.run hb
      obtain ⟨a₂, hx₂, ha₂⟩ := ha₁.run h₂
      exact ⟨a, a₁, a₂, ha, ha₁, ha₂, hx₁.trans hx₂, hx₂⟩
    · obtain ⟨a₁, ha₁⟩ := reachable_sim h₁
      obtain ⟨a, hx₁, ha⟩ := ha₁.run hb
      obtain ⟨a₂, hx₂, ha₂⟩ := ha.run hb'
      exact ⟨a, a₁, a₂, ha, ha₁, ha₂, hx₂, hx₁.trans hx₂⟩
  obtain ⟨p, hp, hlen⟩ := hcom hs₁ hx
  obtain ⟨q, e', rfl, he'⟩ := hs₂.leader_holds hM hp hlen hT.le hs
  obtain rfl : e' = e := Option.some.inj (he'.symm.trans he)
  obtain ⟨p', x, hp', hlen', hx'⟩ := hsim.committed_at hn hc
  have hsame : x = e' := by
    refine committed_entry_unique hs₂.inv (hp'.mono hxa) hp ?_
    simp at hlen
    omega
  rw [← hsame]
  exact hx'

/-- A leader's log reaches what the server has ever had committed. -/
theorem commitIndex_le_leader (h₁ : Reachable cfg s₁) (h₂ : Run cfg s₁ s₂) {n : NodeID}
    (hn : (s₂.node n).rf.customerId = .leader) :
    (s₁.node n).rf.commitIndex ≤ (s₂.node n).rf.lastLogIndex := by
  obtain ⟨a₁, hs₁⟩ := reachable_sim h₁
  obtain ⟨a₂, hx, hs₂⟩ := hs₁.run h₂
  have hm := (hs₁.proc n).mem
  have hlead := (hs₂.proc n).mem.leader hn
  have hpre : (a₁.log n).take (s₁.node n).rf.commitIndex <+: a₂.log n := by
    rw [hs₂.inv.leaderLog hlead rfl]
    exact (hm.committed.mono hx).llog hs₂.inv (hx.term n) (by rw [hlead]; simp)
  rw [(hs₂.views n).lastLogIndex, ← List.length_take_of_le hm.commitLe]
  exact hpre.length_le

theorem leader_completeness_sample : ∃ s₁ s₂ : Cluster ℕ ℕ, Reachable three s₁ ∧
    Run three s₁ s₂ ∧ (s₁.node 0).rf.customerId = .leader ∧ (s₂.node 1).rf.term = 2 ∧
    ∃ e, (s₂.node 1).rf.logAt 1 = some e ∧ ∀ n, (s₁.node n).rf.snapshotIndex < 1 →
      1 ≤ (s₁.node n).rf.commitIndex → (s₁.node n).rf.logAt 1 = some e := by
  obtain ⟨s₁, s₂, h₁, h₂, hf, hg⟩ := exists_played_twice init sampleRun secondElection
    (fun c => ((c.node 0).rf.customerId, (c.node 0).rf.commitIndex, (c.node 0).rf.term))
    (fun c => ((c.node 1).rf.customerId, (c.node 1).rf.snapshotIndex, (c.node 1).rf.term))
    (v := (.leader, 1, 1)) (w := (.leader, 0, 2)) (by decide +kernel)
  simp only [Prod.mk.injEq] at hf hg
  obtain ⟨hr, hc, ht⟩ := hf
  obtain ⟨hr', hs', ht'⟩ := hg
  refine ⟨s₁, s₂, h₁, h₂, hr, ht', ?_⟩
  rcases leader_completeness h₁ h₂ (L := 0) (M := 1) (i := 1) hc.ge hr' (by omega) with hs | hold
  · omega
  · obtain ⟨e, he, hall⟩ := hold
    exact ⟨e, he, hall s₁ h₁ (Or.inl .refl)⟩

/-- **State machine safety**: commands applied at one index are equal, at any two servers in any
    incarnations, and a snapshot handed over for `N` was made by some service at `N`. -/
theorem state_machine_safety (h : Reachable cfg c) :
    (∀ A B msgA msgB, (A, msgA) ∈ c.sent → (B, msgB) ∈ c.sent → msgA.commandValid = true →
      msgB.commandValid = true → msgA.commandIndex = msgB.commandIndex →
      msgA.command = msgB.command) ∧
    ∀ A msg, (A, msg) ∈ c.sent → msg.snapshotValid = true →
      ∃ B data, msg.snapshot = some data ∧ (B, msg.snapshotIndex, data) ∈ c.made := by
  obtain ⟨a, hs⟩ := reachable_sim h
  refine ⟨fun A B msgA msgB hA hB hvA hvB hidx => ?_, fun A msg hA hv => ?_⟩
  · obtain ⟨t, p, e, hp, hlen, hcmd⟩ := (hs.sent _ hA).command hvA
    obtain ⟨t', p', e', hp', hlen', hcmd'⟩ := (hs.sent _ hB).command hvB
    have hpp : p.length = p'.length := Nat.succ.inj (hlen.trans (hidx.trans hlen'.symm))
    have he : e = e' := committed_entry_unique hs.inv hp hp' hpp
    rw [← hcmd, ← hcmd', he]
  · exact (hs.sent _ hA).snapshot hv

theorem state_machine_safety_sample : ∃ c : Cluster ℕ ℕ, Reachable three c ∧
    c.sent = [(0, entryMsg), (1, entryMsg), (2, snapshotMsg)] ∧
    (∀ A msg, (A, msg) ∈ c.sent → msg.commandValid = true → msg.commandIndex = 1 →
      msg.command = 7) ∧
    ∃ B, (B, 1, [42]) ∈ c.made := by
  obtain ⟨c, h, hsent⟩ := exists_played init sampleRun (fun c => c.sent)
    (v := [(0, entryMsg), (1, entryMsg), (2, snapshotMsg)])
    (by decide +kernel)
  obtain ⟨hcmd, hsnap⟩ := state_machine_safety h
  refine ⟨c, h, hsent, fun A msg hmsg hv hidx => ?_, ?_⟩
  · exact hcmd A 0 msg entryMsg hmsg (by rw [hsent]; simp) hv rfl hidx
  · obtain ⟨B, data, hd, hmade⟩ := hsnap 2 snapshotMsg (by rw [hsent]; simp) rfl
    cases hd
    exact ⟨B, hmade⟩

end Guarantees

end RaftLab.Raft1

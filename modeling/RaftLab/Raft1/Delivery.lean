/-
  File:      RaftLab/Raft1/Delivery.lean
  Subject:   What the service of one Raft process is handed, over the whole life of the process.

  The goroutine of `sendApplyMsg` takes a batch under the lock and sends it without: commits,
  `Snapshot` calls and installed snapshots come in between. What it has still to send leads from
  what the service has to `appliedIndex`, and nothing but the goroutine itself changes either.

  * `apply_stream` -- **the messages a process has sent since it was started are one feed** from the
    snapshot it recovered: no index is skipped, repeated or gone back to, and every command is the
    one committed at its index.
-/
import RaftLab.Raft1.ApplyStream
import RaftLab.Raft1.Indexes

namespace RaftLab.Raft1

open RaftLab.Lib RaftLab.Lib.TermLog Relation Cluster

variable {NodeID Cmd : Type} [DecidableEq NodeID]

/-! ## 1. What is sent -/

/-- What the node has sent, of all that was sent. -/
def sentBy (n : NodeID) (sent : List (NodeID × ApplyMsg Cmd)) : List (ApplyMsg Cmd) :=
  sent.filterMap fun x => if x.1 = n then some x.2 else none

theorem sentBy_append (n : NodeID) (sent sent' : List (NodeID × ApplyMsg Cmd)) :
    sentBy n (sent ++ sent') = sentBy n sent ++ sentBy n sent' := List.filterMap_append

theorem sentBy_own (n : NodeID) (msgs : List (ApplyMsg Cmd)) :
    sentBy n (msgs.map fun msg => (n, msg)) = msgs := by
  simp [sentBy, List.filterMap_map]

theorem sentBy_other {n m : NodeID} (hne : m ≠ n) (msgs : List (ApplyMsg Cmd)) :
    sentBy n (msgs.map fun msg => (m, msg)) = [] := by
  simp [sentBy, hne]

theorem mem_sentBy {n : NodeID} {sent : List (NodeID × ApplyMsg Cmd)} {msg : ApplyMsg Cmd}
    (h : msg ∈ sentBy n sent) : (n, msg) ∈ sent := by
  obtain ⟨x, hx, e⟩ := List.mem_filterMap.mp h
  split at e
  next hn =>
    cases e
    rw [← hn]
    exact hx
  next => cases e

variable [Inhabited Cmd]

/-- **Only `apply` sends**, the first message of the batch. -/
theorem exec_sent {cfg : Config NodeID} {me : NodeID} {p : Proc NodeID Cmd}
    {ev : Event NodeID Cmd} {o : Outcome NodeID Cmd} (h : exec cfg me p ev = some o) :
    o.sent = match ev with
      | .apply => p.applying.take 1
      | _ => [] := by
  cases exec_cases h with
  | apply happ => simp [happ]
  | _ => rfl

/-! ## 2. The feed of a process -/

/-- The server has had the command at the index, committed and not compacted, in a state from
    which the cluster has come to `c`. -/
def HadCommitted (cfg : Config NodeID) (c : Cluster NodeID Cmd) (n : NodeID) (i : ℕ)
    (command : Cmd) : Prop :=
  ∃ s e, Reachable cfg s ∧ Run cfg s c ∧ (s.node n).rf.snapshotIndex < i ∧
    i ≤ (s.node n).rf.commitIndex ∧ (s.node n).rf.logAt i = some e ∧ e.command = command

/-- Some service has made the snapshot for the index. -/
def Made (c : Cluster NodeID Cmd) (N : ℕ) (data : Bytes) : Prop := ∃ m, (m, N, data) ∈ c.made

section Steps

variable {cfg : Config NodeID} {c c' : Cluster NodeID Cmd} {n : NodeID}

theorem HadCommitted.mono {i : ℕ} {command : Cmd} (h : HadCommitted cfg c n i command)
    (hs : Step cfg c c') : HadCommitted cfg c' n i command := by
  obtain ⟨s, e, h1, h2, rest⟩ := h
  exact ⟨s, e, h1, h2.tail hs, rest⟩

theorem made_mono (hs : Step cfg c c') {N : ℕ} {data : Bytes} (h : Made c N data) :
    Made c' N data := by
  obtain ⟨m, hm⟩ := h
  cases hs with
  | run | crash | restart => exact ⟨m, List.mem_append_left _ hm⟩

/-- A feed stays one. -/
theorem feed_mono (hs : Step cfg c c') {d a : ℕ} {msgs : List (ApplyMsg Cmd)}
    (h : Feed (Made c) (HadCommitted cfg c n) d msgs a) :
    Feed (Made c') (HadCommitted cfg c' n) d msgs a :=
  h.imp (fun _ _ _ he => he.mono hs) fun _ _ => made_mono hs

/-- What the goroutine of `sendApplyMsg` still has to send leads to `appliedIndex`. -/
def Pending (cfg : Config NodeID) (c : Cluster NodeID Cmd) (n : NodeID) (p : Proc NodeID Cmd) :
    Prop :=
  Feed (Made c) (HadCommitted cfg c n) p.delivered p.applying p.rf.appliedIndex

theorem pending_quiet {ev : Event NodeID Cmd} {p p' : Proc NodeID Cmd} (h : Pending cfg c n p)
    (hq : Quiet ev p p') : Pending cfg c n p' := by
  have happlied : p'.rf.appliedIndex = p.rf.appliedIndex := by
    rcases hq.rf with hk | ⟨N, data, _, hs⟩
    · exact hk.appliedIndex
    · exact hs.appliedIndex
  unfold Pending
  rw [hq.delivered, hq.applying, happlied]
  exact h

/-- The goroutine takes a batch. -/
theorem pending_applyBatch (hr : Reachable cfg c) (h : Pending cfg c n (c.node n))
    (hidle : (c.node n).applying = []) {rf : Raft NodeID Cmd} {msgs : List (ApplyMsg Cmd)}
    (hb : (c.node n).rf.sendApplyMsg = some (rf, msgs)) :
    Pending cfg c n { c.node n with rf := rf, applying := msgs } := by
  obtain ⟨a, hsim⟩ := reachable_sim hr
  have hdone : (c.node n).delivered = (c.node n).rf.appliedIndex := by
    unfold Pending at h
    rw [hidle] at h
    exact h
  obtain ⟨e, hfeed⟩ : _ ∧ Feed (Made c) (HadCommitted cfg c n) _ msgs _ :=
    sendApplyMsg_feed (fun i e h1 h2 he => ⟨c, e, hr, .refl, h1, h2, he, rfl⟩)
      (hsim.proc n).disk.snap hb
  rw [e]
  unfold Pending
  rw [hdone]
  exact hfeed

/-- **What one section adds**: the messages it sends lead from what the service had to what it
    has. -/
theorem exec_feed (hr : Reachable cfg c) (h : Pending cfg c n (c.node n)) {ev : Event NodeID Cmd}
    (hev : c.Enabled n ev) {o : Outcome NodeID Cmd} (ho : exec cfg n (c.node n) ev = some o) :
    Feed (Made c) (HadCommitted cfg c n) (c.node n).delivered o.sent o.proc.delivered ∧
      Pending cfg c n o.proc := by
  have hsent := exec_sent ho
  have heff := exec_effect ho
  have quiet : o.sent = [] → Quiet ev (c.node n) o.proc →
      Feed (Made c) (HadCommitted cfg c n) (c.node n).delivered o.sent o.proc.delivered ∧
        Pending cfg c n o.proc := by
    intro hnone hq
    rw [hnone]
    exact ⟨hq.delivered.symm, pending_quiet h hq⟩
  cases ev with
  | applyBatch =>
      obtain ⟨rf, msgs, hb, e⟩ := heff
      rw [hsent, e]
      exact ⟨rfl, pending_applyBatch hr h hev.1 hb⟩
  | apply =>
      obtain ⟨msg, rest, hp, e⟩ := heff
      unfold Pending at h
      rw [hp] at h hsent
      obtain ⟨hone, hrest⟩ := h.head
      rw [hsent, e]
      exact ⟨hone, hrest⟩
  | _ => exact quiet hsent heff

/-- What a step adds, and what is left to send. -/
theorem Cluster.StepAlive.feed (hs : StepAlive cfg n c c') (hr : Reachable cfg c)
    (h : Pending cfg c n (c.node n)) :
    (∃ new, c'.sent = c.sent ++ new ∧
      Feed (Made c') (HadCommitted cfg c' n) (c.node n).delivered (sentBy n new)
        (c'.node n).delivered) ∧
      Pending cfg c' n (c'.node n) := by
  have hstep := hs.step
  cases hs with
  | run m hm ev hev o ho st hst =>
      by_cases hne : m = n
      · subst hne
        obtain ⟨hfeed, hpend⟩ := exec_feed hr h hev ho
        have hnode : (c.complete m o st).node m =
            { o.proc with rf := { o.proc.rf with wal := [] } } := Function.update_self _ _ _
        rw [hnode]
        refine ⟨⟨_, rfl, ?_⟩, feed_mono hstep hpend⟩
        rw [sentBy_own]
        exact feed_mono hstep hfeed
      · have hnode : (c.complete m o st).node n = c.node n :=
          Function.update_of_ne (Ne.symm hne) _ _
        rw [hnode]
        refine ⟨⟨_, rfl, ?_⟩, feed_mono hstep h⟩
        rw [sentBy_other hne]
        rfl
  | crash m hm hne ev hev o ho k j st hst =>
      have hnode : (c.reboot m o.made st).node n = c.node n := Function.update_of_ne hne.symm _ _
      rw [hnode]
      exact ⟨⟨[], (List.append_nil _).symm, rfl⟩, feed_mono hstep h⟩
  | restart m hm hne =>
      have hnode : (c.reboot m [] (c.disk m)).node n = c.node n :=
        Function.update_of_ne hne.symm _ _
      rw [hnode]
      exact ⟨⟨[], (List.append_nil _).symm, rfl⟩, feed_mono hstep h⟩

/-- In every state, what a process has still to send leads to its `appliedIndex`. -/
theorem pending_reachable (h : Reachable cfg c) (n : NodeID) : Pending cfg c n (c.node n) := by
  induction h with
  | refl => rfl
  | tail hr hs ih =>
      rcases hs.alive_or_boot n with halive | ⟨st, hboot⟩
      · exact (halive.feed hr ih).2
      · rw [hboot]
        rfl

/-- **The feed of a process**, from its start on. -/
theorem feed_run (h0 : Reachable cfg c) {st : PersistState NodeID Cmd}
    (hboot : c.node n = Proc.boot st) (hr : ReflTransGen (StepAlive cfg n) c c') :
    (∃ new, c'.sent = c.sent ++ new ∧
      Feed (Made c') (HadCommitted cfg c' n) st.snapshotIndex (sentBy n new)
        (c'.node n).delivered) ∧
      Pending cfg c' n (c'.node n) := by
  induction hr with
  | refl =>
      rw [hboot]
      exact ⟨⟨[], (List.append_nil _).symm, rfl⟩, rfl⟩
  | tail hrun hs ih =>
      obtain ⟨⟨new, hsent, hfeed⟩, hpend⟩ := ih
      have hreach := h0.trans (hrun.lift id fun _ _ hs' => hs'.step)
      obtain ⟨⟨more, hmore, hnext⟩, hpend'⟩ := hs.feed hreach hpend
      refine ⟨⟨new ++ more, ?_, ?_⟩, hpend'⟩
      · rw [hmore, hsent, List.append_assoc]
      · rw [sentBy_append]
        exact (feed_mono hs.step hfeed).append hnext

end Steps

/-! ## 3. The commands of the feed -/

section Guarantee

variable {cfg : Config NodeID} {c₀ c : Cluster NodeID Cmd} {n : NodeID}

/-- The command of the entry committed at the index: the server has had it there, and so has every
    server that, at any time, had the index committed and not compacted. -/
def CommittedCommand (cfg : Config NodeID) (c : Cluster NodeID Cmd) (n : NodeID) (i : ℕ)
    (command : Cmd) : Prop :=
  HadCommitted cfg c n i command ∧
    ∀ s m e, Reachable cfg s → Run cfg s c → (s.node m).rf.snapshotIndex < i →
      i ≤ (s.node m).rf.commitIndex → (s.node m).rf.logAt i = some e → e.command = command

/-- A command that was sent is the one every server has committed there. -/
theorem sent_agrees {msg : ApplyMsg Cmd} (hmsg : (n, msg) ∈ c.sent)
    (hv : msg.commandValid = true) {s : Cluster NodeID Cmd} {m : NodeID} {e : LogEntry Cmd}
    (hs : Reachable cfg s) (hr : Run cfg s c)
    (h1 : (s.node m).rf.snapshotIndex < msg.commandIndex)
    (h2 : msg.commandIndex ≤ (s.node m).rf.commitIndex)
    (he : (s.node m).rf.logAt msg.commandIndex = some e) : e.command = msg.command := by
  obtain ⟨a, hsim⟩ := reachable_sim hs
  obtain ⟨a', hx, hsim'⟩ := hsim.run hr
  obtain ⟨p, e', hp, hlen, he'⟩ := hsim.committed_at h1 h2
  obtain ⟨t, q, x, hq, hlen', hcmd⟩ := (hsim'.sent _ hmsg).command hv
  have hsame : e' = x :=
    committed_entry_unique hsim'.inv (hp.mono hx) hq (Nat.succ.inj (hlen.trans hlen'.symm))
  cases he.symm.trans he'
  rw [hsame]
  exact hcmd

/-- **The apply stream has no gap and no repetition.** Whatever happens between the start of a
    process and now, with the process alive: the messages it has sent since lead from the snapshot
    index that `MakeWithWAL` recovered to the index its service has. Each is a command or a snapshot
    and not both; a command message brings the next index and the command committed there; a
    snapshot message brings a later index, and a snapshot made for it. -/
theorem apply_stream (h0 : Reachable cfg c₀) {st : PersistState NodeID Cmd}
    (hboot : c₀.node n = Proc.boot st) (hr : ReflTransGen (StepAlive cfg n) c₀ c) :
    ∃ new, c.sent = c₀.sent ++ new ∧
      Feed (Made c) (CommittedCommand cfg c n) st.snapshotIndex (sentBy n new)
        (c.node n).delivered := by
  obtain ⟨⟨new, hsent, hfeed⟩, _⟩ := feed_run h0 hboot hr
  refine ⟨new, hsent, hfeed.imp ?_ fun _ _ hm => hm⟩
  intro msg hmsg hv had
  refine ⟨had, fun s m e hs hrun h1 h2 he => ?_⟩
  have hmem : (n, msg) ∈ c.sent := by
    rw [hsent]
    exact List.mem_append_right _ (mem_sentBy hmsg)
  exact sent_agrees hmem hv hs hrun h1 h2 he

end Guarantee

/-! ### A process that was restarted -/

section Sample

/-- A schedule without crashes. -/
def sections (l : List (ℕ × (Cluster ℕ ℕ → Event ℕ ℕ))) : Schedule ℕ ℕ :=
  l.map fun x => (x.1, fun c => .run (x.2 c))

/-- Everybody lives through it. -/
theorem play_alive {l : List (ℕ × (Cluster ℕ ℕ → Event ℕ ℕ))} {c c' : Cluster ℕ ℕ}
    (h : play three c (sections l) = some c') (n : ℕ) : ReflTransGen (StepAlive three n) c c' := by
  induction l generalizing c with
  | nil =>
      cases h
      exact .refl
  | cons x l ih =>
      have h' : (c.next three x.1 (.run (x.2 c))).bind (fun c₁ => play three c₁ (sections l)) =
        some c' := h
      obtain ⟨c₁, h1, h2⟩ := Option.bind_eq_some_iff.mp h'
      obtain ⟨hm, hev, o, st, ho, hst, rfl⟩ := next_run h1
      exact .head (.run x.1 hm _ hev o ho st hst) (ih h2)

/-- Server 2, which crashed while it installed a snapshot, installs it again and hands it over. Then
    server 0 commits command 8 with it. -/
def afterCrash : Schedule ℕ ℕ := sections
  [(2, deliverNth 5), (2, fun _ => .applyBatch), (2, fun _ => .apply), (0, replyNth 3 3),
    (0, fun _ => .start 8), (0, fun _ => .heartbeat), (2, deliverNth 7), (0, replyNth 4 4),
    (0, fun _ => .heartbeat), (2, deliverNth 9), (2, fun _ => .applyBatch), (2, fun _ => .apply)]

theorem apply_stream_sample : ∃ (c₀ c : Cluster ℕ ℕ) (st : PersistState ℕ ℕ), Reachable three c₀ ∧
    c₀.node 2 = Proc.boot st ∧ ReflTransGen (StepAlive three 2) c₀ c ∧
    Feed (Made c) (CommittedCommand three c 2) st.snapshotIndex
      [snapshotMsg, ⟨true, 8, 2, false, none, 0, 0⟩] 2 := by
  have hplay : ((play three init (firstElection ++ firstCommit ++ firstSnapshot.take 5)).bind
      fun c₁ => (c₁.next three 2 (.crash (deliverNth 5 c₁) 1 0)).bind fun c₀ =>
        (play three c₀ afterCrash).map fun c => (c₀.sent, c.sent, (c.node 2).delivered)) =
      some ([(0, entryMsg), (1, entryMsg)], [(0, entryMsg), (1, entryMsg), (2, snapshotMsg),
        (2, ⟨true, 8, 2, false, none, 0, 0⟩)], 2) := by
    decide +kernel
  obtain ⟨c₁, h1, hplay⟩ := Option.bind_eq_some_iff.mp hplay
  obtain ⟨c₀, h0, hplay⟩ := Option.bind_eq_some_iff.mp hplay
  obtain ⟨c, hc, hread⟩ := Option.map_eq_some_iff.mp hplay
  simp only [Prod.mk.injEq] at hread
  obtain ⟨hs0, hs, hd⟩ := hread
  have hreach : Reachable three c₀ := (Cluster.play_run h1).tail (next_step h0)
  obtain ⟨_, _, o, st, _, _, e0⟩ := next_crash h0
  have hboot : c₀.node 2 = Proc.boot st := by simp [e0, Cluster.reboot]
  have halive := play_alive hc 2
  obtain ⟨new, hnew, hfeed⟩ := apply_stream hreach hboot halive
  have e : new = [(2, snapshotMsg), (2, ⟨true, 8, 2, false, none, 0, 0⟩)] := by
    rw [hs, hs0] at hnew
    simpa using hnew.symm
  rw [e, hd] at hfeed
  exact ⟨c₀, c, st, hreach, hboot, halive, hfeed⟩

end Sample

end RaftLab.Raft1

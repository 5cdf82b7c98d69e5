/-
  File:      RaftLab/Raft1/Simulation.lean
  Subject:   Every run of the cluster is a run of the abstract term log.

  * `SectionOk` -- what a completed critical section owes: the record moved along (`Track`), and
    everything it sends, answers or applies says what it must;
  * `exec_ok` -- **every enabled event runs to its end** (no index out of range, no
    `log.Fatalf`) and meets `SectionOk`;
  * `Sim.step` -- one step of the cluster, crash and restart included, is followed by abstract
    steps of one node; `Sim.run` -- a whole run; `reachable_sim` -- every reachable state.
-/
import RaftLab.Raft1.Replication

namespace RaftLab.Raft1

open RaftLab.Lib RaftLab.Lib.TermLog Relation

variable {NodeID Cmd : Type} [DecidableEq NodeID] [Inhabited Cmd]

section Sections

variable {cfg : Config NodeID} {made : List (NodeID × ℕ × Bytes)} {n : NodeID}
  {a₀ a : Record NodeID Cmd} {st₀ : PersistState NodeID Cmd} {rf : Raft NodeID Cmd}

/-! ## 1. The service side and the messages of a leader -/

namespace Track

/-- **`Start`**: a leader appends an entry of its term. -/
theorem start (h : Track cfg made n a₀ st₀ a rf) (command : Cmd) :
    ∃ a', Track cfg made n a₀ st₀ a' (rf.start command).1 ∧ KeepsPoll rf (rf.start command).1 := by
  unfold Raft.start
  by_cases hr : rf.customerId ≠ .leader
  · rw [if_pos hr]
    exact ⟨a, h, KeepsPoll.refl rf⟩
  rw [if_neg hr]
  have hlead := h.mem.leader (not_not.mp hr)
  set e : LogEntry Cmd := ⟨command, rf.term⟩ with he
  have hs : Move cfg n a (a.append n (a.term n) e) := .append e hlead h.term
  have hlog : (a.append n (a.term n) e).log n = a.log n ++ [e] := Function.update_self _ _ _
  have htake : ∀ k, k ≤ (a.log n).length → (a.log n ++ [e]).take k = (a.log n).take k :=
    fun k hk => List.take_append_of_le_length hk
  have hd : DiskOk cfg made (a.append n (a.term n) e) n
      { rf.persist with logs := rf.logs ++ [e] } := by
    refine ⟨h.disk.term, h.disk.vote, ?_, ?_, ?_, h.disk.snap⟩
    · rw [hlog, ← compact_append h.disk.le, ← h.disk.logs]
      rfl
    · rw [hlog, List.length_append]
      exact h.disk.le.trans (Nat.le_add_right _ _)
    · rw [hlog, htake _ h.disk.le]
      exact h.disk.committed.mono hs.ext
  refine ⟨_, h.write (.appendLog [e]) rfl rfl (.single hs) hd ?_ fun es hes j st hst => ?_,
    fun e => ⟨e, rfl, rfl⟩, le_refl _⟩
  · refine ⟨h.mem.snapLe, ?_, h.mem.appliedLe, ?_, h.mem.leads, h.mem.leader, h.mem.matched, ?_⟩
    · rw [hlog, List.length_append]
      exact h.mem.commitLe.trans (Nat.le_add_right _ _)
    · rw [hlog, htake _ h.mem.commitLe]
      exact h.mem.committed.mono hs.ext
    · intro hc
      rw [show rf.customerId = .candidate from hc] at hr
      exact absurd (by simp) hr
  · -- a crash inside the call leaves the entry or nothing
    cases hes
    cases hst
    cases j with
    | zero =>
        refine ⟨a, .refl, ?_⟩
        rw [List.take_zero, List.append_nil]
        exact h.disk
    | succ j =>
        refine ⟨_, .single hs, ?_⟩
        rw [List.take_of_length_le (by simp)]
        exact hd

/-- **`Snapshot`** at an index the service has been handed. -/
theorem snapshotUpTo (h : Track cfg made n a₀ st₀ a rf) {index : ℕ} {data : Bytes}
    (hi : index ≤ rf.commitIndex) {m : NodeID} (hmade : (m, index, data) ∈ made) :
    ∃ rf', rf.snapshotUpTo index data = some rf' ∧ Track cfg made n a₀ st₀ a rf' ∧
      KeepsPoll rf rf' := by
  have hin : index ≤ (a.log n).length := hi.trans h.mem.commitLe
  unfold Raft.snapshotUpTo
  by_cases hle : index ≤ rf.snapshotIndex
  · rw [if_pos hle]
    exact ⟨rf, rfl, h, KeepsPoll.refl rf⟩
  have hlast := h.views.lastLogIndex
  rw [if_neg hle, if_neg (by omega)]
  obtain ⟨e, he, hte, _⟩ := h.views.logAt (i := index) (by omega) hin
  have h1 : Track cfg made n a₀ st₀ a _ :=
    h.compacted (N := index) (c := rf.commitIndex) .refl rfl rfl hin
      (h.mem.committed.shorter (List.take_prefix_take_left hi)) hmade { h.mem with snapLe := hi }
  rw [he, h.views.suffix (by omega) hin]
  rw [← hte] at h1
  exact ⟨_, rfl, h1, fun e => ⟨e, rfl, rfl⟩, le_refl _⟩

/-- **The batch of `sendApplyMsg`** says what is committed. -/
theorem applyBatch (h : Track cfg made n a₀ st₀ a rf) :
    ∃ msgs, rf.sendApplyMsg = some ({ rf with appliedIndex := rf.commitIndex }, msgs) ∧
      Track cfg made n a₀ st₀ a { rf with appliedIndex := rf.commitIndex } ∧
      ∀ msg ∈ msgs, MsgOk cfg made a msg ∧ msg.index ≤ rf.commitIndex := by
  obtain ⟨msgs, hrun, hmsgs⟩ :=
    h.views.sendApplyMsg_spec h.mem.snapLe h.mem.commitLe h.mem.appliedLe
  refine ⟨msgs, hrun, h.quiet rfl rfl .refl h.disk { h.mem with appliedLe := le_refl _ }, ?_⟩
  intro msg hmsg
  rcases hmsgs msg hmsg with ⟨hcv, hsv, hsnap, hne, hsi⟩ | ⟨hcv, hsv, j, e, hci, hj, hl, hcmd⟩
  · obtain ⟨data, hdata⟩ := Option.ne_none_iff_exists'.mp hne
    obtain ⟨m, hm⟩ := h.disk.snap.2 data hdata
    refine ⟨⟨fun hc => ?_, fun _ => ⟨m, data, hsnap.trans hdata, hsi ▸ hm⟩⟩, ?_⟩
    · rw [hcv] at hc
      cases hc
    · unfold ApplyMsg.index
      rw [if_pos hsv, hsi]
      exact h.mem.snapLe
  · have hlen : j < (a.log n).length := (List.getElem?_eq_some_iff.mp hl).1
    have hsplit : (a.log n).take (j + 1) = (a.log n).take j ++ [e] := by
      rw [List.take_add_one, hl]
      rfl
    refine ⟨⟨fun _ => ⟨a.term n, (a.log n).take j, e, ?_, ?_, hcmd⟩, fun hs => ?_⟩, ?_⟩
    · rw [← hsplit]
      exact h.mem.committed.shorter (List.take_prefix_take_left hj)
    · rw [hci, List.length_take]
      omega
    · rw [hsv] at hs
      cases hs
    · unfold ApplyMsg.index
      rw [hsv, if_neg (by simp), hci]
      exact hj

/-- **What a leader ships** is its log, or its snapshot. -/
theorem heartbeatArgs (h : Track cfg made n a₀ st₀ a rf) (hr : rf.customerId = .leader)
    (id : NodeID) :
    ∃ args, rf.heartbeatArgs n id = some args ∧ args.leaderId = n ∧
      EntriesOk cfg made a args := by
  obtain ⟨args, hrun, hterm, hid, hlc, hsi, hst, hor⟩ :=
    h.views.heartbeatArgs_spec h.disk.snap.1 n id
  have hlead := h.mem.leader hr
  have hlog : a.log n = a.llog (a.term n) := h.inv.leaderLog hlead rfl
  have ht : args.term = a.term n := hterm.trans h.term
  refine ⟨args, hrun, hid, by rw [ht, hlead]; simp, fun hnone => ?_, fun data hdata => ?_⟩
  · rcases hor with ⟨hne, _⟩ | ⟨_, hprev, hpt, hes⟩
    · exact absurd hnone hne
    have hlen : args.prevLogIndex + args.entries.length = (a.log n).length := by
      rw [hes, List.length_drop]
      omega
    rw [ht, ← hlog]
    refine ⟨hlen.le, hpt, ?_, ?_, ?_⟩
    · have hall : args.entries.take args.entries.length = args.entries := List.take_length
      rw [← hes]
      exact hall.symm
    · rw [hlc, hlen]
      exact h.mem.commitLe
    · rw [hlc]
      exact h.mem.committed
  · rw [ht, ← hlog, hsi]
    rcases hor with ⟨_, hsnap⟩ | ⟨hnone, _⟩
    · refine ⟨h.disk.le, hst, h.disk.committed, h.disk.snap.2 data ?_⟩
      rw [← hdata, hsnap]
      rfl
    · rw [hdata] at hnone
      cases hnone

end Track

/-- A list traversed without failure. -/
theorem mapM_some {α β : Type} {f : α → Option β} {P : β → Prop} (l : List α)
    (h : ∀ x ∈ l, ∃ y, f x = some y ∧ P y) : ∃ ys, l.mapM f = some ys ∧ ∀ y ∈ ys, P y := by
  induction l with
  | nil => exact ⟨[], rfl, fun y hy => absurd hy List.not_mem_nil⟩
  | cons x l ih =>
      obtain ⟨y, hy, hP⟩ := h x List.mem_cons_self
      obtain ⟨ys, hys, hPs⟩ := ih fun x' hx' => h x' (List.mem_cons_of_mem _ hx')
      refine ⟨y :: ys, by rw [List.mapM_cons, hy, hys]; rfl, fun z hz => ?_⟩
      rcases List.mem_cons.mp hz with rfl | hz
      · exact hP
      · exact hPs z hz

theorem Track.startHeartbeat (h : Track cfg made n a₀ st₀ a rf) :
    ∃ msgs, rf.startHeartbeat n cfg.nodeIDs = some msgs ∧
      ∀ x ∈ msgs, PacketOk cfg made a ⟨n, x.1, .appendEntries x.2⟩ := by
  unfold Raft.startHeartbeat
  by_cases hr : rf.customerId ≠ .leader
  · rw [if_pos hr]
    exact ⟨[], rfl, fun x hx => absurd hx List.not_mem_nil⟩
  · rw [if_neg hr]
    refine mapM_some _ fun id hid => ?_
    have hne : id ≠ n := by simpa using (List.mem_filter.mp hid).2
    obtain ⟨args, hrun, hlid, hE⟩ := h.heartbeatArgs (not_not.mp hr) id
    exact ⟨(id, args), by rw [hrun]; rfl, hlid, hne.symm, hE⟩

omit [Inhabited Cmd] in
/-- The requests of an election just begun. -/
theorem packetOk_voteCalls {t₀ : ℕ} {rf' : Raft NodeID Cmd} {round : ElectionRound}
    (hb : Began a n t₀ rf' round) :
    ∀ x ∈ (voteCalls cfg n (some round) : List (NodeID × Call NodeID Cmd)),
      PacketOk cfg made a ⟨n, x.1, x.2⟩ := by
  intro x hx
  simp only [voteCalls, Raft.sendRequestVotes, List.mem_map, List.mem_filter] at hx
  obtain ⟨y, ⟨id, hid, rfl⟩, rfl⟩ := hx
  obtain ⟨l, hc, hi, ht⟩ := hb.stands
  exact ⟨rfl, hid.1, l, hc, hi, ht⟩

/-! ## 2. One critical section -/

/-- What the section `o` of process `p` owes, where it has moved the record to `a`. -/
structure SectionOk (cfg : Config NodeID) (made : List (NodeID × ℕ × Bytes)) (n : NodeID)
    (a₀ : Record NodeID Cmd) (st₀ : PersistState NodeID Cmd) (p : Proc NodeID Cmd)
    (o : Outcome NodeID Cmd) (a : Record NodeID Cmd) : Prop where
  track : Track cfg made n a₀ st₀ a o.proc.rf
  poll : PollOk cfg a n o.proc.rf o.proc.calls
  applying : ∀ msg ∈ o.proc.applying, MsgOk cfg made a msg ∧ msg.index ≤ o.proc.rf.commitIndex
  delivered : o.proc.delivered ≤ o.proc.rf.commitIndex
  calls : ∀ x ∈ o.proc.calls, x ∈ p.calls ∨ x ∈ o.out
  out : ∀ x ∈ o.out, PacketOk cfg made a ⟨n, x.1, x.2⟩
  answer : ∀ x, o.answer = some x → ReplyOk a x.1 x.2
  sent : ∀ msg ∈ o.sent, MsgOk cfg made a msg

/-- The index a process has handed over, and what it is handing over, stay good while
    `commitIndex` does not go back. -/
theorem ProcOk.applying_mono {p : Proc NodeID Cmd} {rf' : Raft NodeID Cmd}
    (h : ProcOk cfg made a₀ n p) (hx : Ext a₀ a) (hc : p.rf.commitIndex ≤ rf'.commitIndex) :
    ∀ msg ∈ p.applying, MsgOk cfg made a msg ∧ msg.index ≤ rf'.commitIndex :=
  fun msg hmsg => ⟨(h.applying msg hmsg).1.mono hx (List.Subset.refl _),
    (h.applying msg hmsg).2.trans hc⟩

/-- A section that keeps the poll, sends nothing and hands nothing over. -/
theorem SectionOk.ofKeeps {p : Proc NodeID Cmd} {rf' : Raft NodeID Cmd} {o : Outcome NodeID Cmd}
    (hI : Inv cfg.quorums tm a₀) (hp : ProcOk cfg made a₀ n p)
    (ht : Track cfg made n a₀ st₀ a rf') (hk : KeepsPoll p.rf rf') (hrf : o.proc.rf = rf')
    (hcalls : o.proc.calls.Sublist p.calls) (happ : o.proc.applying = p.applying)
    (hdel : o.proc.delivered = p.delivered) (hout : o.out = []) (hsent : o.sent = [])
    (hans : ∀ x, o.answer = some x → ReplyOk a x.1 x.2) :
    SectionOk cfg made n a₀ st₀ p o a := by
  have hx := ht.ext hI
  subst hrf
  refine ⟨ht, ?_, ?_, ?_, fun x hxc => Or.inl (hcalls.subset hxc), ?_, hans, ?_⟩
  · exact hp.poll.mono hx hk.round fun _ _ => hcalls.countP_le
  · rw [happ]
    exact hp.applying_mono hx hk.commit
  · rw [hdel]
    exact hp.delivered.trans hk.commit
  · rw [hout]
    exact fun x hx => absurd hx List.not_mem_nil
  · rw [hsent]
    exact fun x hx => absurd hx List.not_mem_nil

/-- A section that sends requests other than votes. -/
theorem SectionOk.ofSending {p : Proc NodeID Cmd} {out : List (NodeID × Call NodeID Cmd)}
    (hI : Inv cfg.quorums tm a₀) (hp : ProcOk cfg made a₀ n p)
    (ht : Track cfg made n a₀ st₀ a p.rf)
    (hout : ∀ x ∈ out, PacketOk cfg made a ⟨n, x.1, x.2⟩)
    (hno : ∀ t d, out.countP (isVoteCall t d) = 0) :
    SectionOk cfg made n a₀ st₀ p (Outcome.sending p p.rf out) a := by
  have hx := ht.ext hI
  refine ⟨ht, ?_, hp.applying_mono hx (le_refl _), hp.delivered, fun x hxc => ?_, hout,
    fun x e => (by cases e), fun x hx => absurd hx List.not_mem_nil⟩
  · refine hp.poll.mono hx (fun e => ⟨e, rfl, rfl⟩) fun t d => ?_
    show (p.calls ++ out).countP _ ≤ _
    rw [List.countP_append, hno, Nat.add_zero]
  · exact List.mem_append.mp hxc

/-- A section that may begin an election. -/
theorem SectionOk.ofRound {p : Proc NodeID Cmd} {rf' : Raft NodeID Cmd}
    {round : Option ElectionRound} (timer : Option ℕ)
    (answer : Option (Packet NodeID Cmd × Answer)) (hI : Inv cfg.quorums tm a₀)
    (hn : n ∈ cfg.nodeIDs) (hp : ProcOk cfg made a₀ n p)
    (ht : Track cfg made n a₀ st₀ a rf') (hr : Track.RoundOk a n p.rf rf' round)
    (hcalls : ∀ x ∈ p.calls, ∀ args, x.2 = .requestVote args → args.term ≤ p.rf.term)
    (hans : ∀ x, answer = some x → ReplyOk a x.1 x.2) :
    SectionOk cfg made n a₀ st₀ p
      { Outcome.sending { p with timer := timer } rf' (voteCalls cfg n round) with
        answer := answer } a := by
  have hx := ht.ext hI
  cases round with
  | none =>
      refine SectionOk.ofKeeps hI hp ht hr rfl ?_ rfl rfl rfl rfl hans
      show (p.calls ++ []).Sublist p.calls
      rw [List.append_nil]
  | some round =>
      obtain ⟨hb, hc⟩ := hr
      refine ⟨ht, PollOk.began hn hb hcalls, hp.applying_mono hx hc, hp.delivered.trans hc,
        fun x hxc => ?_, packetOk_voteCalls hb, hans, fun x hx => absurd hx List.not_mem_nil⟩
      exact List.mem_append.mp hxc

end Sections

section Steps

variable {cfg : Config NodeID} {c c' : Cluster NodeID Cmd} {a a' : Record NodeID Cmd} {n : NodeID}

/-- A section of a process in a good cluster begins on the record. -/
theorem Sim.enter (h : Sim cfg c a) (n : NodeID) :
    Track cfg c.made n a (c.disk n) a (c.node n).rf := by
  rw [h.disk n]
  exact Track.enter h.inv (h.wal n) (h.proc n).disk (h.proc n).mem

/-- Waiting vote requests are of terms the node has reached. -/
theorem Sim.voteCalls_le (h : Sim cfg c a) (n : NodeID) :
    ∀ x ∈ (c.node n).calls, ∀ args, x.2 = .requestVote args → args.term ≤ (c.node n).rf.term := by
  intro x hx args e
  have hpk := h.net _ (h.calls n x hx)
  unfold PacketOk at hpk
  rw [e] at hpk
  obtain ⟨_, _, l, hc, _⟩ := hpk
  have := h.inv.candTerm hc
  rw [(h.enter n).term]
  exact this

theorem execDeliver_ok (h : Sim cfg c a) (hn : n ∈ cfg.nodeIDs) {pkt : Packet NodeID Cmd}
    (hpkt : pkt ∈ c.net) (hdst : pkt.dst = n) :
    ∃ o a', execDeliver cfg n (c.node n) pkt = some o ∧ o.made = [] ∧
      SectionOk cfg c.made n a (c.disk n) (c.node n) o a' ∧
      (c.node n).rf.commitIndex ≤ o.proc.rf.commitIndex := by
  have hpk := h.net pkt hpkt
  have h0 := h.enter n
  unfold PacketOk at hpk
  unfold execDeliver
  cases hc : pkt.call with
  | requestVote args =>
      rw [hc] at hpk
      obtain ⟨hid, _, l, hcand, hi, ht⟩ := hpk
      rw [← hid] at hcand
      obtain ⟨rf', reply, a', he, h1, hk, hv⟩ := h0.requestVote args h.inv hcand hi ht
      simp only [he, Option.bind_eq_bind, Option.bind_some]
      refine ⟨_, a', rfl, rfl, SectionOk.ofKeeps h.inv (h.proc n) h1 hk rfl (List.Sublist.refl _)
        rfl rfl rfl rfl fun x e => ?_, hk.commit⟩
      cases e
      unfold ReplyOk
      rw [hc, hdst]
      exact hv
  | appendEntries args =>
      rw [hc] at hpk
      obtain ⟨hid, hne, hE⟩ := hpk
      have hlid : args.leaderId ≠ n := by
        rw [hid, ← hdst]
        exact hne
      obtain ⟨rf', reply, a', he, h1, hk, hack⟩ := h0.appendEntriesHandler h.inv hE hlid
      simp only [he, Option.bind_eq_bind, Option.bind_some]
      refine ⟨_, a', rfl, rfl, SectionOk.ofKeeps h.inv (h.proc n) h1 hk rfl (List.Sublist.refl _)
        rfl rfl rfl rfl fun x e => ?_, hk.commit⟩
      cases e
      unfold ReplyOk
      rw [hc, hdst]
      exact hack
  | timeoutNow args =>
      obtain ⟨rf', reply, round, a', he, h1, hr⟩ := h0.timeoutNow args
      simp only [he, Option.bind_eq_bind, Option.bind_some]
      refine ⟨_, a', rfl, rfl, SectionOk.ofRound _ _ h.inv hn (h.proc n) h1 hr
        (h.voteCalls_le n) fun x e => ?_, hr.commit⟩
      cases e
      unfold ReplyOk
      rw [hc]
      trivial

theorem execReply_ok (h : Sim cfg c a) (hn : n ∈ cfg.nodeIDs) {k : ℕ} {answer : Answer}
    {x : NodeID × Call NodeID Cmd} (hk : (c.node n).calls[k]? = some x)
    (hx : (⟨n, x.1, x.2⟩, answer) ∈ c.replies) :
    ∃ o a', execReply cfg n (c.node n) k answer = some o ∧ o.made = [] ∧
      SectionOk cfg c.made n a (c.disk n) (c.node n) o a' ∧
      (c.node n).rf.commitIndex ≤ o.proc.rf.commitIndex := by
  obtain ⟨server, call⟩ := x
  have hre := h.replies _ hx
  have hpk := h.net _ (h.calls n _ (List.mem_of_getElem? hk))
  have h0 := h.enter n
  have hsub : ((c.node n).calls.eraseIdx k).Sublist (c.node n).calls := List.eraseIdx_sublist _ _
  unfold ReplyOk at hre
  unfold execReply
  rw [hk]
  simp only [Option.bind_eq_bind, Option.bind_some]
  cases call with
  | requestVote args =>
      cases answer with
      | requestVote reply =>
          obtain ⟨hid, hd, _⟩ := hpk
          have hid' : args.candidateId = n := hid
          have hv : reply.voteGranted = true → a.vote args.term server = some n := by
            rw [← hid']
            exact hre
          obtain ⟨a', h1, hpoll, hc⟩ := h0.sendRequestVote (h.proc n).poll hk hd hv
          refine ⟨_, a', rfl, rfl, ⟨h1, hpoll, ?_, ?_, fun x hx => Or.inl (hsub.subset hx),
            fun x hx => absurd hx List.not_mem_nil, fun x e => (by cases e),
            fun x hx => absurd hx List.not_mem_nil⟩, hc.ge⟩
          · exact (h.proc n).applying_mono (h1.ext h.inv) hc.ge
          · exact (h.proc n).delivered.trans hc.ge
      | appendEntries reply => exact hre.elim
      | timeoutNow reply => exact hre.elim
  | appendEntries args =>
      cases answer with
      | appendEntries reply =>
          obtain ⟨rf', a', he, h1, hkeep⟩ := h0.sendAppendEntries hn hre
          dsimp only
          rw [he]
          exact ⟨_, a', rfl, rfl, SectionOk.ofKeeps h.inv (h.proc n) h1 hkeep rfl hsub rfl rfl rfl
            rfl fun x e => (by cases e), hkeep.commit⟩
      | requestVote reply => exact hre.elim
      | timeoutNow reply => exact hre.elim
  | timeoutNow args =>
      cases answer with
      | timeoutNow reply =>
          dsimp only [Raft.transferReply]
          by_cases hgt : reply.term > (c.node n).rf.term
          · rw [if_pos hgt]
            exact ⟨_, _, rfl, rfl, SectionOk.ofKeeps h.inv (h.proc n) (h0.stepDown hgt)
              ⟨fun e => (by cases e), le_refl _⟩ rfl hsub rfl rfl rfl rfl
              fun x e => (by cases e), le_refl _⟩
          · rw [if_neg hgt]
            exact ⟨_, _, rfl, rfl, SectionOk.ofKeeps h.inv (h.proc n) h0 (KeepsPoll.refl _) rfl
              hsub rfl rfl rfl rfl fun x e => (by cases e), le_refl _⟩
      | requestVote reply => exact hre.elim
      | appendEntries reply => exact hre.elim

/-- **Every enabled event runs to its end** and leaves what it must; `commitIndex` does not go
    back. -/
theorem exec_ok (h : Sim cfg c a) (hn : n ∈ cfg.nodeIDs) {ev : Event NodeID Cmd}
    (hev : c.Enabled n ev) :
    ∃ o a', exec cfg n (c.node n) ev = some o ∧
      SectionOk cfg (c.made ++ o.made.map fun x => (n, x.1, x.2)) n a (c.disk n) (c.node n) o
        a' ∧
      (c.node n).rf.commitIndex ≤ o.proc.rf.commitIndex := by
  have h0 := h.enter n
  have hp := h.proc n
  -- but for `Snapshot` no section produces a snapshot
  have hquiet : ∀ {o : Outcome NodeID Cmd} {a' : Record NodeID Cmd},
      exec cfg n (c.node n) ev = some o → o.made = [] →
      SectionOk cfg c.made n a (c.disk n) (c.node n) o a' →
      (c.node n).rf.commitIndex ≤ o.proc.rf.commitIndex →
      ∃ o a', exec cfg n (c.node n) ev = some o ∧
        SectionOk cfg (c.made ++ o.made.map fun x => (n, x.1, x.2)) n a (c.disk n) (c.node n) o
          a' ∧
        (c.node n).rf.commitIndex ≤ o.proc.rf.commitIndex := by
    intro o a' he hm hs hc
    refine ⟨o, a', he, ?_, hc⟩
    rw [hm, List.map_nil, List.append_nil]
    exact hs
  cases ev with
  | tickerArm =>
      exact hquiet rfl rfl (SectionOk.ofKeeps h.inv hp h0 (KeepsPoll.refl _) rfl
        (List.Sublist.refl _) rfl rfl rfl rfl fun x e => by cases e) (le_refl _)
  | tickerFire =>
      obtain ⟨generation, hg⟩ := Option.ne_none_iff_exists'.mp hev
      obtain ⟨rf', round, a', he, h1, hr⟩ := h0.tickerFire generation
      refine hquiet ?_ rfl (SectionOk.ofRound none none h.inv hn hp h1 hr
        (h.voteCalls_le n) fun x e => by cases e) hr.commit
      simp only [exec, hg, he, Option.bind_eq_bind, Option.bind_some]
      rfl
  | tickerReset =>
      have h1 : Track cfg c.made n a (c.disk n) a { (c.node n).rf with resetCh := false } :=
        h0.quiet rfl rfl .refl h0.disk { h0.mem with }
      exact hquiet rfl rfl (SectionOk.ofKeeps h.inv hp h1 ⟨fun e => ⟨e, rfl, rfl⟩, le_refl _⟩ rfl
        (List.Sublist.refl _) rfl rfl rfl rfl fun x e => by cases e) (le_refl _)
  | deliver pkt =>
      obtain ⟨o, a', he, hm, hs, hc⟩ := execDeliver_ok h hn hev.1 hev.2
      exact hquiet he hm hs hc
  | reply k answer =>
      obtain ⟨x, hk, hx⟩ := hev
      obtain ⟨o, a', he, hm, hs, hc⟩ := execReply_ok h hn hk hx
      exact hquiet he hm hs hc
  | callFailed k =>
      exact hquiet rfl rfl (SectionOk.ofKeeps h.inv hp h0 (KeepsPoll.refl _) rfl
        (List.eraseIdx_sublist _ _) rfl rfl rfl rfl fun x e => by cases e) (le_refl _)
  | start command =>
      obtain ⟨a', h1, hk⟩ := h0.start command
      exact hquiet rfl rfl (SectionOk.ofKeeps h.inv hp h1 hk rfl (List.Sublist.refl _) rfl rfl rfl
        rfl fun x e => by cases e) hk.commit
  | heartbeat =>
      obtain ⟨msgs, he, hmsgs⟩ := h0.startHeartbeat
      refine hquiet (o := Outcome.sending (c.node n) (c.node n).rf
        (msgs.map fun x => (x.1, .appendEntries x.2))) ?_ rfl
        (SectionOk.ofSending h.inv hp h0 ?_ ?_) (le_refl _)
      · simp [exec, he]
      · intro x hx
        obtain ⟨y, hy, rfl⟩ := List.mem_map.mp hx
        exact hmsgs y hy
      · intro t d
        rw [List.countP_map]
        exact List.countP_eq_zero.mpr fun x _ => by simp [isVoteCall]
  | applyBatch =>
      obtain ⟨msgs, he, h1, hmsgs⟩ := h0.applyBatch
      refine hquiet (by simp [exec, he]; rfl) rfl ⟨h1, ?_, hmsgs, hp.delivered,
        fun x hx => Or.inl hx, fun x hx => absurd hx List.not_mem_nil, fun x e => (by cases e),
        fun x hx => absurd hx List.not_mem_nil⟩ (le_refl _)
      exact hp.poll.mono (Ext.refl a) (fun e => ⟨e, rfl, rfl⟩) fun _ _ => le_refl _
  | apply =>
      obtain ⟨msg, rest, hl⟩ := List.exists_cons_of_ne_nil hev
      have hmsg := hp.applying msg (by rw [hl]; exact List.mem_cons_self)
      refine hquiet (by simp [exec, hl]; rfl) rfl ⟨h0, hp.poll, fun m hm => ?_, hmsg.2,
        fun x hx => Or.inl hx, fun x hx => absurd hx List.not_mem_nil, fun x e => (by cases e),
        fun m hm => ?_⟩ (le_refl _)
      · exact hp.applying m (by rw [hl]; exact List.mem_cons_of_mem _ hm)
      · rw [List.mem_singleton.mp hm]
        exact hmsg.1
  | snapshot index data =>
      obtain ⟨hi, _⟩ := hev
      have hsub : c.made ⊆ c.made ++ [(n, index, data)] := List.subset_append_left _ _
      have h0' : Track cfg (c.made ++ [(n, index, data)]) n a (c.disk n) a (c.node n).rf := by
        rw [h.disk n]
        exact Track.enter h.inv (h.wal n) (hp.disk.made_mono hsub) hp.mem
      obtain ⟨rf', he, h1, hk⟩ := h0'.snapshotUpTo (m := n) (hi.trans hp.delivered)
        (List.mem_append_right _ List.mem_cons_self)
      refine ⟨{ proc := { c.node n with rf := rf' }, made := [(index, data)] }, a,
        by simp [exec, he], ?_, hk.commit⟩
      refine SectionOk.ofKeeps h.inv ?_ h1 hk rfl (List.Sublist.refl _) rfl rfl rfl rfl
        fun x e => by cases e
      exact ⟨hp.disk.made_mono hsub, hp.mem, hp.poll,
        fun msg hm => ⟨(hp.applying msg hm).1.mono (Ext.refl a) hsub, (hp.applying msg hm).2⟩,
        hp.delivered⟩
  | transferLeadership =>
      cases ht : (c.node n).rf.transferLeadership n cfg.nodeIDs with
      | none =>
          exact hquiet (by simp [exec, ht]; rfl) rfl (SectionOk.ofKeeps h.inv hp h0
            (KeepsPoll.refl _) rfl (List.Sublist.refl _) rfl rfl rfl rfl fun x e => by cases e)
            (le_refl _)
      | some x =>
          obtain ⟨target, args⟩ := x
          refine hquiet (o := Outcome.sending (c.node n) (c.node n).rf
            [(target, .timeoutNow args)]) (by simp [exec, ht]) rfl
            (SectionOk.ofSending h.inv hp h0 ?_ ?_) (le_refl _)
          · intro x hx
            rw [List.mem_singleton.mp hx]
            trivial
          · intro t d
            simp [isVoteCall]

/-! ## 3. One step and whole runs -/

/-- What other nodes and everything sent say survives the steps of node `n`. -/
theorem Sim.complete (h : Sim cfg c a) {o : Outcome NodeID Cmd} {st : PersistState NodeID Cmd}
    (ho : SectionOk cfg (c.made ++ o.made.map fun x => (n, x.1, x.2)) n a (c.disk n) (c.node n) o
      a')
    (hst : (c.disk n).applyAll o.proc.rf.wal = some st) : Sim cfg (c.complete n o st) a' := by
  obtain ⟨hI, hx, hoth⟩ := run_later ho.track.run h.inv
  have hsub : c.made ⊆ c.made ++ o.made.map fun x => (n, x.1, x.2) := List.subset_append_left _ _
  obtain rfl : o.proc.rf.persist = st := Option.some.inj (ho.track.full.symm.trans hst)
  refine ⟨hI, fun m => ?_, fun m => ?_, fun m => ?_, fun m x hxm => ?_, fun pkt hpkt => ?_,
    fun x hxr => ?_, fun x hxs => ?_⟩
  · by_cases hm : m = n
    · subst hm
      simp only [Cluster.complete, Function.update_self]
      rfl
    · simp only [Cluster.complete, Function.update_of_ne hm]
      exact h.disk m
  · by_cases hm : m = n
    · subst hm
      simp only [Cluster.complete, Function.update_self]
    · simp only [Cluster.complete, Function.update_of_ne hm]
      exact h.wal m
  · by_cases hm : m = n
    · subst hm
      simp only [Cluster.complete, Function.update_self]
      exact ⟨ho.track.disk, { ho.track.mem with }, ho.poll, ho.applying, ho.delivered⟩
    · simp only [Cluster.complete, Function.update_of_ne hm]
      exact (h.proc m).frame hx hoth hm hsub
  · have hout : ∀ y ∈ o.out, (⟨n, y.1, y.2⟩ : Packet NodeID Cmd) ∈
        c.net ++ o.out.map fun x => ⟨n, x.1, x.2⟩ :=
      fun y hy => List.mem_append_right _ (List.mem_map.mpr ⟨y, hy, rfl⟩)
    by_cases hm : m = n
    · subst hm
      simp only [Cluster.complete, Function.update_self] at hxm
      rcases ho.calls x hxm with hold | hnew
      · exact List.mem_append_left _ (h.calls m x hold)
      · exact hout x hnew
    · simp only [Cluster.complete, Function.update_of_ne hm] at hxm
      exact List.mem_append_left _ (h.calls m x hxm)
  · rcases List.mem_append.mp hpkt with hold | hnew
    · exact (h.net pkt hold).mono hx hsub
    · obtain ⟨y, hy, rfl⟩ := List.mem_map.mp hnew
      exact ho.out y hy
  · rcases List.mem_append.mp hxr with hold | hnew
    · exact (h.replies x hold).mono hx
    · exact ho.answer x (Option.mem_toList.mp hnew)
  · rcases List.mem_append.mp hxs with hold | hnew
    · exact (h.sent x hold).mono hx hsub
    · obtain ⟨msg, hmsg, rfl⟩ := List.mem_map.mp hnew
      exact ho.sent msg hmsg

/-- A process started from a good disk. -/
theorem procOk_boot {made : List (NodeID × ℕ × Bytes)} {st : PersistState NodeID Cmd}
    (hd : DiskOk cfg made a n st) : ProcOk cfg made a n (Proc.boot st) where
  disk := hd
  mem := {
    snapLe := le_refl _
    commitLe := hd.le
    appliedLe := le_refl _
    committed := hd.committed
    leads := ⟨fun e => (by cases e), fun e => (by cases e)⟩
    leader := fun e => (by cases e)
    matched := fun e => (by cases e)
    stands := fun e => (by cases e) }
  poll e := by cases e
  applying msg hm := absurd hm List.not_mem_nil
  delivered := le_refl _

/-- A crash that leaves a good disk. -/
theorem Sim.reboot (h : Sim cfg c a) (made : List (ℕ × Bytes)) {st : PersistState NodeID Cmd}
    (hrun : ReflTransGen (Move cfg n) a a')
    (hd : DiskOk cfg (c.made ++ made.map fun x => (n, x.1, x.2)) a' n st) :
    Sim cfg (c.reboot n made st) a' := by
  obtain ⟨hI, hx, hoth⟩ := run_later hrun h.inv
  have hsub : c.made ⊆ c.made ++ made.map fun x => (n, x.1, x.2) := List.subset_append_left _ _
  refine ⟨hI, fun m => ?_, fun m => ?_, fun m => ?_, fun m x hxm => ?_, fun pkt hpkt => ?_,
    fun x hxr => ?_, fun x hxs => ?_⟩
  · by_cases hm : m = n
    · subst hm
      simp only [Cluster.reboot, Function.update_self]
      rfl
    · simp only [Cluster.reboot, Function.update_of_ne hm]
      exact h.disk m
  · by_cases hm : m = n
    · subst hm
      simp only [Cluster.reboot, Function.update_self]
      rfl
    · simp only [Cluster.reboot, Function.update_of_ne hm]
      exact h.wal m
  · by_cases hm : m = n
    · subst hm
      simp only [Cluster.reboot, Function.update_self]
      exact procOk_boot hd
    · simp only [Cluster.reboot, Function.update_of_ne hm]
      exact (h.proc m).frame hx hoth hm hsub
  · by_cases hm : m = n
    · subst hm
      simp only [Cluster.reboot, Function.update_self] at hxm
      exact absurd hxm List.not_mem_nil
    · simp only [Cluster.reboot, Function.update_of_ne hm] at hxm
      exact h.calls m x hxm
  · exact (h.net pkt hpkt).mono hx hsub
  · exact (h.replies x hxr).mono hx
  · exact (h.sent x hxs).mono hx hsub

/-- An abstract step of some node. -/
def AnyMove (cfg : Config NodeID) (a a' : Record NodeID Cmd) : Prop := ∃ n, Move cfg n a a'

/-- **One step of the cluster** is a run of one node's abstract steps. -/
theorem Sim.step (h : Sim cfg c a) (hs : c.Step cfg c') :
    ∃ a', ReflTransGen (AnyMove cfg) a a' ∧ Sim cfg c' a' := by
  have lift : ∀ {n : NodeID} {a' : Record NodeID Cmd}, ReflTransGen (Move cfg n) a a' →
      ReflTransGen (AnyMove cfg) a a' := fun hr => hr.lift id fun _ _ hm => ⟨_, hm⟩
  cases hs with
  | run n hn ev hev o ho st hst =>
      obtain ⟨o', a', he, hsec, _⟩ := exec_ok h hn hev
      obtain rfl : o' = o := Option.some.inj (he.symm.trans ho)
      exact ⟨a', lift hsec.track.run, h.complete hsec hst⟩
  | crash n hn ev hev o ho k j st hst =>
      obtain ⟨o', a', he, hsec, _⟩ := exec_ok h hn hev
      obtain rfl : o' = o := Option.some.inj (he.symm.trans ho)
      obtain ⟨a'', hrun, hd⟩ := hsec.track.torn k j st hst
      exact ⟨a'', lift hrun, h.reboot o'.made hrun hd⟩
  | restart n hn =>
      refine ⟨a, .refl, h.reboot (n := n) [] .refl ?_⟩
      rw [List.map_nil, List.append_nil, h.disk n]
      exact (h.proc n).disk

theorem sim_init (cfg : Config NodeID) :
    Sim cfg (Cluster.init : Cluster NodeID Cmd) TermLog.init where
  inv := inv_init _
  disk _ := rfl
  wal _ := rfl
  proc n := by
    refine procOk_boot ⟨rfl, rfl, rfl, Nat.zero_le _, CommittedBy.nil _ _, fun _ => rfl, ?_⟩
    intro data e
    cases e
  calls n x hx := absurd hx List.not_mem_nil
  net pkt hpkt := absurd hpkt List.not_mem_nil
  replies x hx := absurd hx List.not_mem_nil
  sent x hx := absurd hx List.not_mem_nil

omit [Inhabited Cmd] in
theorem ext_of_moves (hr : ReflTransGen (AnyMove cfg) a a') : Ext a a' := by
  induction hr with
  | refl => exact Ext.refl a
  | tail _ hs ih =>
      obtain ⟨n, hm⟩ := hs
      exact ih.trans hm.ext

/-- **A run of the cluster** is a run of the record, which only grows. -/
theorem Sim.run (h : Sim cfg c a) (hr : Cluster.Run cfg c c') :
    ∃ a', Ext a a' ∧ Sim cfg c' a' := by
  obtain ⟨a', hmoves, h'⟩ := run_sim (R := Sim cfg) (fun _ _ _ hs hR => hR.step hs) hr h
  exact ⟨a', ext_of_moves hmoves, h'⟩

theorem reachable_sim (hr : Cluster.Reachable cfg c) : ∃ a, Sim cfg c a := by
  obtain ⟨a, _, h⟩ := (sim_init cfg).run hr
  exact ⟨a, h⟩

end Steps

end RaftLab.Raft1

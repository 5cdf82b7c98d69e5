/-
  File:      RaftLab/Raft1/Majority.lean
  Subject:   What a majority can do by itself: elect a leader, from any state.

  `StepOf` is a step of the servers in `Q`: none of them crashes, and none hears a server outside
  of `Q`. From every reachable state a majority has such a run to a leader of a new term:

  * if all of `Q` lead, in different terms, the latest of them makes another one a follower;
  * a follower or candidate times out until its term is later than every term in `Q`, and its vote
    requests bring all of `Q` into that term (`exists_rallied`);
  * the server with the most recent log times out once more, and all of `Q` vote for it
    (`exists_elected`).
-/
import RaftLab.Raft1.CommitRule
import Mathlib.Data.Finset.Max
import Mathlib.Data.Prod.Lex

namespace RaftLab.Raft1

open RaftLab.Lib RaftLab.Lib.TermLog Relation Cluster

variable {NodeID Cmd : Type} [DecidableEq NodeID] [Inhabited Cmd]

/-! ## 1. The steps of a part of the servers -/

/-- The server that an event hears, if any, is in `Q`. -/
def Heard (Q : Finset NodeID) (p : Proc NodeID Cmd) : Event NodeID Cmd → Prop
  | .deliver pkt => pkt.src ∈ Q
  | .reply k _ => ∀ x ∈ p.calls[k]?, x.1 ∈ Q
  | _ => True

/-- A step of the servers in `Q` alone. -/
inductive Cluster.StepOf (cfg : Config NodeID) (Q : Finset NodeID) :
    Cluster NodeID Cmd → Cluster NodeID Cmd → Prop where
  | run {c : Cluster NodeID Cmd} (n : NodeID) (hn : n ∈ Q) (ev : Event NodeID Cmd)
      (hev : c.Enabled n ev) (hheard : Heard Q (c.node n) ev) (o : Outcome NodeID Cmd)
      (ho : exec cfg n (c.node n) ev = some o) (st : PersistState NodeID Cmd)
      (hst : (c.disk n).applyAll o.proc.rf.wal = some st) : StepOf cfg Q c (c.complete n o st)

/-- A run of the servers in `Q` alone. -/
abbrev Cluster.Within (cfg : Config NodeID) (Q : Finset NodeID) :
    Cluster NodeID Cmd → Cluster NodeID Cmd → Prop := ReflTransGen (StepOf cfg Q)

/-- What a section of `n` leaves behind. -/
structure Took (c : Cluster NodeID Cmd) (n : NodeID) (o : Outcome NodeID Cmd)
    (c' : Cluster NodeID Cmd) : Prop where
  self : c'.node n = { o.proc with rf := { o.proc.rf with wal := [] } }
  others : ∀ m, m ≠ n → c'.node m = c.node m
  replies : c'.replies = c.replies ++ o.answer.toList
  sent : c'.sent = c.sent ++ o.sent.map fun msg => (n, msg)

section Part

variable {cfg : Config NodeID} {Q : Finset NodeID} {c c' : Cluster NodeID Cmd} {n m : NodeID}

theorem Cluster.StepOf.step (hQ : Q ⊆ cfg.nodeIDs.toFinset) (h : StepOf cfg Q c c') :
    Step cfg c c' := by
  cases h with
  | run n hn ev hev _ o ho st hst => exact .run n (List.mem_toFinset.mp (hQ hn)) ev hev o ho st hst

theorem Cluster.Within.run (hQ : Q ⊆ cfg.nodeIDs.toFinset) (h : Within cfg Q c c') :
    Run cfg c c' :=
  h.lift id fun _ _ hs => hs.step hQ

/-- What the services have been handed stays handed over. -/
theorem Cluster.Within.sent (h : Within cfg Q c c') : ∃ new, c'.sent = c.sent ++ new := by
  induction h with
  | refl => exact ⟨[], (List.append_nil _).symm⟩
  | tail _ hs ih =>
      obtain ⟨new, e⟩ := ih
      cases hs with
      | run n hn ev hev _ o ho st hst =>
          refine ⟨new ++ o.sent.map fun msg => (n, msg), ?_⟩
          rw [← List.append_assoc, ← e]
          rfl

/-- An event that can occur, and that hears no one else, is a step. -/
theorem exists_stepOf (hQ : Q ⊆ cfg.nodeIDs.toFinset) (h : Reachable cfg c) (hn : n ∈ Q)
    (ev : Event NodeID Cmd) (hev : c.Enabled n ev) (hheard : Heard Q (c.node n) ev) :
    ∃ o c', Executes cfg n (c.node n) ev o ∧ StepOf cfg Q c c' ∧ Took c n o c' := by
  obtain ⟨o, st, ho, hst⟩ := exec_total h (List.mem_toFinset.mp (hQ hn)) hev
  refine ⟨o, _, exec_cases ho, .run n hn ev hev hheard o ho st hst, ⟨?_, ?_, rfl, rfl⟩⟩
  · exact Function.update_self _ _ _
  · exact fun m hne => Function.update_of_ne hne _ _

/-- A request that waits for its reply can be delivered. -/
theorem exists_delivered (hQ : Q ⊆ cfg.nodeIDs.toFinset) (h : Reachable cfg c) (hn : n ∈ Q)
    (hm : m ∈ Q) {call : Call NodeID Cmd} (hcall : (m, call) ∈ (c.node n).calls) :
    ∃ o c', Executes cfg m (c.node m) (.deliver ⟨n, m, call⟩) o ∧ StepOf cfg Q c c' ∧
      Took c m o c' := by
  obtain ⟨a, hsim⟩ := reachable_sim h
  have hev : c.Enabled m (.deliver ⟨n, m, call⟩) := ⟨hsim.calls n _ hcall, rfl⟩
  exact exists_stepOf hQ h hm _ hev hn

/-- And its reply can be handled. -/
theorem exists_answered (hQ : Q ⊆ cfg.nodeIDs.toFinset) (h : Reachable cfg c) (hn : n ∈ Q)
    (hm : m ∈ Q) {call : Call NodeID Cmd} (hcall : (m, call) ∈ (c.node n).calls) {answer : Answer}
    (hans : (⟨n, m, call⟩, answer) ∈ c.replies) :
    ∃ k o c', (c.node n).calls[k]? = some (m, call) ∧
      Executes cfg n (c.node n) (.reply k answer) o ∧ StepOf cfg Q c c' ∧ Took c n o c' := by
  obtain ⟨k, hk⟩ := List.mem_iff_getElem?.mp hcall
  have hev : c.Enabled n (.reply k answer) := ⟨_, hk, hans⟩
  have hheard : Heard Q (c.node n) (.reply k answer) := by
    intro x hx
    cases hk.symm.trans hx
    exact hm
  obtain ⟨o, c', hex, hstep, htook⟩ := exists_stepOf hQ h hn _ hev hheard
  exact ⟨k, o, c', hk, hex, hstep, htook⟩

omit [Inhabited Cmd] in
/-- The other goroutines go on waiting. -/
theorem mem_eraseIdx_of_ne {α : Type} {l : List α} {k : ℕ} {x y : α} (hk : l[k]? = some x)
    (hy : y ∈ l) (hne : y ≠ x) : y ∈ l.eraseIdx k := by
  obtain ⟨j, hj⟩ := List.mem_iff_getElem?.mp hy
  refine List.mem_eraseIdx_iff_getElem?.mpr ⟨j, fun e => hne ?_, hj⟩
  rw [e, hk] at hj
  exact (Option.some.inj hj).symm

end Part

/-! ## 2. A server times out -/

/-- The vote request of a candidate whose last entry has term `t`. -/
def standArgs (n : NodeID) (rf : Raft NodeID Cmd) (t : ℕ) : RequestVoteArgs NodeID :=
  ⟨rf.term, n, rf.lastLogIndex, t⟩

/-- Server `n` has become a candidate and has asked everyone else for a vote. -/
structure Stood (cfg : Config NodeID) (c : Cluster NodeID Cmd) (n : NodeID)
    (c' : Cluster NodeID Cmd) : Prop where
  rf : (c'.node n).rf = { (c.node n).rf.campaign n with wal := [] }
  others : ∀ m, m ≠ n → c'.node m = c.node m
  asks : ∃ t, (c'.node n).rf.lastLogTerm = some t ∧ ∀ m ∈ cfg.nodeIDs, m ≠ n →
    (m, .requestVote (standArgs n (c'.node n).rf t)) ∈ (c'.node n).calls

section Timeout

variable {cfg : Config NodeID} {Q : Finset NodeID} {c c' : Cluster NodeID Cmd} {n m : NodeID}

theorem Sim.rf_wal {a : Record NodeID Cmd} (h : Sim cfg c a) (n : NodeID) :
    { (c.node n).rf with wal := [] } = (c.node n).rf := by
  rw [← h.wal n]

/-- The timer is armed, or armed anew if it was armed before the last reset. -/
theorem exists_armed (hQ : Q ⊆ cfg.nodeIDs.toFinset) (h : Reachable cfg c) (hn : n ∈ Q) :
    ∃ c', Within cfg Q c c' ∧ (c'.node n).rf = (c.node n).rf ∧
      (c'.node n).timer = some (c.node n).rf.electionGeneration ∧
      ∀ m, m ≠ n → c'.node m = c.node m := by
  have harm : ∀ {c : Cluster NodeID Cmd}, Reachable cfg c → (c.node n).timer = none →
      ∃ c', StepOf cfg Q c c' ∧ (c'.node n).rf = (c.node n).rf ∧
        (c'.node n).timer = some (c.node n).rf.electionGeneration ∧
        ∀ m, m ≠ n → c'.node m = c.node m := by
    intro c h hnone
    obtain ⟨a, hsim⟩ := reachable_sim h
    obtain ⟨o, c', hex, hstep, htook⟩ := exists_stepOf hQ h hn .tickerArm hnone trivial
    cases hex
    refine ⟨c', hstep, ?_, ?_, htook.others⟩
    · rw [htook.self]
      exact hsim.rf_wal n
    · rw [htook.self]
  cases ht : (c.node n).timer with
  | none =>
      obtain ⟨c', hstep, hrest⟩ := harm h ht
      exact ⟨c', .single hstep, hrest⟩
  | some generation =>
      by_cases hgen : (c.node n).rf.electionGeneration = generation
      · exact ⟨c, .refl, rfl, by rw [ht, hgen], fun m _ => rfl⟩
      · -- it fires for nothing
        obtain ⟨a, hsim⟩ := reachable_sim h
        have hev : c.Enabled n .tickerFire := by
          show (c.node n).timer ≠ none
          rw [ht]
          exact Option.some_ne_none _
        obtain ⟨o, c1, hex, hstep, htook⟩ := exists_stepOf hQ h hn _ hev trivial
        cases hex with
        | tickerFire ht' hr =>
            cases ht.symm.trans ht'
            rw [Raft.tickerFire, if_pos (Or.inr hgen)] at hr
            cases hr
            have hrf : (c1.node n).rf = (c.node n).rf := by
              rw [htook.self]
              exact hsim.rf_wal n
            obtain ⟨c', hstep', h1, h2, h3⟩ := harm (h.tail (hstep.step hQ)) (by rw [htook.self]; rfl)
            refine ⟨c', .tail (.single hstep) hstep', h1.trans hrf, ?_, fun m hm => ?_⟩
            · rw [h2, hrf]
            · rw [h3 m hm, htook.others m hm]

/-- **A server that does not lead can stand for election.** -/
theorem exists_stood (hQ : Q ⊆ cfg.nodeIDs.toFinset) (h : Reachable cfg c) (hn : n ∈ Q)
    (hrole : (c.node n).rf.customerId ≠ .leader) :
    ∃ c', Within cfg Q c c' ∧ Stood cfg c n c' := by
  obtain ⟨c1, hrun, hrf, htimer, hothers⟩ := exists_armed hQ h hn
  have h1 : Reachable cfg c1 := h.trans (hrun.run hQ)
  obtain ⟨a, hsim⟩ := reachable_sim h1
  have hev : c1.Enabled n .tickerFire := by
    show (c1.node n).timer ≠ none
    rw [htimer]
    exact Option.some_ne_none _
  obtain ⟨o, c', hex, hstep, htook⟩ := exists_stepOf hQ h1 hn _ hev trivial
  cases hex with
  | tickerFire ht hr =>
      cases htimer.symm.trans ht
      have hfire : ¬ ((c1.node n).rf.customerId = .leader ∨
          (c1.node n).rf.electionGeneration ≠ (c.node n).rf.electionGeneration) := by
        rw [hrf]
        exact fun hor => hor.elim hrole fun hne => hne rfl
      rw [Raft.tickerFire, if_neg hfire, (hsim.views n).beginElectionLocked] at hr
      cases hr
      have hrf' : (c'.node n).rf = { (c1.node n).rf.campaign n with wal := [] } := by
        rw [htook.self]
        rfl
      refine ⟨c', hrun.tail hstep, ?_, ?_, lastTerm tm (a.log n), ?_, ?_⟩
      · rw [hrf', hrf]
      · exact fun m hm => (htook.others m hm).trans (hothers m hm)
      · rw [hrf']
        exact (hsim.views n).lastLogTerm
      · intro m hm hne
        rw [hrf', htook.self]
        refine List.mem_append_right _ (List.mem_map.mpr ⟨(m, _), List.mem_map.mpr ⟨m, ?_, rfl⟩, rfl⟩)
        exact List.mem_filter.mpr ⟨hm, by simpa using hne⟩

/-- It can stand in any later term. -/
theorem exists_raised (hQ : Q ⊆ cfg.nodeIDs.toFinset) (hn : n ∈ Q) (k : ℕ) :
    ∀ {c : Cluster NodeID Cmd}, Reachable cfg c → (c.node n).rf.customerId ≠ .leader →
      ∃ c', Within cfg Q c c' ∧ (c'.node n).rf.customerId ≠ .leader ∧
        (c'.node n).rf.term = (c.node n).rf.term + k ∧ ∀ m, m ≠ n → c'.node m = c.node m := by
  induction k with
  | zero => exact fun h hrole => ⟨_, .refl, hrole, rfl, fun m _ => rfl⟩
  | succ k ih =>
      intro c h hrole
      obtain ⟨c1, hrun, hstood⟩ := exists_stood hQ h hn hrole
      have hrole1 : (c1.node n).rf.customerId ≠ .leader := by
        rw [hstood.rf]
        exact fun e => Role.noConfusion e
      obtain ⟨c', hrun', hrole', hterm, hothers⟩ := ih (h.trans (hrun.run hQ)) hrole1
      refine ⟨c', hrun.trans hrun', hrole', ?_, fun m hm => ?_⟩
      · rw [hterm, hstood.rf]
        show (c.node n).rf.term + 1 + k = _
        omega
      · rw [hothers m hm, hstood.others m hm]

end Timeout

/-! ## 3. All of them in one term -/

section Handlers

variable {rf rf' : Raft NodeID Cmd}

/-- The candidate's log is not behind. -/
def NotBehind (args : RequestVoteArgs NodeID) (rf : Raft NodeID Cmd) : Prop :=
  ∀ t, rf.lastLogTerm = some t →
    t < args.lastLogTerm ∨ args.lastLogTerm = t ∧ rf.lastLogIndex ≤ args.lastLogIndex

omit [Inhabited Cmd] in
/-- **A vote request of a later term** makes a follower, and one that votes if the candidate's log
    is not behind. -/
theorem requestVote_later {args : RequestVoteArgs NodeID} {reply : RequestVoteReply}
    (ht : rf.term < args.term) (h : rf.requestVote args = some (rf', reply)) :
    rf'.customerId = .follower ∧ rf'.term = args.term ∧ reply.term = args.term ∧
      (NotBehind args rf → reply.voteGranted = true) := by
  unfold Raft.requestVote at h
  rw [if_neg (Nat.not_lt.mpr (Nat.le_of_lt ht))] at h
  simp only [if_pos ht] at h
  obtain ⟨t, hlast, h⟩ := Option.bind_eq_some_iff.mp h
  split at h
  next =>
    cases h
    exact ⟨rfl, rfl, rfl, fun _ => rfl⟩
  next hno =>
    cases h
    exact ⟨rfl, rfl, rfl, fun hnb => absurd ⟨Or.inl rfl, hnb t hlast⟩ hno⟩

end Handlers

theorem mem_mapM {α β : Type} {f : α → Option β} {x : α} {l : List α} :
    ∀ {ys : List β}, l.mapM f = some ys → x ∈ l → ∃ y ∈ ys, f x = some y := by
  induction l with
  | nil => exact fun _ hx => absurd hx List.not_mem_nil
  | cons z l ih =>
      intro ys h hx
      rw [List.mapM_cons] at h
      obtain ⟨y, hy, h⟩ := Option.bind_eq_some_iff.mp h
      obtain ⟨rest, hrest, e⟩ := Option.bind_eq_some_iff.mp h
      cases e
      rcases List.mem_cons.mp hx with rfl | hx
      · exact ⟨y, List.mem_cons_self, hy⟩
      · obtain ⟨y', hy', hf⟩ := ih hrest hx
        exact ⟨y', List.mem_cons_of_mem _ hy', hf⟩

section Rally

variable {cfg : Config NodeID} {Q : Finset NodeID} {c c' : Cluster NodeID Cmd} {n m : NodeID}

/-- A heartbeat goes to every other server. -/
theorem exists_heartbeat (hQ : Q ⊆ cfg.nodeIDs.toFinset) (h : Reachable cfg c) (hn : n ∈ Q)
    (hm : m ∈ Q) (hne : m ≠ n) (hL : (c.node n).rf.customerId = .leader) :
    ∃ args c', (c.node n).rf.heartbeatArgs n m = some args ∧ StepOf cfg Q c c' ∧
      (c'.node n).rf = (c.node n).rf ∧ (m, .appendEntries args) ∈ (c'.node n).calls ∧
      ∀ k, k ≠ n → c'.node k = c.node k := by
  obtain ⟨a, hsim⟩ := reachable_sim h
  obtain ⟨o, c', hex, hstep, htook⟩ := exists_stepOf hQ h hn .heartbeat trivial trivial
  cases hex with
  | @heartbeat msgs hr =>
      have hmem : ∃ args, (c.node n).rf.heartbeatArgs n m = some args ∧ (m, args) ∈ msgs := by
        rw [Raft.startHeartbeat, if_neg (not_not.mpr hL)] at hr
        have hin : m ∈ cfg.nodeIDs.filter (· ≠ n) :=
          List.mem_filter.mpr ⟨List.mem_toFinset.mp (hQ hm), by simpa using hne⟩
        obtain ⟨x, hx, hf⟩ := mem_mapM hr hin
        obtain ⟨args, hargs, e⟩ := Option.bind_eq_some_iff.mp hf
        cases e
        exact ⟨args, hargs, hx⟩
      obtain ⟨args, hargs, hmem⟩ := hmem
      refine ⟨args, c', hargs, hstep, ?_, ?_, htook.others⟩
      · rw [htook.self]
        exact hsim.rf_wal n
      · rw [htook.self]
        exact List.mem_append_right _ (List.mem_map_of_mem hmem)

/-- A leader makes a follower of one in an earlier term. -/
theorem exists_deposed (hQ : Q ⊆ cfg.nodeIDs.toFinset) (h : Reachable cfg c) (hn : n ∈ Q)
    (hm : m ∈ Q) (hL : (c.node n).rf.customerId = .leader)
    (ht : (c.node m).rf.term < (c.node n).rf.term) :
    ∃ c', Within cfg Q c c' ∧ (c'.node m).rf.customerId ≠ .leader := by
  have hne : m ≠ n := by
    rintro rfl
    exact Nat.lt_irrefl _ ht
  obtain ⟨args, c1, hargs, hstep, _, hcall, hothers⟩ := exists_heartbeat hQ h hn hm hne hL
  obtain ⟨a, hsim⟩ := reachable_sim h
  have hterm : args.term = (c.node n).rf.term := by
    obtain ⟨args', hargs', hterm, _⟩ :=
      (hsim.views n).heartbeatArgs_spec (hsim.proc n).disk.snap.1 n m
    cases hargs.symm.trans hargs'
    exact hterm
  obtain ⟨o, c', hex, hstep', htook⟩ := exists_delivered hQ (h.tail (hstep.step hQ)) hn hm hcall
  refine ⟨c', .tail (.single hstep) hstep', ?_⟩
  rw [htook.self]
  cases hex with
  | requestVote hc _ => cases hc
  | timeoutNow hc _ => cases hc
  | appendEntries hc hr =>
      cases hc
      have hle : (c1.node m).rf.term ≤ args.term := by
        rw [hothers m hne, hterm]
        exact Nat.le_of_lt ht
      obtain ⟨hf, _⟩ := appendEntriesHandler_later hle hr
      intro hlead
      cases hf.symm.trans hlead

/-- **Not all of two servers or more go on leading.** -/
theorem exists_follower (hQ : Q ⊆ cfg.nodeIDs.toFinset) (hcard : 1 < Q.card)
    (h : Reachable cfg c) :
    ∃ c', Within cfg Q c c' ∧ ∃ n ∈ Q, (c'.node n).rf.customerId ≠ .leader := by
  by_cases hall : ∀ n ∈ Q, (c.node n).rf.customerId = .leader
  · obtain ⟨n, hn, m, hm, hne⟩ := Finset.one_lt_card.mp hcard
    obtain ⟨a, hsim⟩ := reachable_sim h
    -- two leaders have different terms
    have hterm : (c.node n).rf.term ≠ (c.node m).rf.term := by
      intro e
      have h1 := (hsim.proc n).mem.leader (hall n hn)
      have h2 := (hsim.proc m).mem.leader (hall m hm)
      rw [← (hsim.enter n).term, e, (hsim.enter m).term] at h1
      exact hne (Option.some.inj (h1.symm.trans h2))
    rcases Nat.lt_or_gt_of_ne hterm with hlt | hgt
    · obtain ⟨c', hrun, hrole⟩ := exists_deposed hQ h hm hn (hall m hm) hlt
      exact ⟨c', hrun, n, hn, hrole⟩
    · obtain ⟨c', hrun, hrole⟩ := exists_deposed hQ h hn hm (hall n hn) hgt
      exact ⟨c', hrun, m, hm, hrole⟩
  · simp only [not_forall] at hall
    obtain ⟨n, hn, hrole⟩ := hall
    exact ⟨c, .refl, n, hn, hrole⟩

/-- Server `n` has asked the servers of `l` for a vote in a later term; the others are in it. -/
structure Rallying (cfg : Config NodeID) (Q : Finset NodeID) (n : NodeID)
    (args : RequestVoteArgs NodeID) (l : List NodeID) (c : Cluster NodeID Cmd) : Prop where
  reach : Reachable cfg c
  nodup : l.Nodup
  there : ∀ m ∈ Q, m ∉ l → (c.node m).rf.customerId ≠ .leader ∧ (c.node m).rf.term = args.term
  asked : ∀ m ∈ l, m ∈ Q ∧ m ≠ n ∧ (c.node m).rf.term < args.term ∧
    (m, .requestVote args) ∈ (c.node n).calls

/-- One more server comes into the term. -/
theorem Rallying.next (hQ : Q ⊆ cfg.nodeIDs.toFinset) (hn : n ∈ Q) {args : RequestVoteArgs NodeID}
    {l : List NodeID} (h : Rallying cfg Q n args (m :: l) c) :
    ∃ c', Within cfg Q c c' ∧ Rallying cfg Q n args l c' := by
  obtain ⟨hm, hne, hlt, hcall⟩ := h.asked m List.mem_cons_self
  obtain ⟨hml, hnodup⟩ := List.nodup_cons.mp h.nodup
  obtain ⟨o, c', hex, hstep, htook⟩ := exists_delivered hQ h.reach hn hm hcall
  cases hex with
  | appendEntries hc _ => cases hc
  | timeoutNow hc _ => cases hc
  | requestVote hc hr =>
      cases hc
      obtain ⟨hrole, hterm, _⟩ := requestVote_later hlt hr
      refine ⟨c', .single hstep, h.reach.tail (hstep.step hQ), hnodup, ?_, ?_⟩
      · intro k hk hkl
        by_cases e : k = m
        · subst e
          rw [htook.self]
          refine ⟨fun hlead => ?_, hterm⟩
          cases hrole.symm.trans hlead
        · rw [htook.others k e]
          exact h.there k hk fun hmem => (List.mem_cons.mp hmem).elim e hkl
      · intro k hk
        have e : k ≠ m := by
          rintro rfl
          exact hml hk
        rw [htook.others k e, htook.others n hne.symm]
        exact h.asked k (List.mem_cons_of_mem _ hk)

/-- **All of them come into one term**, in which none of them leads. -/
theorem exists_rallied (hQ : Q ⊆ cfg.nodeIDs.toFinset) (h : Reachable cfg c) (hn : n ∈ Q)
    (hrole : (c.node n).rf.customerId ≠ .leader) :
    ∃ c' term, Within cfg Q c c' ∧
      ∀ m ∈ Q, (c'.node m).rf.customerId ≠ .leader ∧ (c'.node m).rf.term = term := by
  -- the latest term, and the one after it
  obtain ⟨latest, hlatest⟩ : ∃ latest, ∀ m ∈ Q, (c.node m).rf.term ≤ latest :=
    ⟨Q.sup fun m => (c.node m).rf.term, fun m hm =>
      Finset.le_sup (f := fun m => (c.node m).rf.term) hm⟩
  obtain ⟨c1, hrun1, hrole1, hterm1, hothers1⟩ :=
    exists_raised hQ hn (latest - (c.node n).rf.term) h hrole
  have hterm1' : (c1.node n).rf.term = latest := by
    have hle := hlatest n hn
    omega
  have h1 := h.trans (hrun1.run hQ)
  obtain ⟨c2, hrun2, hstood⟩ := exists_stood hQ h1 hn hrole1
  obtain ⟨t, _, hasks⟩ := hstood.asks
  have hterm2 : (c2.node n).rf.term = latest + 1 := by
    rw [hstood.rf, ← hterm1']
    rfl
  have hstart : Rallying cfg Q n (standArgs n (c2.node n).rf t) (Q.erase n).toList c2 := by
    refine ⟨h1.trans (hrun2.run hQ), Finset.nodup_toList _, ?_, ?_⟩
    · intro m hm hml
      obtain rfl : m = n := by
        by_contra hne
        exact hml (Finset.mem_toList.mpr (Finset.mem_erase.mpr ⟨hne, hm⟩))
      refine ⟨?_, rfl⟩
      rw [hstood.rf]
      exact fun e => Role.noConfusion e
    · intro m hml
      obtain ⟨hne, hm⟩ := Finset.mem_erase.mp (Finset.mem_toList.mp hml)
      refine ⟨hm, hne, ?_, hasks m (List.mem_toFinset.mp (hQ hm)) hne⟩
      rw [hstood.others m hne, hothers1 m hne]
      show _ < (c2.node n).rf.term
      rw [hterm2]
      exact Nat.lt_succ_of_le (hlatest m hm)
  obtain ⟨c', hrun, hdone⟩ := run_each (fun m l c h => h.next hQ hn) _ hstart
  exact ⟨c', _, (hrun1.trans hrun2).trans hrun, fun m hm => hdone.there m hm List.not_mem_nil⟩

end Rally

/-! ## 4. The election -/

section Vote

variable {cfg : Config NodeID} {Q : Finset NodeID} {c c' : Cluster NodeID Cmd} {n m : NodeID}

/-- A leader that no peer has confirmed anything to. -/
def NewLeader (nodeIDs : List NodeID) (rf : Raft NodeID Cmd) : Prop :=
  rf.customerId = .leader ∧ ∀ id ∈ nodeIDs, rf.matchIndex id = 0

/-- It leads, or it is a candidate that lacks no more than `left` votes of `total`. -/
def Contends (nodeIDs : List NodeID) (total left : ℕ) (rf : Raft NodeID Cmd) : Prop :=
  NewLeader nodeIDs rf ∨ rf.customerId = .candidate ∧ rf.voteCount + left = total ∧
    rf.voteCount ≤ nodeIDs.length / 2

/-- Server `n` stands in the term of `args` and waits for the votes of `l`. -/
structure Polling (cfg : Config NodeID) (Q : Finset NodeID) (n : NodeID)
    (args : RequestVoteArgs NodeID) (l : List NodeID) (c : Cluster NodeID Cmd) : Prop where
  reach : Reachable cfg c
  nodup : l.Nodup
  term : (c.node n).rf.term = args.term
  state : Contends cfg.nodeIDs Q.card l.length (c.node n).rf
  terms : ∀ m ∈ Q, (c.node m).rf.term ≤ args.term
  asked : ∀ m ∈ l, m ∈ Q ∧ m ≠ n ∧ (c.node m).rf.term < args.term ∧ NotBehind args (c.node m).rf ∧
    (m, .requestVote args) ∈ (c.node n).calls

omit [Inhabited Cmd] in
/-- A vote of the term is counted, and may be the one that decides. -/
theorem sendRequestVote_granted {rf : Raft NodeID Cmd} {args : RequestVoteArgs NodeID}
    {nodeIDs : List NodeID} {reply : RequestVoteReply} (hterm : rf.term = args.term)
    (hreply : reply.term = args.term) (hgranted : reply.voteGranted = true) {total left : ℕ}
    (h : Contends nodeIDs total (left + 1) rf) :
    (rf.sendRequestVote n nodeIDs args reply).term = args.term ∧
      Contends nodeIDs total left (rf.sendRequestVote n nodeIDs args reply) := by
  have hnew : ¬ reply.term > rf.term := by
    rw [hreply, hterm]
    exact Nat.lt_irrefl _
  rw [Raft.sendRequestVote, if_neg hnew]
  rcases h with hlead | ⟨hrole, hcount, _⟩
  · have hskip : ¬ reply.voteGranted ∨ rf.customerId ≠ .candidate ∨ rf.term ≠ args.term := by
      rw [hlead.1]
      exact .inr (.inl fun e => Role.noConfusion e)
    rw [if_pos hskip]
    exact ⟨hterm, .inl hlead⟩
  · have hcounts : ¬ (¬ reply.voteGranted ∨ rf.customerId ≠ .candidate ∨ rf.term ≠ args.term) := by
      simp [hgranted, hrole, hterm]
    rw [if_neg hcounts]
    dsimp only
    split
    next => exact ⟨hterm, .inl ⟨rfl, fun id hid => if_pos hid⟩⟩
    next hfew =>
      refine ⟨hterm, .inr ⟨hrole, ?_, Nat.le_of_not_lt hfew⟩⟩
      show rf.voteCount + 1 + left = total
      omega

/-- **One more vote**: the request is delivered, granted, and the reply is counted. -/
theorem Polling.next (hQ : Q ⊆ cfg.nodeIDs.toFinset) (hn : n ∈ Q) {args : RequestVoteArgs NodeID}
    {l : List NodeID} (h : Polling cfg Q n args (m :: l) c) :
    ∃ c', Within cfg Q c c' ∧ Polling cfg Q n args l c' := by
  obtain ⟨hm, hne, hlt, hlog, hcall⟩ := h.asked m List.mem_cons_self
  obtain ⟨hml, hnodup⟩ := List.nodup_cons.mp h.nodup
  obtain ⟨o, c1, hex, hstep, htook⟩ := exists_delivered hQ h.reach hn hm hcall
  cases hex with
  | appendEntries hc _ => cases hc
  | timeoutNow hc _ => cases hc
  | @requestVote _ _ rf' reply hc hr =>
      cases hc
      obtain ⟨_, hterm, hreply, hgrant⟩ := requestVote_later hlt hr
      have hnode : c1.node n = c.node n := htook.others n hne.symm
      have h1 := h.reach.tail (hstep.step hQ)
      rw [← hnode] at hcall
      have hans : (⟨n, m, .requestVote args⟩, .requestVote reply) ∈ c1.replies := by
        rw [htook.replies]
        exact List.mem_append_right _ List.mem_cons_self
      obtain ⟨k, o', c', hk, hex', hstep', htook'⟩ := exists_answered hQ h1 hn hm hcall hans
      cases hex' with
      | votes hk' =>
          cases hk.symm.trans hk'
          rw [hnode] at htook'
          obtain ⟨hterm', hstate⟩ := sendRequestVote_granted (n := n) h.term hreply (hgrant hlog)
            h.state
          have hself := htook'.self
          refine ⟨c', .tail (.single hstep) hstep', h1.tail (hstep'.step hQ), hnodup, ?_, ?_, ?_, ?_⟩
          · rw [hself]
            exact hterm'
          · rw [hself]
            exact hstate
          · intro q hq
            by_cases e : q = n
            · rw [e, hself]
              exact Nat.le_of_eq hterm'
            · rw [htook'.others q e]
              by_cases e' : q = m
              · rw [e', htook.self]
                exact Nat.le_of_eq hterm
              · rw [htook.others q e']
                exact h.terms q hq
          · intro q hq
            have e : q ≠ m := by
              rintro rfl
              exact hml hq
            obtain ⟨hqQ, hqn, hqt, hqlog, hqcall⟩ := h.asked q (List.mem_cons_of_mem _ hq)
            rw [hself, htook'.others q hqn, htook.others q e]
            refine ⟨hqQ, hqn, hqt, hqlog, mem_eraseIdx_of_ne (hnode ▸ hk) hqcall fun heq => e ?_⟩
            exact congrArg Prod.fst heq

/-- **A majority can elect a leader**, of a term that no server in it has gone beyond. -/
theorem exists_elected (hQ : cfg.quorums.isQuorum Q) (hsize : 2 ≤ cfg.nodeIDs.length)
    (h : Reachable cfg c) :
    ∃ c' n, Within cfg Q c c' ∧ n ∈ Q ∧ NewLeader cfg.nodeIDs (c'.node n).rf ∧
      ∀ m ∈ Q, (c'.node m).rf.term ≤ (c'.node n).rf.term := by
  obtain ⟨hsub, hcard⟩ := hQ
  obtain ⟨c1, hrun1, y, hy, hyrole⟩ := exists_follower hsub (by omega) h
  have h1 := h.trans (hrun1.run hsub)
  obtain ⟨c2, term, hrun2, hall⟩ := exists_rallied hsub h1 hy hyrole
  have h2 := h1.trans (hrun2.run hsub)
  obtain ⟨a, hsim⟩ := reachable_sim h2
  -- the server with the most recent log
  obtain ⟨n, hn, hmax⟩ := Q.exists_max_image
    (fun m => toLex (lastTerm tm (a.log m), (a.log m).length)) ⟨y, hy⟩
  obtain ⟨c3, hrun3, hstood⟩ := exists_stood hsub h2 hn (hall n hn).1
  obtain ⟨t, ht, hasks⟩ := hstood.asks
  have hterm3 : (c3.node n).rf.term = term + 1 := by
    rw [hstood.rf, ← (hall n hn).2]
    rfl
  have hlast : t = lastTerm tm (a.log n) := by
    rw [hstood.rf] at ht
    exact (Option.some.inj ((hsim.views n).lastLogTerm.symm.trans ht)).symm
  have hstart : Polling cfg Q n (standArgs n (c3.node n).rf t) (Q.erase n).toList c3 := by
    refine ⟨h2.trans (hrun3.run hsub), Finset.nodup_toList _, rfl, .inr ⟨?_, ?_, ?_⟩, ?_, ?_⟩
    · rw [hstood.rf]
      rfl
    · rw [Finset.length_toList, Finset.card_erase_of_mem hn, hstood.rf]
      show 1 + (Q.card - 1) = Q.card
      omega
    · rw [hstood.rf]
      show 1 ≤ cfg.nodeIDs.length / 2
      omega
    · intro m hm
      show (c3.node m).rf.term ≤ (c3.node n).rf.term
      by_cases e : m = n
      · rw [e]
      · rw [hterm3, hstood.others m e, (hall m hm).2]
        exact Nat.le_succ _
    · intro m hml
      obtain ⟨hne, hm⟩ := Finset.mem_erase.mp (Finset.mem_toList.mp hml)
      refine ⟨hm, hne, ?_, ?_, hasks m (List.mem_toFinset.mp (hsub hm)) hne⟩
      · show (c3.node m).rf.term < (c3.node n).rf.term
        rw [hterm3, hstood.others m hne, (hall m hm).2]
        exact Nat.lt_succ_self _
      · intro t' ht'
        rw [hstood.others m hne] at ht' ⊢
        cases (hsim.views m).lastLogTerm.symm.trans ht'
        have hlen : (standArgs n (c3.node n).rf t).lastLogIndex = (a.log n).length := by
          rw [standArgs, hstood.rf]
          exact (hsim.views n).lastLogIndex
        rw [hlen, (hsim.views m).lastLogIndex]
        show _ < t ∨ t = _ ∧ _
        rw [hlast]
        exact (Prod.Lex.toLex_le_toLex.mp (hmax m hm)).imp id fun hle => ⟨hle.1.symm, hle.2⟩
  obtain ⟨c', hrun, hdone⟩ := run_each (fun m l c h => h.next hsub hn) _ hstart
  refine ⟨c', n, ((hrun1.trans hrun2).trans hrun3).trans hrun, hn, ?_, ?_⟩
  · rcases hdone.state with hlead | ⟨_, hcount, hfew⟩
    · exact hlead
    · rw [List.length_nil] at hcount
      omega
  · intro m hm
    rw [hdone.term]
    exact hdone.terms m hm

end Vote

end RaftLab.Raft1

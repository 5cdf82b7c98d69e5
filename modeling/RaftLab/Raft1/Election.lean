/-
  File:      RaftLab/Raft1/Election.lean
  Subject:   The critical sections that change terms and votes, followed on the record.

  * `Track.stepDown`, `Track.catchUp` -- entering a later term;
  * `Track.beginElection` -- `beginElectionLocked`: raise, stand, vote for itself;
  * `Track.requestVote` -- the handler; a granted vote is a `grant` step;
  * `Track.timeoutNow`, `Track.tickerFire` -- the two ways into an election;
  * `Track.sendRequestVote` -- a counted vote; enough of them are an `elect` step.

  `KeepsPoll` is what every section that does not begin an election leaves of a poll.
-/
import RaftLab.Raft1.Relation

namespace RaftLab.Raft1

open RaftLab.Lib RaftLab.Lib.TermLog Relation

variable {NodeID Cmd : Type} [DecidableEq NodeID] [Inhabited Cmd]

/-- The server is in no other poll than before, and `commitIndex` has not gone back. -/
structure KeepsPoll (rf rf' : Raft NodeID Cmd) : Prop where
  round : rf'.customerId = .candidate →
    rf.customerId = .candidate ∧ rf'.term = rf.term ∧ rf'.voteCount = rf.voteCount
  commit : rf.commitIndex ≤ rf'.commitIndex

omit [DecidableEq NodeID] [Inhabited Cmd] in
theorem KeepsPoll.refl (rf : Raft NodeID Cmd) : KeepsPoll rf rf :=
  ⟨fun h => ⟨h, rfl, rfl⟩, le_refl _⟩

/-- The server has just begun the election `round`, in a term after `t₀`. -/
structure Began (a : Record NodeID Cmd) (n : NodeID) (t₀ : ℕ) (rf : Raft NodeID Cmd)
    (round : ElectionRound) : Prop where
  term : rf.term = round.term
  later : t₀ < round.term
  count : rf.voteCount = 1
  self : a.vote round.term n = some n
  stands : ∃ l, a.cand round.term n = some l ∧ round.lastLogIndex = l.length ∧
    round.lastLogTerm = lastTerm tm l

section

variable {cfg : Config NodeID} {made : List (NodeID × ℕ × Bytes)} {n : NodeID}
  {a₀ a a' : Record NodeID Cmd} {st₀ : PersistState NodeID Cmd} {rf rf' : Raft NodeID Cmd}

/-! ## 1. Changes of the record that keep a node's term, log and vote -/

theorem DiskOk.later {st : PersistState NodeID Cmd} (h : DiskOk cfg made a n st) (hx : Ext a a')
    (ht : a'.term n = a.term n) (hl : a'.log n = a.log n)
    (hv : a'.vote (a.term n) n = a.vote (a.term n) n) : DiskOk cfg made a' n st where
  term := by rw [ht]; exact h.term
  vote := by rw [ht, hv]; exact h.vote
  logs := by rw [hl]; exact h.logs
  le := by rw [hl]; exact h.le
  committed := by rw [ht, hl]; exact h.committed.mono hx
  snap := h.snap

omit [Inhabited Cmd] in
theorem MemOk.later (h : MemOk cfg a n rf) (hx : Ext a a') (ht : a'.term n = a.term n)
    (hl : a'.log n = a.log n) (hlead : a'.leader (a.term n) = a.leader (a.term n)) :
    MemOk cfg a' n rf where
  snapLe := h.snapLe
  commitLe := by rw [hl]; exact h.commitLe
  appliedLe := h.appliedLe
  committed := by rw [ht, hl]; exact h.committed.mono hx
  leads := h.leads
  leader hr := by rw [ht]; exact hx.leader (h.leader hr)
  matched hr m hm hp := by rw [ht]; exact hx.ack (h.matched hr m hm hp)
  stands hr := by
    rw [ht, hl, hlead]
    exact ⟨hx.cand (h.stands hr).1, (h.stands hr).2⟩

omit [Inhabited Cmd] in
/-- A server that is no leader and no candidate. -/
theorem MemOk.follower (h : MemOk cfg a n rf) (hx : Ext a a') (hl : a'.log n = a.log n)
    (hs : rf'.snapshotIndex = rf.snapshotIndex) (hc : rf'.commitIndex = rf.commitIndex)
    (hap : rf'.appliedIndex = rf.appliedIndex) (hr : rf'.customerId = .follower)
    (hid : rf'.leaderId ≠ some n) : MemOk cfg a' n rf' where
  snapLe := by rw [hs, hc]; exact h.snapLe
  commitLe := by rw [hl, hc]; exact h.commitLe
  appliedLe := by rw [hap, hc]; exact h.appliedLe
  committed := by rw [hl, hc]; exact (h.committed.mono hx).le (hx.term n)
  leads := ⟨fun e => absurd e hid, fun e => by rw [hr] at e; cases e⟩
  leader e := by rw [hr] at e; cases e
  matched e := by rw [hr] at e; cases e
  stands e := by rw [hr] at e; cases e

omit [Inhabited Cmd] in
/-- Nothing is on record for a term the node has not entered. -/
theorem vote_later (hI : Inv cfg.quorums tm a) {t : ℕ} (ht : a.term n < t) :
    a.vote t n = none := by
  cases hv : a.vote t n with
  | none => rfl
  | some c =>
      have := hI.voteTerm hv
      omega

omit [Inhabited Cmd] in
theorem cand_later (hI : Inv cfg.quorums tm a) {t : ℕ} (ht : a.term n < t) :
    a.cand t n = none := by
  cases hc : a.cand t n with
  | none => rfl
  | some l =>
      have := hI.candTerm hc
      omega

omit [Inhabited Cmd] in
/-- An election on the record: the node raises its term, stands and votes for itself. -/
theorem exists_campaign (hI : Inv cfg.quorums tm a) (n : NodeID) :
    ∃ a', ReflTransGen (Move cfg n) a a' ∧ a'.term n = a.term n + 1 ∧ a'.log n = a.log n ∧
      a'.cand (a.term n + 1) n = some (a.log n) ∧ a'.vote (a.term n + 1) n = some n ∧
      a'.leader = a.leader := by
  have hlt : a.term n < a.term n + 1 := Nat.lt_succ_self _
  have s1 : Move cfg n a (a.raise n (a.term n + 1)) := .raise _ hlt
  generalize e1 : a.raise n (a.term n + 1) = a1 at s1
  have t1 : a1.term n = a.term n + 1 := by rw [← e1]; simp [TermLog.raise]
  have l1 : a1.log = a.log := by rw [← e1]; rfl
  have hcand : a1.cand (a1.term n) n = none := by
    rw [t1, ← e1]
    exact cand_later hI hlt
  have hnew : ∀ e ∈ a1.log n, tm e < a1.term n := by
    intro e he
    rw [l1] at he
    have := hI.logLe n e he
    omega
  have s2 : Move cfg n a1 (a1.stand n) := .stand hcand hnew
  have hself : (a1.stand n).cand (a1.term n) n = some (a1.log n) := set2_self _ _ _ _
  have hnone : (a1.stand n).vote (a1.term n) n = none := by
    rw [t1, ← e1]
    exact vote_later hI hlt
  have s3 : Move cfg n (a1.stand n) ((a1.stand n).grant n n (a1.term n)) :=
    .grant n (a1.log n) hnone hself (Or.inr ⟨rfl, le_refl _⟩)
  refine ⟨_, ((ReflTransGen.single s1).tail s2).tail s3, t1, congrFun l1 n, ?_, ?_, ?_⟩
  · rw [← t1, ← l1]
    exact hself
  · rw [← t1]
    exact set2_self _ _ _ _
  · rw [← e1]
    rfl

namespace Track

/-! ## 2. Later terms -/

theorem stepDown (h : Track cfg made n a₀ st₀ a rf) {t : ℕ} (ht : rf.term < t) :
    Track cfg made n a₀ st₀ (a.raise n t) (rf.stepDown t) := by
  have ht' : a.term n < t := by rw [← h.term]; exact ht
  have hs : Move cfg n a (a.raise n t) := .raise t ht'
  have hterm : (a.raise n t).term n = t := by simp [TermLog.raise]
  refine h.write (.saveMeta t none) rfl rfl (.single hs) ?_ ?_ fun es e => by cases e
  · refine { h.disk with term := hterm.symm, vote := ?_, committed := ?_ }
    · rw [hterm]
      exact vote_later h.inv ht'
    · exact (h.disk.committed.mono hs.ext).le (hs.ext.term n)
  · exact h.mem.follower hs.ext rfl rfl rfl rfl rfl (by simp [Raft.stepDown])

/-- `if args.Term > rf.term { rf.stepDown(args.Term) }` -/
theorem catchUp (h : Track cfg made n a₀ st₀ a rf) {t : ℕ} (ht : rf.term ≤ t) :
    ∃ a', Track cfg made n a₀ st₀ a' (if t > rf.term then rf.stepDown t else rf) ∧
      a'.term n = t ∧ KeepsPoll rf (if t > rf.term then rf.stepDown t else rf) := by
  by_cases hgt : t > rf.term
  · rw [if_pos hgt]
    refine ⟨_, h.stepDown hgt, by simp [TermLog.raise], ?_, le_refl _⟩
    intro e
    cases e
  · rw [if_neg hgt]
    refine ⟨a, h, ?_, KeepsPoll.refl rf⟩
    rw [← h.term]
    omega

/-! ## 3. Elections -/

theorem beginElection (h : Track cfg made n a₀ st₀ a rf) :
    ∃ rf' round a', rf.beginElectionLocked n = some (rf', round) ∧
      Track cfg made n a₀ st₀ a' rf' ∧ Began a' n rf.term rf' round ∧
      rf'.commitIndex = rf.commitIndex := by
  have hv := h.views
  obtain ⟨a', hrun, hterm, hlog, hstand, hvote, hleader⟩ := exists_campaign h.inv n
  have hx : Ext a a' := (run_later hrun h.inv).2.1
  rw [← h.term] at hterm hstand hvote
  refine ⟨rf.campaign n, ⟨rf.term + 1, rf.lastLogIndex, lastTerm tm (a.log n)⟩, a',
    hv.beginElectionLocked n, ?_, ?_, rfl⟩
  · refine h.write (.saveMeta (rf.term + 1) (some n)) rfl rfl hrun ?_ ?_ fun es e => by cases e
    · refine ⟨hterm.symm, ?_, ?_, ?_, ?_, h.disk.snap⟩
      · rw [hterm]
        exact hvote
      · rw [hlog]
        exact h.disk.logs
      · rw [hlog]
        exact h.disk.le
      · rw [hlog]
        exact (h.disk.committed.mono hx).le (hx.term n)
    · refine ⟨h.mem.snapLe, by rw [hlog]; exact h.mem.commitLe, h.mem.appliedLe, ?_, ?_, ?_, ?_, ?_⟩
      · rw [hlog]
        exact (h.mem.committed.mono hx).le (hx.term n)
      · exact ⟨fun e => (by cases e), fun e => (by cases e)⟩
      · intro e
        cases e
      · intro e
        cases e
      · intro _
        rw [hterm, hlog, hleader]
        refine ⟨hstand, fun hl => ?_⟩
        have h1 := h.inv.leaderTerm hl
        have h2 := h.term
        omega
  · exact ⟨rfl, Nat.lt_succ_self _, rfl, hvote, a.log n, hstand, hv.lastLogIndex, rfl⟩

/-- **The vote handler**: a granted vote is on record, for a log not behind the voter's. -/
theorem requestVote (h : Track cfg made n a₀ st₀ a rf) (args : RequestVoteArgs NodeID)
    (hI : Inv cfg.quorums tm a₀) {l : List (LogEntry Cmd)}
    (hc : a₀.cand args.term args.candidateId = some l) (hi : args.lastLogIndex = l.length)
    (ht : args.lastLogTerm = lastTerm tm l) :
    ∃ rf' reply a', rf.requestVote args = some (rf', reply) ∧ Track cfg made n a₀ st₀ a' rf' ∧
      KeepsPoll rf rf' ∧
      (reply.voteGranted = true → a'.vote args.term n = some args.candidateId) := by
  unfold Raft.requestVote
  by_cases hlt : args.term < rf.term
  · rw [if_pos hlt]
    exact ⟨rf, _, a, rfl, h, KeepsPoll.refl rf, fun e => by cases e⟩
  rw [if_neg hlt]
  obtain ⟨a1, h1, hterm, hk⟩ := h.catchUp (t := args.term) (by omega)
  generalize (if args.term > rf.term then rf.stepDown args.term else rf) = rf1 at h1 hk ⊢
  simp only [h1.views.lastLogTerm, h1.views.lastLogIndex, Option.bind_eq_bind, Option.bind_some]
  split
  · rename_i hgrant
    obtain ⟨hfree, hlog⟩ := hgrant
    rw [ht, hi] at hlog
    have hup : UpToDate tm l (a1.log n) := hlog
    have hc1 : a1.cand (a1.term n) args.candidateId = some l := by
      rw [hterm]
      exact (h1.ext hI).cand hc
    obtain ⟨a2, hrun, hvote, ht2, hl2, hd2⟩ : ∃ a2, ReflTransGen (Move cfg n) a1 a2 ∧
        a2.vote (a1.term n) n = some args.candidateId ∧ a2.term = a1.term ∧ a2.log = a1.log ∧
        a2.leader = a1.leader := by
      have hv := h1.disk.vote
      rcases hfree with e | e
      · have hs : Move cfg n a1 (a1.grant n args.candidateId (a1.term n)) :=
          .grant _ l (hv.trans e) hc1 hup
        exact ⟨_, .single hs, set2_self _ _ _ _, rfl, rfl, rfl⟩
      · -- a repeated request of the candidate already voted for
        exact ⟨a1, .refl, hv.trans e, rfl, rfl, rfl⟩
    have hx : Ext a1 a2 := (run_later hrun h1.inv).2.1
    refine ⟨_, _, a2, rfl, ?_, ⟨hk.round, hk.commit⟩, fun _ => by rw [← hterm]; exact hvote⟩
    refine h1.write (.saveMeta rf1.term (some args.candidateId)) rfl rfl hrun ?_ ?_
      fun es e => by cases e
    · refine ⟨?_, ?_, ?_, ?_, ?_, h1.disk.snap⟩
      · rw [ht2]
        exact h1.disk.term
      · rw [ht2]
        exact hvote
      · rw [hl2]
        exact h1.disk.logs
      · rw [hl2]
        exact h1.disk.le
      · rw [ht2, hl2]
        exact h1.disk.committed.mono hx
    · exact { h1.mem.later hx (congrFun ht2 n) (congrFun hl2 n) (congrFun hd2 _) with }
  · exact ⟨rf1, _, a1, rfl, h1, hk, fun e => by cases e⟩

/-- What an election timer or a `TimeoutNow` leaves: a poll begun, or nothing. -/
def RoundOk (a : Record NodeID Cmd) (n : NodeID) (rf rf' : Raft NodeID Cmd) :
    Option ElectionRound → Prop
  | none => KeepsPoll rf rf'
  | some round => Began a n rf.term rf' round ∧ rf.commitIndex ≤ rf'.commitIndex

omit [DecidableEq NodeID] [Inhabited Cmd] in
theorem RoundOk.commit {round : Option ElectionRound} (h : RoundOk a n rf rf' round) :
    rf.commitIndex ≤ rf'.commitIndex := by
  cases round with
  | none => exact KeepsPoll.commit h
  | some round => exact h.2

theorem tickerFire (h : Track cfg made n a₀ st₀ a rf) (generation : ℕ) :
    ∃ rf' round a', rf.tickerFire n generation = some (rf', round) ∧
      Track cfg made n a₀ st₀ a' rf' ∧ RoundOk a' n rf rf' round := by
  unfold Raft.tickerFire
  by_cases hc : rf.customerId = .leader ∨ rf.electionGeneration ≠ generation
  · rw [if_pos hc]
    exact ⟨rf, none, a, rfl, h, KeepsPoll.refl rf⟩
  · rw [if_neg hc]
    obtain ⟨rf', round, a', he, ht, hb, hci⟩ := h.beginElection
    refine ⟨rf', some round, a', ?_, ht, hb, hci.ge⟩
    rw [he]
    rfl

theorem timeoutNow (h : Track cfg made n a₀ st₀ a rf) (args : TimeoutNowArgs NodeID) :
    ∃ rf' reply round a', rf.timeoutNow n args = some (rf', reply, round) ∧
      Track cfg made n a₀ st₀ a' rf' ∧ RoundOk a' n rf rf' round := by
  unfold Raft.timeoutNow
  by_cases hlt : args.term < rf.term
  · rw [if_pos hlt]
    exact ⟨rf, _, none, a, rfl, h, KeepsPoll.refl rf⟩
  rw [if_neg hlt]
  obtain ⟨a1, h1, hterm, hk⟩ := h.catchUp (t := args.term) (by omega)
  generalize (if args.term > rf.term then rf.stepDown args.term else rf) = rf1 at h1 hk ⊢
  have hle : rf.term ≤ rf1.term := by
    rw [h1.term, hterm]
    omega
  dsimp only
  by_cases hlead : some args.leaderId ≠ rf1.leaderId
  · rw [if_pos hlead]
    exact ⟨rf1, _, none, a1, rfl, h1, hk⟩
  rw [if_neg hlead]
  by_cases hidx : args.lastLogIndex < rf1.snapshotIndex ∨ args.lastLogIndex ≠ rf1.lastLogIndex
  · rw [if_pos hidx]
    exact ⟨rf1, _, none, a1, rfl, h1, hk⟩
  rw [if_neg hidx]
  have hlen := h1.views.lastLogIndex
  obtain ⟨e, he, _, _⟩ := h1.views.logAt (i := args.lastLogIndex) (by omega) (by omega)
  rw [he]
  simp only [Option.bind_eq_bind, Option.bind_some]
  by_cases hte : e.term ≠ args.lastLogTerm
  · rw [if_pos hte]
    exact ⟨rf1, _, none, a1, rfl, h1, hk⟩
  · rw [if_neg hte]
    obtain ⟨rf2, round, a2, hb, h2, hbegan, hci⟩ := h1.beginElection
    rw [hb]
    refine ⟨rf2, _, some round, a2, rfl, h2, ?_, hk.commit.trans hci.ge⟩
    exact { hbegan with later := lt_of_le_of_lt hle hbegan.later }

end Track

/-! ## 4. Counting votes -/

omit [Inhabited Cmd] in
/-- A round asks every other member once. -/
theorem countP_voteCalls (cfg : Config NodeID) (n d : NodeID) (t : ℕ) (round : ElectionRound) :
    (voteCalls cfg n (some round) : List (NodeID × Call NodeID Cmd)).countP (isVoteCall t d) ≤
      if d = n then 0 else 1 := by
  have hle : (voteCalls cfg n (some round) : List (NodeID × Call NodeID Cmd)).countP
      (isVoteCall t d) ≤ (cfg.nodeIDs.filter (· ≠ n)).count d := by
    unfold voteCalls Raft.sendRequestVotes List.count
    dsimp only
    rw [List.map_map, List.countP_map]
    refine List.countP_mono_left fun id _ hid => ?_
    have h2 : id = d ∧ round.term = t := by simpa [isVoteCall] using hid
    simp [h2.1]
  refine hle.trans ?_
  by_cases hd : d = n
  · rw [if_pos hd, List.count_eq_zero_of_not_mem]
    simp [hd]
  · rw [if_neg hd]
    exact List.nodup_iff_count_le_one.mp (cfg.nodup.filter _) d

omit [Inhabited Cmd] in
/-- A poll just begun: the one voter is the candidate itself. -/
theorem PollOk.began {t₀ : ℕ} {round : ElectionRound}
    {calls : List (NodeID × Call NodeID Cmd)} (hn : n ∈ cfg.nodeIDs)
    (hb : Began a n t₀ rf round)
    (hcalls : ∀ x ∈ calls, ∀ args, x.2 = .requestVote args → args.term ≤ t₀) :
    PollOk cfg a n rf (calls ++ voteCalls cfg n (some round)) := by
  intro _
  have hold : ∀ d, calls.countP (isVoteCall rf.term d) = 0 := by
    intro d
    refine List.countP_eq_zero.mpr fun x hx hcall => ?_
    obtain ⟨id, call⟩ := x
    cases call with
    | requestVote args =>
        have h1 := hcalls _ hx args rfl
        have h2 : id = d ∧ args.term = rf.term := by simpa [isVoteCall] using hcall
        have h3 := hb.term
        have h4 := hb.later
        omega
    | appendEntries args => simp [isVoteCall] at hcall
    | timeoutNow args => simp [isVoteCall] at hcall
  have hcount : ∀ d, (calls ++ voteCalls cfg n (some round)).countP (isVoteCall rf.term d) ≤
      if d = n then 0 else 1 := by
    intro d
    rw [List.countP_append, hold d, Nat.zero_add]
    exact countP_voteCalls cfg n d rf.term round
  refine ⟨{n}, ?_, by rw [hb.count]; rfl, fun v hv => ?_, fun d => ?_, fun d hd => ?_⟩
  · simpa using hn
  · rw [Finset.mem_singleton.mp hv, hb.term]
    exact hb.self
  · refine (hcount d).trans ?_
    split <;> omega
  · have := hcount d
    rw [if_pos (Finset.mem_singleton.mp hd)] at this
    omega

theorem countP_eraseIdx_le {α : Type} (p : α → Bool) (l : List α) (k : ℕ) :
    (l.eraseIdx k).countP p ≤ l.countP p := (List.eraseIdx_sublist l k).countP_le

theorem countP_eraseIdx_succ {α : Type} {p : α → Bool} {l : List α} {k : ℕ} {x : α}
    (hx : l[k]? = some x) (hp : p x = true) : (l.eraseIdx k).countP p + 1 = l.countP p := by
  obtain ⟨hk, e⟩ := List.getElem?_eq_some_iff.mp hx
  have hl : l = l.take k ++ x :: l.drop (k + 1) := by
    rw [← e, List.getElem_cons_drop, List.take_append_drop]
  rw [List.eraseIdx_eq_take_drop_succ, List.countP_append]
  conv_rhs => rw [hl, List.countP_append, List.countP_cons_of_pos hp]
  omega

omit [Inhabited Cmd] in
/-- A counted vote: the voter was not counted before and will not be again. -/
theorem PollOk.count {calls : List (NodeID × Call NodeID Cmd)} {k : ℕ} {d : NodeID}
    {args : RequestVoteArgs NodeID} (h : PollOk cfg a n rf calls) (hr : rf.customerId = .candidate)
    (hk : calls[k]? = some (d, .requestVote args)) (ht : args.term = rf.term)
    (hd : d ∈ cfg.nodeIDs) (hv : a.vote rf.term d = some n) :
    ∃ S : Finset NodeID, S ⊆ cfg.nodeIDs.toFinset ∧ S.card = rf.voteCount + 1 ∧
      (∀ v ∈ S, a.vote rf.term v = some n) ∧
      (∀ d', (calls.eraseIdx k).countP (isVoteCall rf.term d') ≤ 1) ∧
      ∀ d' ∈ S, (calls.eraseIdx k).countP (isVoteCall rf.term d') = 0 := by
  obtain ⟨S, hS, hcard, hvS, hone, hzero⟩ := h hr
  have hcall : isVoteCall rf.term d (d, (.requestVote args : Call NodeID Cmd)) = true := by
    simp [isVoteCall, ht]
  have hsucc := countP_eraseIdx_succ hk hcall
  have hnot : d ∉ S := by
    intro hmem
    have := hzero d hmem
    omega
  refine ⟨insert d S, ?_, ?_, fun v hvm => ?_, fun d' => ?_, fun d' hd' => ?_⟩
  · refine Finset.insert_subset ?_ hS
    simpa using hd
  · rw [Finset.card_insert_of_notMem hnot, hcard]
  · rcases Finset.mem_insert.mp hvm with rfl | hm
    · exact hv
    · exact hvS v hm
  · exact (countP_eraseIdx_le _ _ _).trans (hone d')
  · rcases Finset.mem_insert.mp hd' with rfl | hm
    · have := hone d'
      omega
    · have h1 := countP_eraseIdx_le (isVoteCall rf.term d') calls k
      have h2 := hzero d' hm
      omega

/-- **A vote reply**: the count grows by a new voter, and enough voters are a quorum. -/
theorem Track.sendRequestVote (h : Track cfg made n a₀ st₀ a rf)
    {calls : List (NodeID × Call NodeID Cmd)} {k : ℕ} {d : NodeID}
    {args : RequestVoteArgs NodeID} {reply : RequestVoteReply}
    (hpoll : PollOk cfg a n rf calls) (hk : calls[k]? = some (d, .requestVote args))
    (hd : d ∈ cfg.nodeIDs)
    (hv : reply.voteGranted = true → a.vote args.term d = some n) :
    ∃ a', Track cfg made n a₀ st₀ a' (rf.sendRequestVote n cfg.nodeIDs args reply) ∧
      PollOk cfg a' n (rf.sendRequestVote n cfg.nodeIDs args reply) (calls.eraseIdx k) ∧
      (rf.sendRequestVote n cfg.nodeIDs args reply).commitIndex = rf.commitIndex := by
  unfold Raft.sendRequestVote
  by_cases hgt : reply.term > rf.term
  · rw [if_pos hgt]
    refine ⟨_, h.stepDown hgt, ?_, rfl⟩
    intro e
    cases e
  rw [if_neg hgt]
  by_cases hskip : ¬ reply.voteGranted ∨ rf.customerId ≠ .candidate ∨ rf.term ≠ args.term
  · rw [if_pos hskip]
    refine ⟨a, h, hpoll.mono (Ext.refl a) (fun e => ⟨e, rfl, rfl⟩) fun t d' => ?_, rfl⟩
    exact countP_eraseIdx_le _ _ _
  rw [if_neg hskip]
  simp only [not_or, not_not] at hskip
  obtain ⟨hg, hr, ht⟩ := hskip
  have hvote : a.vote rf.term d = some n := by
    rw [ht]
    exact hv hg
  obtain ⟨S, hS, hcard, hvS, hone, hzero⟩ := hpoll.count hr hk ht.symm hd hvote
  dsimp only
  by_cases hwin : rf.voteCount + 1 > cfg.nodeIDs.length / 2
  · rw [if_pos hwin]
    have hQ : cfg.quorums.isQuorum S := ⟨hS, by rw [hcard]; exact hwin⟩
    have hvS' : ∀ v ∈ S, a.vote (a.term n) v = some n := by
      rw [← h.term]
      exact hvS
    have hnone : a.leader (a.term n) = none := by
      cases hl : a.leader (a.term n) with
      | none => rfl
      | some c =>
          -- the votes for another leader would meet these
          have e := h.inv.leader_unique hl hQ hvS'
          rw [e] at hl
          exact absurd hl (h.mem.stands hr).2
    have hs : Move cfg n a (a.elect n (a.term n)) :=
      .elect S hnone (h.mem.stands hr).1 hQ hvS'
    refine ⟨a.elect n (a.term n), h.quiet rfl rfl (.single hs) ?_ ?_, fun e => (by cases e), rfl⟩
    · exact h.disk.later hs.ext rfl rfl rfl
    · have hcom := h.mem.committed.mono hs.ext
      refine ⟨h.mem.snapLe, h.mem.commitLe, h.mem.appliedLe, hcom, ?_, ?_, ?_, ?_⟩
      · exact ⟨fun _ => rfl, fun _ => rfl⟩
      · intro _
        exact Function.update_self _ _ _
      · intro _ m hm hpos
        simp [hm] at hpos
      · intro e
        cases e
  · rw [if_neg hwin]
    refine ⟨a, h.quiet rfl rfl .refl h.disk { h.mem with }, ?_, rfl⟩
    exact fun _ => ⟨S, hS, hcard, hvS, hone, hzero⟩

end

end RaftLab.Raft1

/-
  File:      RaftLab/Lib/TermLogInv.lean
  Subject:   The invariant of the abstract replicated log and what follows from it.

  * `Good` -- a log every prefix of which is a prefix of the log the leader of its last term
    leads with; log matching (`Good.matching`) is a property of any two good logs.
  * `Inv` -- the invariant; `inv_init`, `Step.inv`, one lemma for each kind of step.
  * `Ext`, `Others` -- what a step keeps for ever, and what it leaves alone at other nodes.
  * `Chosen`, `leader_complete` -- an index confirmed by a quorum in its own term is in the log
    of every later leader. The induction is on the later term and uses the invariant only.
  * `CommittedBy` -- prefixes below a chosen index; any two are comparable
    (`committed_comparable`), and every leader from then on holds them (`CommittedBy.llog`).
-/
import RaftLab.Lib.TermLog

namespace RaftLab.Lib

namespace TermLog

variable {ν ε : Type*} {tm : ε → ℕ}

/-! ## 1. Good logs -/

/-- Every entry of the log was led by the leader of its term, with this prefix before it. -/
def Good (tm : ε → ℕ) (a : TermLog ν ε) (l : List ε) : Prop :=
  ∀ p e, p ++ [e] <+: l → a.leader (tm e) ≠ none ∧ p ++ [e] <+: a.llog (tm e)

theorem Good.shorter {a : TermLog ν ε} {l p : List ε} (h : Good tm a l) (hp : p <+: l) :
    Good tm a p := fun q e hq => h q e (hq.trans hp)

theorem Good.mono {a a' : TermLog ν ε} {l : List ε} (h : Good tm a l)
    (hl : ∀ t, a.leader t ≠ none → a'.leader t ≠ none ∧ a.llog t <+: a'.llog t) :
    Good tm a' l := fun p e hp =>
  ⟨(hl _ (h p e hp).1).1, (h p e hp).2.trans (hl _ (h p e hp).1).2⟩

/-- **Log matching**: good logs with the same term at an index are equal up to it. -/
theorem Good.matching {a : TermLog ν ε} {l l' : List ε} (h : Good tm a l) (h' : Good tm a l')
    {i : ℕ} (hi : i ≤ l.length) (hi' : i ≤ l'.length) (ht : termAt tm l i = termAt tm l' i) :
    l.take i = l'.take i := by
  rcases Nat.eq_zero_or_pos i with rfl | h0
  · simp
  obtain ⟨p, e, hp, hlen, ep⟩ := exists_prefix_at h0 hi
  obtain ⟨p', e', hp', hlen', ep'⟩ := exists_prefix_at h0 hi'
  have h3 : termAt tm l (p.length + 1) = tm e := termAt_of_isPrefix hp
  have h3' : termAt tm l' (p'.length + 1) = tm e' := termAt_of_isPrefix hp'
  have hte : tm e = tm e' := by
    rw [← h3, ← h3', hlen, hlen', ht]
  have h1 := (h p e hp).2
  have h2 := (h' p' e' hp').2
  rw [← hte] at h2
  rw [ep, ep']
  have hle : (p ++ [e]).length ≤ (p' ++ [e']).length := by simp; omega
  exact (List.prefix_of_prefix_length_le h1 h2 hle).eq_of_length (by simp; omega)

/-! ## 2. The invariant -/

/-- **The invariant of the record.** -/
structure Inv (Q : QuorumSystem ν) (tm : ε → ℕ) (a : TermLog ν ε) : Prop where
  voteTerm : ∀ {t n c}, a.vote t n = some c → t ≤ a.term n
  candTerm : ∀ {t c l}, a.cand t c = some l → t ≤ a.term c
  ackTerm : ∀ {t n k}, a.ack t n k → t ≤ a.term n
  ackDown : ∀ {t n k j}, a.ack t n k → j ≤ k → a.ack t n j
  voteLogVote : ∀ {t n lv}, a.voteLog t n = some lv → ∃ c, a.vote t n = some c
  voteCand : ∀ {t n c}, a.vote t n = some c →
    ∃ l, a.cand t c = some l ∧ ∀ lv, a.voteLog t n = some lv → UpToDate tm l lv
  voteEarly : ∀ {t n c}, a.leader t = none → a.vote t n = some c → ∃ lv, a.voteLog t n = some lv
  leaderQuorum : ∀ {t c}, a.leader t = some c →
    ∃ V, Q.isQuorum V ∧ ∀ n ∈ V, a.vote t n = some c ∧ ∃ lv, a.voteLog t n = some lv
  leaderCand : ∀ {t c}, a.leader t = some c → a.cand t c = some (a.elog t)
  elogLlog : ∀ {t}, a.leader t ≠ none → a.elog t <+: a.llog t
  llogNew : ∀ {t p e}, a.leader t ≠ none → p ++ [e] <+: a.llog t →
    (a.elog t).length ≤ p.length → tm e = t
  leaderLog : ∀ {t c}, a.leader t = some c → a.term c = t → a.log c = a.llog t
  candLt : ∀ {t c l}, a.cand t c = some l → ∀ e ∈ l, tm e < t
  llogLe : ∀ {t}, a.leader t ≠ none → ∀ e ∈ a.llog t, tm e ≤ t
  logLe : ∀ n, ∀ e ∈ a.log n, tm e ≤ a.term n
  goodLog : ∀ n, Good tm a (a.log n)
  goodLlog : ∀ {t}, a.leader t ≠ none → Good tm a (a.llog t)
  goodCand : ∀ {t c l}, a.cand t c = some l → Good tm a l
  goodVote : ∀ {t n lv}, a.voteLog t n = some lv → Good tm a lv
  sortedLog : ∀ n, Sorted tm (a.log n)
  sortedLlog : ∀ {t}, a.leader t ≠ none → Sorted tm (a.llog t)
  sortedVote : ∀ {t n lv}, a.voteLog t n = some lv → Sorted tm lv
  ackOk : ∀ {t n k}, a.ack t n k → a.leader t ≠ none ∧ k ≤ (a.llog t).length ∧
    ((a.llog t).take k <+: a.log n ∨
      ∃ t', t < t' ∧ t' ≤ a.term n ∧ a.leader t' ≠ none ∧ ¬ (a.llog t).take k <+: a.elog t')
  voteAck : ∀ {t t' n k lv}, a.voteLog t' n = some lv → a.ack t n k → t < t' →
    (a.llog t).take k <+: lv ∨
      ∃ t'', t < t'' ∧ t'' < t' ∧ a.leader t'' ≠ none ∧ ¬ (a.llog t).take k <+: a.elog t''

theorem Inv.leaderTerm {Q : QuorumSystem ν} {a : TermLog ν ε} (h : Inv Q tm a) {t : ℕ} {c : ν}
    (hl : a.leader t = some c) : t ≤ a.term c := h.candTerm (h.leaderCand hl)

/-- **At most one candidate of a term can gather a quorum.** -/
theorem Inv.leader_unique {Q : QuorumSystem ν} {a : TermLog ν ε} (h : Inv Q tm a) {t : ℕ}
    {c c' : ν} {V : Finset ν} (hl : a.leader t = some c) (hV : Q.isQuorum V)
    (hvote : ∀ n ∈ V, a.vote t n = some c') : c = c' := by
  obtain ⟨W, hW, hWv⟩ := h.leaderQuorum hl
  obtain ⟨n, hnV, hnW⟩ := Q.meet V W hV hW
  have h1 := (hWv n hnW).1
  rw [hvote n hnV] at h1
  exact (Option.some.inj h1).symm

theorem inv_init (Q : QuorumSystem ν) : Inv Q tm (init : TermLog ν ε) where
  voteTerm h := by cases h
  candTerm h := by cases h
  ackTerm h := h.elim
  ackDown h := h.elim
  voteLogVote h := by cases h
  voteCand h := by cases h
  voteEarly _ h := by cases h
  leaderQuorum h := by cases h
  leaderCand h := by cases h
  elogLlog h := absurd rfl h
  llogNew h := absurd rfl h
  leaderLog h := by cases h
  candLt h := by cases h
  llogLe h := absurd rfl h
  logLe _ _ h := absurd h List.not_mem_nil
  goodLog _ p e h := by simp [init] at h
  goodLlog h := absurd rfl h
  goodCand h := by cases h
  goodVote h := by cases h
  sortedLog _ := List.Pairwise.nil
  sortedLlog h := absurd rfl h
  sortedVote h := by cases h
  ackOk h := h.elim
  voteAck h := by cases h

/-! ## 3. Every step keeps the invariant -/

section Steps

variable [DecidableEq ν] {Q : QuorumSystem ν} {a : TermLog ν ε}

theorem le_update_term {n m : ν} {t : ℕ} (ht : a.term n ≤ t) :
    a.term m ≤ Function.update a.term n t m := by
  by_cases hm : m = n
  · subst hm
    simpa using ht
  · simp [hm]

theorem Inv.raise (h : Inv Q tm a) {n : ν} {t : ℕ} (ht : a.term n < t) :
    Inv Q tm (a.raise n t) :=
  { h with
    voteTerm := fun hv => (h.voteTerm hv).trans (le_update_term ht.le)
    candTerm := fun hc => (h.candTerm hc).trans (le_update_term ht.le)
    ackTerm := fun hk => (h.ackTerm hk).trans (le_update_term ht.le)
    leaderLog := fun {t' c} hl hterm => by
      have hle := h.leaderTerm hl
      by_cases hc : c = n
      · subst hc
        have e : t = t' := by simpa [TermLog.raise] using hterm
        omega
      · exact h.leaderLog hl (by simpa [TermLog.raise, hc] using hterm)
    logLe := fun m e he => (h.logLe m e he).trans (le_update_term ht.le)
    ackOk := fun hk => by
      obtain ⟨h1, h2, h3⟩ := h.ackOk hk
      refine ⟨h1, h2, h3.imp id ?_⟩
      intro ⟨t', hlt, hle, hl, hn⟩
      exact ⟨t', hlt, hle.trans (le_update_term ht.le), hl, hn⟩ }

omit [DecidableEq ν] in
/-- A node has not voted, stood or won in a term it has not entered. -/
theorem Inv.fresh (h : Inv Q tm a) {n : ν} {t : ℕ} (ht : a.term n < t) :
    a.vote t n = none ∧ a.voteLog t n = none ∧ a.cand t n = none ∧ a.leader t ≠ some n := by
  have hv : a.vote t n = none := by
    cases e : a.vote t n with
    | none => rfl
    | some c => exact absurd (h.voteTerm e) (by omega)
  have hc : a.cand t n = none := by
    cases e : a.cand t n with
    | none => rfl
    | some l => exact absurd (h.candTerm e) (by omega)
  refine ⟨hv, ?_, hc, fun hl => absurd (h.leaderTerm hl) (by omega)⟩
  cases e : a.voteLog t n with
  | none => rfl
  | some lv =>
      obtain ⟨c, hvc⟩ := h.voteLogVote e
      rw [hv] at hvc
      cases hvc

omit [DecidableEq ν] in
/-- What a vote cast now, in a term without a leader, knows of the node's confirmations. -/
theorem Inv.ack_at_vote (h : Inv Q tm a) {n : ν} {t k : ℕ} (hk : a.ack t n k)
    (hnone : a.leader (a.term n) = none) :
    (a.llog t).take k <+: a.log n ∨ ∃ t'', t < t'' ∧ t'' < a.term n ∧ a.leader t'' ≠ none ∧
      ¬ (a.llog t).take k <+: a.elog t'' := by
  obtain ⟨_, _, h3⟩ := h.ackOk hk
  refine h3.imp id ?_
  intro ⟨t'', hl1, hl2, hl, hn⟩
  -- the term voted in has no leader yet, so the overwriting leader is an earlier one
  have hne : t'' ≠ a.term n := fun e => hl (e ▸ hnone)
  exact ⟨t'', hl1, by omega, hl, hn⟩

theorem Inv.stand (h : Inv Q tm a) {n : ν} (hc : a.cand (a.term n) n = none)
    (hlt : ∀ e ∈ a.log n, tm e < a.term n) : Inv Q tm (a.stand n) :=
  { h with
    candTerm := fun hc' => by
      rcases set2_eq_some hc' with ⟨rfl, rfl, _⟩ | ⟨_, hc''⟩
      · exact le_refl _
      · exact h.candTerm hc''
    voteCand := fun hv => by
      obtain ⟨l, hl, hup⟩ := h.voteCand hv
      exact ⟨l, set2_of_some hc hl, hup⟩
    leaderCand := fun hl => set2_of_some hc (h.leaderCand hl)
    candLt := fun hc' e he => by
      rcases set2_eq_some hc' with ⟨rfl, rfl, hl⟩ | ⟨_, hc''⟩
      · cases hl
        exact hlt e he
      · exact h.candLt hc'' e he
    goodCand := fun hc' => by
      rcases set2_eq_some hc' with ⟨_, _, hl⟩ | ⟨_, hc''⟩
      · cases hl
        exact h.goodLog n
      · exact h.goodCand hc'' }

/-- The log that a voter of the term shows was shown before, or is that of the new vote. -/
theorem voteLog_grant {n c : ν} {t t' : ℕ} {n' : ν} {lv : List ε}
    (hv : (a.grant n c t).voteLog t' n' = some lv) :
    (t' = t ∧ n' = n ∧ lv = a.log n ∧ a.leader t = none) ∨ a.voteLog t' n' = some lv := by
  rcases set2_eq_some hv with ⟨rfl, rfl, hl⟩ | ⟨_, hv'⟩
  · split at hl
    next hnone =>
      cases hl
      exact Or.inl ⟨rfl, rfl, rfl, hnone⟩
    next => cases hl
  · exact Or.inr hv'

theorem Inv.grant (h : Inv Q tm a) {n c : ν} {l : List ε} (hv : a.vote (a.term n) n = none)
    (hc : a.cand (a.term n) c = some l) (hup : UpToDate tm l (a.log n)) :
    Inv Q tm (a.grant n c (a.term n)) := by
  have fvl : a.voteLog (a.term n) n = none := by
    cases e : a.voteLog (a.term n) n with
    | none => rfl
    | some lv =>
        obtain ⟨c', hc'⟩ := h.voteLogVote e
        rw [hv] at hc'
        cases hc'
  exact { h with
    voteTerm := fun hv' => by
      rcases set2_eq_some hv' with ⟨rfl, rfl, _⟩ | ⟨_, hv''⟩
      · exact le_refl _
      · exact h.voteTerm hv''
    voteLogVote := fun hv' => by
      rcases voteLog_grant hv' with ⟨rfl, rfl, _⟩ | hv''
      · exact ⟨c, set2_self _ _ _ _⟩
      · obtain ⟨c', hc'⟩ := h.voteLogVote hv''
        exact ⟨c', set2_of_some hv hc'⟩
    voteCand := fun hv' => by
      rcases set2_eq_some hv' with ⟨rfl, rfl, e⟩ | ⟨hx, hv''⟩
      · cases e
        refine ⟨l, hc, fun lv hlv => ?_⟩
        rcases voteLog_grant hlv with ⟨_, _, rfl, _⟩ | hlv'
        · exact hup
        · rw [fvl] at hlv'
          cases hlv'
      · obtain ⟨l', hl', hup'⟩ := h.voteCand hv''
        refine ⟨l', hl', fun lv hlv => ?_⟩
        rcases voteLog_grant hlv with ⟨rfl, rfl, _⟩ | hlv'
        · exact absurd ⟨rfl, rfl⟩ hx
        · exact hup' lv hlv'
    voteEarly := fun {t' n' c'} hl hv' => by
      rcases set2_eq_some hv' with ⟨rfl, rfl, _⟩ | ⟨_, hv''⟩
      · have hl' : a.leader (a.term n') = none := hl
        exact ⟨a.log n', by simp [TermLog.grant, hl']⟩
      · obtain ⟨lv, hlv⟩ := h.voteEarly hl hv''
        exact ⟨lv, set2_of_some fvl hlv⟩
    leaderQuorum := fun hl => by
      obtain ⟨V, hV, hq⟩ := h.leaderQuorum hl
      refine ⟨V, hV, fun m hm => ⟨set2_of_some hv (hq m hm).1, ?_⟩⟩
      obtain ⟨lv, hlv⟩ := (hq m hm).2
      exact ⟨lv, set2_of_some fvl hlv⟩
    goodVote := fun hv' => by
      rcases voteLog_grant hv' with ⟨_, _, rfl, _⟩ | hv''
      · exact h.goodLog n
      · exact h.goodVote hv''
    sortedVote := fun hv' => by
      rcases voteLog_grant hv' with ⟨_, _, rfl, _⟩ | hv''
      · exact h.sortedLog n
      · exact h.sortedVote hv''
    voteAck := fun hv' hk hlt => by
      rcases voteLog_grant hv' with ⟨rfl, rfl, rfl, hnone⟩ | hv''
      · exact h.ack_at_vote hk hnone
      · exact h.voteAck hv'' hk hlt }

section Elect

omit [DecidableEq ν]

variable {c : ν} {t t' : ℕ}

theorem elog_elect_self : (a.elect c t).elog t = a.log c := Function.update_self _ _ _

theorem llog_elect_self : (a.elect c t).llog t = a.log c := Function.update_self _ _ _

/-- A term that had a leader keeps it, with both its logs. -/
theorem elect_of_led (hnone : a.leader t = none) (hl : a.leader t' ≠ none) :
    (a.elect c t).leader t' = a.leader t' ∧ (a.elect c t).llog t' = a.llog t' ∧
      (a.elect c t).elog t' = a.elog t' := by
  have hne : t' ≠ t := fun e => hl (e ▸ hnone)
  simp [TermLog.elect, hne]

/-- A leader of afterwards is the new one, or led before. -/
theorem leader_elect {c' : ν} (hl : (a.elect c t).leader t' = some c') :
    (t' = t ∧ c' = c) ∨ (t' ≠ t ∧ a.leader t' = some c') := by
  by_cases ht : t' = t
  · subst ht
    have e : c = c' := by simpa [TermLog.elect] using hl
    exact Or.inl ⟨rfl, e.symm⟩
  · exact Or.inr ⟨ht, by simpa [TermLog.elect, ht] using hl⟩

theorem led_elect (hl : (a.elect c t).leader t' ≠ none) : t' = t ∨ a.leader t' ≠ none := by
  by_cases ht : t' = t
  · exact Or.inl ht
  · exact Or.inr (by simpa [TermLog.elect, ht] using hl)

theorem Good.elect {l : List ε} (hg : Good tm a l) (hnone : a.leader t = none) :
    Good tm (a.elect c t) l := by
  refine hg.mono fun t' hl => ?_
  obtain ⟨h1, h2, _⟩ := elect_of_led (c := c) hnone hl
  rw [h1, h2]
  exact ⟨hl, List.prefix_refl _⟩

theorem Inv.elect (h : Inv Q tm a) {V : Finset ν} (hnone : a.leader (a.term c) = none)
    (hc : a.cand (a.term c) c = some (a.log c)) (hV : Q.isQuorum V)
    (hvote : ∀ n ∈ V, a.vote (a.term c) n = some c) : Inv Q tm (a.elect c (a.term c)) := by
  have keep : ∀ {t}, a.leader t ≠ none → (a.elect c (a.term c)).leader t = a.leader t ∧
      (a.elect c (a.term c)).llog t = a.llog t ∧ (a.elect c (a.term c)).elog t = a.elog t :=
    elect_of_led hnone
  exact { h with
    voteEarly := fun {t n c'} hl hv => by
      by_cases ht : t = a.term c
      · subst ht
        simp [TermLog.elect] at hl
      · exact h.voteEarly (by simpa [TermLog.elect, ht] using hl) hv
    leaderQuorum := fun hl => by
      rcases leader_elect hl with ⟨rfl, rfl⟩ | ⟨_, hl'⟩
      · exact ⟨V, hV, fun n hn => ⟨hvote n hn, h.voteEarly hnone (hvote n hn)⟩⟩
      · exact h.leaderQuorum hl'
    leaderCand := fun hl => by
      rcases leader_elect hl with ⟨rfl, rfl⟩ | ⟨_, hl'⟩
      · rw [elog_elect_self]
        exact hc
      · rw [(keep (by rw [hl']; simp)).2.2]
        exact h.leaderCand hl'
    elogLlog := fun hl => by
      rcases led_elect hl with rfl | hl'
      · rw [elog_elect_self, llog_elect_self]
      · rw [(keep hl').2.1, (keep hl').2.2]
        exact h.elogLlog hl'
    llogNew := fun hl hp hlen => by
      rcases led_elect hl with rfl | hl'
      · rw [llog_elect_self] at hp
        rw [elog_elect_self] at hlen
        have := hp.length_le
        simp at this
        omega
      · rw [(keep hl').2.1] at hp
        rw [(keep hl').2.2] at hlen
        exact h.llogNew hl' hp hlen
    leaderLog := fun hl hterm => by
      rcases leader_elect hl with ⟨rfl, rfl⟩ | ⟨_, hl'⟩
      · show a.log _ = _
        exact llog_elect_self.symm
      · rw [(keep (by rw [hl']; simp)).2.1]
        exact h.leaderLog hl' hterm
    llogLe := fun hl e he => by
      rcases led_elect hl with rfl | hl'
      · rw [llog_elect_self] at he
        exact (h.candLt hc e he).le
      · rw [(keep hl').2.1] at he
        exact h.llogLe hl' e he
    goodLog := fun n => (h.goodLog n).elect hnone
    goodLlog := fun hl => by
      rcases led_elect hl with rfl | hl'
      · rw [llog_elect_self]
        exact (h.goodLog c).elect hnone
      · rw [(keep hl').2.1]
        exact (h.goodLlog hl').elect hnone
    goodCand := fun hc' => (h.goodCand hc').elect hnone
    goodVote := fun hv => (h.goodVote hv).elect hnone
    sortedLlog := fun hl => by
      rcases led_elect hl with rfl | hl'
      · rw [llog_elect_self]
        exact h.sortedLog c
      · rw [(keep hl').2.1]
        exact h.sortedLlog hl'
    ackOk := fun hk => by
      obtain ⟨h1, h2, h3⟩ := h.ackOk hk
      rw [(keep h1).1, (keep h1).2.1]
      refine ⟨h1, h2, h3.imp id ?_⟩
      intro ⟨t', hlt, hle, hl, hn⟩
      refine ⟨t', hlt, hle, ?_⟩
      rw [(keep hl).1, (keep hl).2.2]
      exact ⟨hl, hn⟩
    voteAck := fun hv hk hlt => by
      have h1 := (h.ackOk hk).1
      rw [(keep h1).2.1]
      refine (h.voteAck hv hk hlt).imp id ?_
      intro ⟨t'', hl1, hl2, hl, hn⟩
      refine ⟨t'', hl1, hl2, ?_⟩
      rw [(keep hl).1, (keep hl).2.2]
      exact ⟨hl, hn⟩ }

end Elect

section Append

variable {c : ν} {t t' : ℕ} {e : ε}

theorem llog_append_self : (a.append c t e).llog t = a.llog t ++ [e] := Function.update_self _ _ _

theorem llog_append_of_ne (ht : t' ≠ t) : (a.append c t e).llog t' = a.llog t' :=
  Function.update_of_ne ht _ _

theorem log_append_self : (a.append c t e).log c = a.log c ++ [e] := Function.update_self _ _ _

theorem log_append_of_ne {n : ν} (hn : n ≠ c) : (a.append c t e).log n = a.log n :=
  Function.update_of_ne hn _ _

theorem llog_prefix_append (t' : ℕ) : a.llog t' <+: (a.append c t e).llog t' := by
  by_cases ht : t' = t
  · subst ht
    rw [llog_append_self]
    exact List.prefix_append _ _
  · rw [llog_append_of_ne ht]

theorem log_prefix_append (n : ν) : a.log n <+: (a.append c t e).log n := by
  by_cases hn : n = c
  · subst hn
    rw [log_append_self]
    exact List.prefix_append _ _
  · rw [log_append_of_ne hn]

theorem take_llog_append {k : ℕ} (hk : k ≤ (a.llog t').length) :
    ((a.append c t e).llog t').take k = (a.llog t').take k := by
  obtain ⟨r, hr⟩ := llog_prefix_append (a := a) (c := c) (t := t) (e := e) t'
  rw [← hr, List.take_append_of_le_length hk]

theorem Good.append {l : List ε} (hg : Good tm a l) : Good tm (a.append c t e) l :=
  hg.mono fun t' ht => ⟨ht, llog_prefix_append t'⟩

/-- The leader's longer log is good: its last entry is led in its own term. -/
theorem Good.append_last (hg : Good tm a (a.llog t)) (hne : a.leader t ≠ none) (he : tm e = t) :
    Good tm (a.append c t e) (a.llog t ++ [e]) := by
  intro p x hp
  rcases List.prefix_concat_iff.mp hp with heq | hp'
  · have hx : x = e := List.singleton_inj.mp (List.append_inj' heq rfl).2
    subst hx
    rw [he]
    refine ⟨hne, ?_⟩
    rw [heq, llog_append_self]
  · exact hg.append p x hp'

theorem Inv.append (h : Inv Q tm a) (hl : a.leader (a.term c) = some c) (he : tm e = a.term c) :
    Inv Q tm (a.append c (a.term c) e) := by
  have hne : a.leader (a.term c) ≠ none := by rw [hl]; simp
  have hlog : a.log c = a.llog (a.term c) := h.leaderLog hl rfl
  have goodNew := (h.goodLlog hne).append_last (c := c) hne he
  have sortedNew : Sorted tm (a.llog (a.term c) ++ [e]) :=
    (h.sortedLlog hne).concat fun x hx => he ▸ h.llogLe hne x hx
  exact { h with
    elogLlog := fun hl' => (h.elogLlog hl').trans (llog_prefix_append _)
    llogNew := fun {t p x} hl' hp hlen => by
      by_cases ht : t = a.term c
      · subst ht
        rw [llog_append_self] at hp
        rcases List.prefix_concat_iff.mp hp with heq | hp'
        · rw [List.singleton_inj.mp (List.append_inj' heq rfl).2, he]
        · exact h.llogNew hl' hp' hlen
      · rw [llog_append_of_ne ht] at hp
        exact h.llogNew hl' hp hlen
    leaderLog := fun {t c'} hl' hterm => by
      by_cases hc : c' = c
      · subst hc
        have ht : a.term c' = t := hterm
        subst ht
        rw [log_append_self, llog_append_self, hlog]
      · have ht : t ≠ a.term c := by
          intro ht
          subst ht
          have e' : some c = some c' := hl.symm.trans hl'
          exact hc (Option.some.inj e').symm
        rw [log_append_of_ne hc, llog_append_of_ne ht]
        exact h.leaderLog hl' hterm
    llogLe := fun {t} hl' x hx => by
      by_cases ht : t = a.term c
      · subst ht
        rw [llog_append_self] at hx
        rcases List.mem_append.mp hx with hx | hx
        · exact h.llogLe hl' x hx
        · rw [List.mem_singleton.mp hx, he]
      · rw [llog_append_of_ne ht] at hx
        exact h.llogLe hl' x hx
    logLe := fun n x hx => by
      by_cases hn : n = c
      · subst hn
        rw [log_append_self] at hx
        rcases List.mem_append.mp hx with hx | hx
        · exact h.logLe n x hx
        · rw [List.mem_singleton.mp hx]
          exact he.le
      · rw [log_append_of_ne hn] at hx
        exact h.logLe n x hx
    goodLog := fun n => by
      by_cases hn : n = c
      · subst hn
        rw [log_append_self, hlog]
        exact goodNew
      · rw [log_append_of_ne hn]
        exact (h.goodLog n).append
    goodLlog := fun {t} hl' => by
      by_cases ht : t = a.term c
      · subst ht
        rw [llog_append_self]
        exact goodNew
      · rw [llog_append_of_ne ht]
        exact (h.goodLlog hl').append
    goodCand := fun hc => (h.goodCand hc).append
    goodVote := fun hv => (h.goodVote hv).append
    sortedLog := fun n => by
      by_cases hn : n = c
      · subst hn
        rw [log_append_self, hlog]
        exact sortedNew
      · rw [log_append_of_ne hn]
        exact h.sortedLog n
    sortedLlog := fun {t} hl' => by
      by_cases ht : t = a.term c
      · subst ht
        rw [llog_append_self]
        exact sortedNew
      · rw [llog_append_of_ne ht]
        exact h.sortedLlog hl'
    ackOk := fun {t n k} hk => by
      obtain ⟨h1, h2, h3⟩ := h.ackOk hk
      rw [take_llog_append h2]
      exact ⟨h1, h2.trans (llog_prefix_append t).length_le,
        h3.imp (fun hp => hp.trans (log_prefix_append n)) id⟩
    voteAck := fun hv hk hlt => by
      rw [take_llog_append (h.ackOk hk).2.1]
      exact h.voteAck hv hk hlt }

end Append

theorem Inv.adopt (h : Inv Q tm a) {n : ν} {l : List ε} (hl : a.leader (a.term n) ≠ none)
    (hpre : l <+: a.llog (a.term n))
    (hkeep : ∀ p, p <+: a.log n → p <+: a.llog (a.term n) → p <+: l) :
    Inv Q tm (a.adopt n l) := by
  have log_new : (a.adopt n l).log n = l := by simp [TermLog.adopt]
  have log_old : ∀ {m}, m ≠ n → (a.adopt n l).log m = a.log m := by
    intro m hm
    simp [TermLog.adopt, hm]
  exact { h with
    leaderLog := fun {t c} hl' hterm => by
      by_cases hc : c = n
      · subst hc
        have ht : a.term c = t := hterm
        subst ht
        have hlog := h.leaderLog hl' rfl
        have hback : a.llog (a.term c) <+: l := hkeep _ (by rw [hlog]) (List.prefix_refl _)
        rw [log_new]
        exact hpre.eq_of_length_le hback.length_le
      · rw [log_old hc]
        exact h.leaderLog hl' hterm
    logLe := fun m e he => by
      by_cases hm : m = n
      · subst hm
        rw [log_new] at he
        exact h.llogLe hl e (hpre.subset he)
      · rw [log_old hm] at he
        exact h.logLe m e he
    goodLog := fun m => by
      by_cases hm : m = n
      · subst hm
        rw [log_new]
        exact (h.goodLlog hl).shorter hpre
      · rw [log_old hm]
        exact h.goodLog m
    sortedLog := fun m => by
      by_cases hm : m = n
      · subst hm
        rw [log_new]
        exact Sorted.shorter (h.sortedLlog hl) hpre
      · rw [log_old hm]
        exact h.sortedLog m
    ackOk := fun {t m k} hk => by
      obtain ⟨h1, h2, h3⟩ := h.ackOk hk
      refine ⟨h1, h2, ?_⟩
      by_cases hm : m = n
      · subst hm
        rw [log_new]
        rcases h3 with hp | hbad
        · by_cases hin : (a.llog t).take k <+: a.llog (a.term m)
          · exact Or.inl (hkeep _ hp hin)
          · -- the leader followed now lacks the confirmed prefix: it is a later one
            have hne : t ≠ a.term m := fun e => hin (e ▸ List.take_prefix _ _)
            have hle : t ≤ a.term m := h.ackTerm hk
            exact Or.inr ⟨a.term m, by omega, le_refl _, hl,
              fun hp' => hin (hp'.trans (h.elogLlog hl))⟩
        · exact Or.inr hbad
      · rw [log_old hm]
        exact h3 }

omit [DecidableEq ν] in
theorem Inv.confirm (h : Inv Q tm a) {n : ν} {k : ℕ} (hl : a.leader (a.term n) ≠ none)
    (hk : k ≤ (a.llog (a.term n)).length) (hpre : (a.llog (a.term n)).take k <+: a.log n) :
    Inv Q tm (a.confirm n (a.term n) k) :=
  { h with
    ackTerm := fun {t m j} hj => by
      rcases hj with ⟨rfl, rfl, _⟩ | hj
      · exact le_refl _
      · exact h.ackTerm hj
    ackDown := fun {t m j i} hj hi => by
      rcases hj with ⟨rfl, rfl, hle⟩ | hj
      · exact Or.inl ⟨rfl, rfl, hi.trans hle⟩
      · exact Or.inr (h.ackDown hj hi)
    ackOk := fun {t m j} hj => by
      rcases hj with ⟨rfl, rfl, hle⟩ | hj
      · exact ⟨hl, hle.trans hk, Or.inl ((List.take_prefix_take_left hle).trans hpre)⟩
      · exact h.ackOk hj
    voteAck := fun {t t' m j lv} hv hj hlt => by
      rcases hj with ⟨rfl, rfl, _⟩ | hj
      · obtain ⟨c, hc⟩ := h.voteLogVote hv
        exact absurd (h.voteTerm hc) (by omega)
      · exact h.voteAck hv hj hlt }

/-- **Every step keeps the invariant.** -/
theorem Step.inv {a' : TermLog ν ε} {n : ν} (hs : Step Q tm n a a') (h : Inv Q tm a) :
    Inv Q tm a' := by
  cases hs with
  | raise t ht => exact h.raise ht
  | stand hc hlt => exact h.stand hc hlt
  | grant c l hv hc hup => exact h.grant hv hc hup
  | elect V hl hc hV hvote => exact h.elect hl hc hV hvote
  | append e hl he => exact h.append hl he
  | adopt l hl hpre hkeep => exact h.adopt hl hpre hkeep
  | confirm k hl hk hpre => exact h.confirm hl hk hpre

end Steps

end TermLog

end RaftLab.Lib

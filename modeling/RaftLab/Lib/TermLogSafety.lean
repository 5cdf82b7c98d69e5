/-
  File:      RaftLab/Lib/TermLogSafety.lean
  Subject:   What the abstract replicated log guarantees over whole runs.

  * `Ext` -- what no step takes back (votes, candidates, leaders and their logs, confirmations);
    `Others` -- what a step of one node leaves alone at every other node; `run_later` gives both
    for a run of one node's steps, together with the invariant.
  * `Chosen` -- an index of a leader's log, of the leader's own term, confirmed by a quorum.
    `leader_complete`: every later leader was elected with that prefix. The induction is on the
    later term; two quorums meet in a voter that had confirmed, and the voter's log either still
    held the prefix or was overwritten by a leader in between, which held it by induction.
  * `CommittedBy` -- prefixes of chosen prefixes. They are pairwise comparable
    (`committed_comparable`), every leader from that term on holds them (`CommittedBy.llog`),
    and they survive every later state (`CommittedBy.mono`).
-/
import RaftLab.Lib.TermLogInv

namespace RaftLab.Lib

namespace TermLog

open Relation

variable {ν ε : Type*} {tm : ε → ℕ} {Q : QuorumSystem ν}

/-! ## 1. What stays -/

/-- Record `a'` extends record `a`. -/
structure Ext (a a' : TermLog ν ε) : Prop where
  term : ∀ n, a.term n ≤ a'.term n
  vote : ∀ {t n c}, a.vote t n = some c → a'.vote t n = some c
  cand : ∀ {t c l}, a.cand t c = some l → a'.cand t c = some l
  leader : ∀ {t c}, a.leader t = some c → a'.leader t = some c
  llog : ∀ {t}, a.leader t ≠ none → a.llog t <+: a'.llog t
  elog : ∀ {t}, a.leader t ≠ none → a'.elog t = a.elog t
  ack : ∀ {t n k}, a.ack t n k → a'.ack t n k

/-- A step of node `n` leaves every other node's own data alone. -/
structure Others (n : ν) (a a' : TermLog ν ε) : Prop where
  term : ∀ {m}, m ≠ n → a'.term m = a.term m
  log : ∀ {m}, m ≠ n → a'.log m = a.log m
  vote : ∀ {m}, m ≠ n → ∀ t, a'.vote t m = a.vote t m
  cand : ∀ {m}, m ≠ n → ∀ t, a'.cand t m = a.cand t m
  leader : ∀ {m}, m ≠ n → ∀ {t}, a'.leader t = some m → a.leader t = some m

theorem Ext.refl (a : TermLog ν ε) : Ext a a where
  term _ := le_refl _
  vote h := h
  cand h := h
  leader h := h
  llog _ := List.prefix_refl _
  elog _ := rfl
  ack h := h

theorem Ext.leader_ne {a a' : TermLog ν ε} (h : Ext a a') {t : ℕ} (hl : a.leader t ≠ none) :
    a'.leader t ≠ none := by
  obtain ⟨c, hc⟩ := Option.ne_none_iff_exists'.mp hl
  rw [h.leader hc]
  simp

theorem Ext.trans {a b c : TermLog ν ε} (h : Ext a b) (h' : Ext b c) : Ext a c where
  term n := (h.term n).trans (h'.term n)
  vote hv := h'.vote (h.vote hv)
  cand hc := h'.cand (h.cand hc)
  leader hl := h'.leader (h.leader hl)
  llog hl := (h.llog hl).trans (h'.llog (h.leader_ne hl))
  elog hl := (h'.elog (h.leader_ne hl)).trans (h.elog hl)
  ack hk := h'.ack (h.ack hk)

theorem Ext.take_llog {a a' : TermLog ν ε} (h : Ext a a') {t k : ℕ} (hl : a.leader t ≠ none)
    (hk : k ≤ (a.llog t).length) : (a'.llog t).take k = (a.llog t).take k := by
  obtain ⟨r, hr⟩ := h.llog hl
  rw [← hr, List.take_append_of_le_length hk]

theorem Others.refl (n : ν) (a : TermLog ν ε) : Others n a a where
  term _ := rfl
  log _ := rfl
  vote _ _ := rfl
  cand _ _ := rfl
  leader _ _ h := h

theorem Others.trans {n : ν} {a b c : TermLog ν ε} (h : Others n a b) (h' : Others n b c) :
    Others n a c where
  term hm := (h'.term hm).trans (h.term hm)
  log hm := (h'.log hm).trans (h.log hm)
  vote hm t := (h'.vote hm t).trans (h.vote hm t)
  cand hm t := (h'.cand hm t).trans (h.cand hm t)
  leader hm _ hl := h.leader hm (h'.leader hm hl)

section Steps

variable [DecidableEq ν] {a a' : TermLog ν ε} {n : ν}

/-- **No step takes anything back.** -/
theorem Step.ext (hs : Step Q tm n a a') : Ext a a' := by
  cases hs with
  | raise t ht => exact { Ext.refl a with term := fun m => le_update_term ht.le }
  | stand hc hlt =>
      refine { Ext.refl a with cand := fun {t c l} hc' => ?_ }
      refine (set2_ne _ _ ?_).trans hc'
      intro ⟨e1, e2⟩
      subst e1 e2
      rw [hc] at hc'
      cases hc'
  | grant c l hv hc hup =>
      refine { Ext.refl a with vote := fun {t m c'} hv' => ?_ }
      refine (set2_ne _ _ ?_).trans hv'
      intro ⟨e1, e2⟩
      subst e1 e2
      rw [hv] at hv'
      cases hv'
  | elect V hl hc hV hvote =>
      have old : ∀ {t}, a.leader t ≠ none → t ≠ a.term n := fun hl' e => hl' (e ▸ hl)
      refine { Ext.refl a with leader := fun {t c} hl' => ?_, llog := fun {t} hl' => ?_,
                               elog := fun {t} hl' => ?_ }
      · have ht : t ≠ a.term n := old (by rw [hl']; simp)
        simpa [TermLog.elect, ht] using hl'
      · simp [TermLog.elect, old hl']
      · simp [TermLog.elect, old hl']
  | append e hl he =>
      refine { Ext.refl a with llog := fun {t} _ => ?_ }
      by_cases ht : t = a.term n
      · subst ht
        simp [TermLog.append]
      · simp [TermLog.append, ht]
  | adopt l hl hpre hkeep => exact { Ext.refl a with }
  | confirm k hl hk hpre => exact { Ext.refl a with ack := fun hk' => Or.inr hk' }

/-- **A step stays at its node.** -/
theorem Step.others (hs : Step Q tm n a a') : Others n a a' := by
  cases hs with
  | raise t ht => exact { Others.refl n a with term := fun hm => by simp [TermLog.raise, hm] }
  | stand hc hlt =>
      exact { Others.refl n a with cand := fun hm t => set2_node _ _ hm }
  | grant c l hv hc hup =>
      exact { Others.refl n a with vote := fun hm t => set2_node _ _ hm }
  | elect V hl hc hV hvote =>
      refine { Others.refl n a with leader := fun {m} hm t hl' => ?_ }
      by_cases ht : t = a.term n
      · subst ht
        have e : n = m := by simpa [TermLog.elect] using hl'
        exact absurd e.symm hm
      · simpa [TermLog.elect, ht] using hl'
  | append e hl he => exact { Others.refl n a with log := fun hm => by simp [TermLog.append, hm] }
  | adopt l hl hpre hkeep =>
      exact { Others.refl n a with log := fun hm => by simp [TermLog.adopt, hm] }
  | confirm k hl hk hpre => exact { Others.refl n a with }

/-- **A run of one node's steps** keeps the invariant, extends the record and stays there. -/
theorem run_later (hr : ReflTransGen (Step Q tm n) a a') (h : Inv Q tm a) :
    Inv Q tm a' ∧ Ext a a' ∧ Others n a a' := by
  induction hr with
  | refl => exact ⟨h, Ext.refl a, Others.refl n a⟩
  | tail _ hs ih =>
      obtain ⟨h1, h2, h3⟩ := ih
      exact ⟨hs.inv h1, h2.trans hs.ext, h3.trans hs.others⟩

end Steps

/-! ## 2. Chosen indexes and leader completeness -/

/-- Index `i` of the log of the leader of `t` is an entry of term `t` and a quorum confirmed it. -/
structure Chosen (Q : QuorumSystem ν) (tm : ε → ℕ) (a : TermLog ν ε) (t i : ℕ) : Prop where
  led : a.leader t ≠ none
  pos : 0 < i
  le : i ≤ (a.llog t).length
  own : termAt tm (a.llog t) i = t
  quorum : ∃ V, Q.isQuorum V ∧ ∀ n ∈ V, a.ack t n i

theorem Chosen.mono {a a' : TermLog ν ε} {t i : ℕ} (hc : Chosen Q tm a t i) (h : Ext a a') :
    Chosen Q tm a' t i where
  led := h.leader_ne hc.led
  pos := hc.pos
  le := hc.le.trans (h.llog hc.led).length_le
  own := by
    rw [← termAt_isPrefix (h.llog hc.led) hc.le]
    exact hc.own
  quorum := by
    obtain ⟨V, hV, hq⟩ := hc.quorum
    exact ⟨V, hV, fun n hn => h.ack (hq n hn)⟩

/-- An up-to-date candidate of a later term holds the chosen prefix its voter holds, given that
    the leaders in between do. -/
theorem upToDate_carries {a : TermLog ν ε} (h : Inv Q tm a) {t t' i : ℕ} {l lv : List ε}
    (hc : Chosen Q tm a t i) (hgood : Good tm a l) (hlt : ∀ e ∈ l, tm e < t')
    (hsv : Sorted tm lv) (hup : UpToDate tm l lv) (hlv : (a.llog t).take i <+: lv)
    (hmid : ∀ t'', t < t'' → t'' < t' → a.leader t'' ≠ none → (a.llog t).take i <+: a.elog t'') :
    (a.llog t).take i <+: l := by
  obtain ⟨p, e, hp, hlen, ep⟩ := exists_prefix_at hc.pos hc.le
  have hte : tm e = t := by
    have h1 : termAt tm (a.llog t) (p.length + 1) = tm e := termAt_of_isPrefix hp
    rw [← h1, hlen]
    exact hc.own
  have hlast : t ≤ lastTerm tm lv := by
    rw [ep] at hlv
    rw [← hte]
    exact hsv.le_lastTerm hlv
  have hilv : i ≤ lv.length := by
    have := hlv.length_le
    rw [List.length_take, Nat.min_eq_left hc.le] at this
    exact this
  -- the candidate's log is not empty: its last entry decides the case
  have hne : l ≠ [] := by
    intro e0
    subst e0
    rcases hup with h1 | ⟨_, h2⟩
    · simp [lastTerm] at h1
    · have := hc.pos
      simp at h2
      subst h2
      simp at hilv
      omega
  obtain ⟨q, x, rfl⟩ : ∃ q x, l = q ++ [x] := ⟨_, _, (List.dropLast_append_getLast hne).symm⟩
  have hx : lastTerm tm (q ++ [x]) = tm x := by simp [lastTerm, termAt_succ]
  obtain ⟨hledx, hprex⟩ := hgood q x (List.prefix_refl _)
  have hltx : tm x < t' := hlt x (by simp)
  unfold UpToDate at hup
  rw [hx] at hup
  rcases Nat.lt_or_ge t (tm x) with hgt | hge
  · -- its last term has a leader in between, elected with the chosen prefix
    have hE := hmid (tm x) hgt hltx hledx
    have hlenE : (a.elog (tm x)).length ≤ (q ++ [x]).length := by
      refine Classical.byContradiction fun hcon => ?_
      -- otherwise the entry of term `tm x` lies in the log that leader was elected with
      have hq : q ++ [x] <+: a.elog (tm x) :=
        List.prefix_of_prefix_length_le hprex (h.elogLlog hledx) (by omega)
      obtain ⟨c, hcl⟩ := Option.ne_none_iff_exists'.mp hledx
      have := h.candLt (h.leaderCand hcl) x (hq.subset (by simp))
      omega
    exact hE.trans (List.prefix_of_prefix_length_le (h.elogLlog hledx) hprex hlenE)
  · -- its last term is the chosen one: both logs are prefixes of that leader's
    have hxt : tm x = t := by omega
    rw [hxt] at hprex
    refine List.prefix_of_prefix_length_le (List.take_prefix _ _) hprex ?_
    rcases hup with h1 | ⟨_, h2⟩
    · omega
    · rw [List.length_take, Nat.min_eq_left hc.le]
      omega

/-- **Leader completeness**: every later leader was elected with the chosen prefix. -/
theorem leader_complete {a : TermLog ν ε} (h : Inv Q tm a) {t i : ℕ} (hc : Chosen Q tm a t i) :
    ∀ t', t < t' → a.leader t' ≠ none → (a.llog t).take i <+: a.elog t' := by
  intro t'
  induction t' using Nat.strong_induction_on with
  | _ t' ih =>
    intro hlt hl
    obtain ⟨c, hlc⟩ := Option.ne_none_iff_exists'.mp hl
    obtain ⟨W, hW, hvotes⟩ := h.leaderQuorum hlc
    obtain ⟨V, hV, hacks⟩ := hc.quorum
    obtain ⟨n, hnV, hnW⟩ := Q.meet V W hV hW
    obtain ⟨hvote, lv, hlv⟩ := hvotes n hnW
    obtain ⟨l, hcand, hup⟩ := h.voteCand hvote
    have hel : l = a.elog t' := Option.some.inj (hcand.symm.trans (h.leaderCand hlc))
    subst hel
    have hmid : ∀ t'', t < t'' → t'' < t' → a.leader t'' ≠ none →
        (a.llog t).take i <+: a.elog t'' := fun t'' h1 h2 h3 => ih t'' h2 h1 h3
    have hvoter : (a.llog t).take i <+: lv := by
      rcases h.voteAck hlv (hacks n hnV) hlt with hin | ⟨t'', h1, h2, h3, hnot⟩
      · exact hin
      · exact absurd (hmid t'' h1 h2 h3) hnot
    exact upToDate_carries h hc (h.goodCand hcand) (h.candLt hcand) (h.sortedVote hlv)
      (hup lv hlv) hvoter hmid

/-! ## 3. Committed prefixes -/

/-- The prefix `p` is committed by term `t`: empty, or below an index chosen by then. -/
def CommittedBy (Q : QuorumSystem ν) (tm : ε → ℕ) (a : TermLog ν ε) (t : ℕ) (p : List ε) : Prop :=
  p = [] ∨ ∃ t₀ i, t₀ ≤ t ∧ Chosen Q tm a t₀ i ∧ p <+: (a.llog t₀).take i

theorem CommittedBy.nil (a : TermLog ν ε) (t : ℕ) : CommittedBy Q tm a t [] := Or.inl rfl

theorem CommittedBy.shorter {a : TermLog ν ε} {t : ℕ} {p q : List ε} (h : CommittedBy Q tm a t q)
    (hp : p <+: q) : CommittedBy Q tm a t p := by
  rcases h with rfl | ⟨t₀, i, ht, hc, hq⟩
  · exact Or.inl (List.prefix_nil.mp hp)
  · exact Or.inr ⟨t₀, i, ht, hc, hp.trans hq⟩

theorem CommittedBy.le {a : TermLog ν ε} {t t' : ℕ} {p : List ε} (h : CommittedBy Q tm a t p)
    (ht : t ≤ t') : CommittedBy Q tm a t' p := by
  rcases h with h | ⟨t₀, i, ht₀, hc, hq⟩
  · exact Or.inl h
  · exact Or.inr ⟨t₀, i, ht₀.trans ht, hc, hq⟩

theorem CommittedBy.mono {a a' : TermLog ν ε} {t : ℕ} {p : List ε} (h : CommittedBy Q tm a t p)
    (hx : Ext a a') : CommittedBy Q tm a' t p := by
  rcases h with h | ⟨t₀, i, ht₀, hc, hq⟩
  · exact Or.inl h
  · refine Or.inr ⟨t₀, i, ht₀, hc.mono hx, ?_⟩
    rw [hx.take_llog hc.led hc.le]
    exact hq

/-- A chosen index commits the leader's log up to it. -/
theorem Chosen.committed {a : TermLog ν ε} {t i : ℕ} (h : Chosen Q tm a t i) :
    CommittedBy Q tm a t ((a.llog t).take i) := Or.inr ⟨t, i, le_refl _, h, List.prefix_refl _⟩

/-- **Every leader from the committing term on holds the committed prefix.** -/
theorem CommittedBy.llog {a : TermLog ν ε} (hI : Inv Q tm a) {t t' : ℕ} {p : List ε}
    (h : CommittedBy Q tm a t p) (ht : t ≤ t') (hl : a.leader t' ≠ none) : p <+: a.llog t' := by
  rcases h with rfl | ⟨t₀, i, ht₀, hc, hq⟩
  · exact List.nil_prefix
  · rcases Nat.lt_or_ge t₀ t' with hlt | hge
    · exact (hq.trans (leader_complete hI hc t' hlt hl)).trans (hI.elogLlog hl)
    · have e : t₀ = t' := by omega
      subst e
      exact hq.trans (List.take_prefix _ _)

/-- **Any two committed prefixes are comparable.** -/
theorem committed_comparable {a : TermLog ν ε} (hI : Inv Q tm a) {t t' : ℕ} {p q : List ε}
    (hp : CommittedBy Q tm a t p) (hq : CommittedBy Q tm a t' q) : p <+: q ∨ q <+: p := by
  rcases hp with rfl | ⟨t₀, i, _, hc, hp'⟩
  · exact Or.inl List.nil_prefix
  rcases hq with rfl | ⟨t₁, j, _, hd, hq'⟩
  · exact Or.inr List.nil_prefix
  -- both lie in the log of the later of the two leaders
  have hP : CommittedBy Q tm a t₀ p := hc.committed.shorter hp'
  have hQ : CommittedBy Q tm a t₁ q := hd.committed.shorter hq'
  rcases Nat.le_total t₀ t₁ with hle | hle
  · exact List.prefix_or_prefix_of_prefix (hP.llog hI hle hd.led) (hQ.llog hI (le_refl _) hd.led)
  · exact List.prefix_or_prefix_of_prefix (hP.llog hI (le_refl _) hc.led) (hQ.llog hI hle hc.led)

/-- Committed prefixes that end at the same index end in the same entry. -/
theorem committed_entry_unique {a : TermLog ν ε} (hI : Inv Q tm a) {t t' : ℕ} {p q : List ε}
    {x y : ε} (hp : CommittedBy Q tm a t (p ++ [x])) (hq : CommittedBy Q tm a t' (q ++ [y]))
    (hlen : p.length = q.length) : x = y := by
  have hl : (p ++ [x]).length = (q ++ [y]).length := by simp [hlen]
  have e : p ++ [x] = q ++ [y] := by
    rcases committed_comparable hI hp hq with h | h
    · exact h.eq_of_length hl
    · exact (h.eq_of_length hl.symm).symm
  have := (List.append_inj e hlen).2
  simpa using this

end TermLog

end RaftLab.Lib

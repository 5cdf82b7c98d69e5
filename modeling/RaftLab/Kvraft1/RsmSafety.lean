/-
  File:      RaftLab/Kvraft1/RsmSafety.lean
  Subject:   A Submit that returns OK has had its own operation applied, and Submits are
             linearizable (Rsm.lean).

  The argument has two halves. `Warranted` says of a history which events come before which: an
  operation is started once, with a number of its own, committed at the index it was started at,
  applied in the order of the log, and returned from a Submit with the answer of its own operation.
  Everything about Submits follows from that alone (section 1). That the histories of the system are
  like this is an invariant (section 2): what is in a channel came from an entry with the number
  that the Submit drew, and no other entry has it.
-/
import RaftLab.Kvraft1.Rsm

namespace RaftLab.Kvraft1.Rsm

open RaftLab.Lib Relation
open RaftLab.Kvsrv1 (Err)

variable {σ Srv Req Res : Type} {m : Machine σ Req Res} {hist hist' pre post : List (Ev Srv Req Res)}

/-! ## 1. Histories -/

/-- The committed entries. -/
def entries (hist : List (Ev Srv Req Res)) : List (Op Req) :=
  hist.filterMap fun e =>
    match e with
    | .committed _ _ op => some op
    | _ => none

def reqs (hist : List (Ev Srv Req Res)) : List Req := (entries hist).map Op.opcommad

/-- What comes before an event. -/
def Warranted (m : Machine σ Req Res) (pre : List (Ev Srv Req Res)) : Ev Srv Req Res → Prop
  | .called c _ _ => ∀ srv req, .called c srv req ∉ pre
  | .started c _ op =>
      (∃ srv, .called c srv op.opcommad ∈ pre) ∧ (∀ i op', .started c i op' ∉ pre) ∧
      ∀ c' i op', .started c' i op' ∈ pre → op'.hashNum ≠ op.hashNum
  | .committed c i op => .started c i op ∈ pre ∧ i = (entries pre).length + 1
  | .applied srv i op res =>
      (∃ c, .committed c i op ∈ pre) ∧ m.resultAt (reqs pre) (i - 1) = some res ∧
      ∀ i' op' res', .applied srv i' op' res' ∈ pre → i' < i
  | .returned c err res =>
      err = .ok → ∃ srv req i op r, res = some r ∧ .called c srv req ∈ pre ∧
        .started c i op ∈ pre ∧ .applied srv i op r ∈ pre

section Facts

variable {c c' i i' : ℕ} {op op' : Op Req} {srv srv' : Srv} {req req' : Req} {r r' : Res}

theorem entries_append (h h' : List (Ev Srv Req Res)) : entries (h ++ h') = entries h ++ entries h' :=
  List.filterMap_append

theorem reqs_append (h h' : List (Ev Srv Req Res)) : reqs (h ++ h') = reqs h ++ reqs h' := by
  rw [reqs, entries_append, List.map_append]
  rfl

/-- A Submit is called once. -/
theorem called_unique (h : Justified (Warranted m) hist) (h1 : .called c srv req ∈ hist)
    (h2 : .called c srv' req' ∈ hist) : srv = srv' ∧ req = req' := by
  cases h.eq_of_mem h1 h2 (fun _ hw => hw _ _) (fun _ hw => hw _ _)
  exact ⟨rfl, rfl⟩

/-- **An operation is known by its number.** -/
theorem started_unique (h : Justified (Warranted m) hist) (h1 : .started c i op ∈ hist)
    (h2 : .started c' i' op' ∈ hist) (hn : op.hashNum = op'.hashNum) :
    c = c' ∧ i = i' ∧ op = op' := by
  cases h.eq_of_mem h1 h2 (fun _ hw hmem => hw.2.2 _ _ _ hmem hn)
    (fun _ hw hmem => hw.2.2 _ _ _ hmem hn.symm)
  exact ⟨rfl, rfl, rfl⟩

/-- A Submit starts once. -/
theorem started_once (h : Justified (Warranted m) hist) (h1 : .started c i op ∈ hist)
    (h2 : .started c i' op' ∈ hist) : i = i' ∧ op = op' := by
  cases h.eq_of_mem h1 h2 (fun _ hw => hw.2.1 _ _) (fun _ hw => hw.2.1 _ _)
  exact ⟨rfl, rfl⟩

/-- A committed entry is at its index, and was started before. -/
theorem committed_at (h : Justified (Warranted m) hist) (hc : .committed c i op ∈ hist) :
    .started c i op ∈ hist ∧ 1 ≤ i ∧ (entries hist)[i - 1]? = some op := by
  obtain ⟨p, q, e, hs, hi⟩ := h.of_mem hc
  refine ⟨by rw [e]; exact List.mem_append_left _ hs, by omega, ?_⟩
  have hent : entries hist = entries p ++ op :: entries q := by
    rw [e, entries_append]
    rfl
  rw [hent, hi, Nat.add_sub_cancel, List.getElem?_append_right (Nat.le_refl _), Nat.sub_self]
  rfl

/-- What is at an index of the log was committed there. -/
theorem committed_of_entries (h : Justified (Warranted m) hist) {k : ℕ}
    (hk : (entries hist)[k]? = some op) : ∃ c, .committed c (k + 1) op ∈ hist := by
  induction hist using List.reverseRecOn with
  | nil => cases hk
  | append_singleton l e ih =>
      obtain ⟨hl, he⟩ := h.of_concat
      rw [entries_append] at hk
      by_cases hlt : k < (entries l).length
      · rw [List.getElem?_append_left hlt] at hk
        obtain ⟨c, hc⟩ := ih hl hk
        exact ⟨c, List.mem_append_left _ hc⟩
      · rw [List.getElem?_append_right (Nat.le_of_not_lt hlt)] at hk
        cases e with
        | committed c i op' =>
            rw [show entries [(.committed c i op' : Ev Srv Req Res)] = [op'] from rfl] at hk
            obtain ⟨hz, rfl⟩ := List.getElem?_eq_some_iff.mp hk
            have hk' : k = (entries l).length := by
              rw [List.length_singleton] at hz
              omega
            obtain ⟨_, rfl⟩ := he
            exact ⟨c, by simp [hk']⟩
        | called | started | applied | returned => cases hk

/-- An applied entry was committed at its index before, and its answer is the machine's. -/
theorem applied_at (h : Justified (Warranted m) hist) (ha : .applied srv i op r ∈ hist) :
    ∃ p q c, hist = p ++ .applied srv i op r :: q ∧ .committed c i op ∈ p ∧
      .started c i op ∈ p ∧ 1 ≤ i ∧ (entries hist)[i - 1]? = some op ∧
      m.resultAt (reqs hist) (i - 1) = some r := by
  obtain ⟨p, q, e, ⟨c, hc⟩, hr, _⟩ := h.of_mem ha
  have hp : Justified (Warranted m) p := by
    rw [e] at h
    exact h.of_append
  obtain ⟨hs, h1, _⟩ := committed_at hp hc
  have hc' : .committed c i op ∈ hist := by rw [e]; exact List.mem_append_left _ hc
  refine ⟨p, q, c, e, hc, hs, h1, (committed_at h hc').2.2, ?_⟩
  rw [e, reqs_append]
  exact Machine.resultAt_append _ hr

/-- The number of an applied entry determines index, entry and answer. -/
theorem applied_unique (h : Justified (Warranted m) hist) (h1 : .applied srv i op r ∈ hist)
    (h2 : .applied srv' i' op' r' ∈ hist) (hn : op.hashNum = op'.hashNum) :
    i = i' ∧ op = op' ∧ r = r' := by
  obtain ⟨p1, q1, c1, e1, _, hs1, _, _, hr1⟩ := applied_at h h1
  obtain ⟨p2, q2, c2, e2, _, hs2, _, _, hr2⟩ := applied_at h h2
  have hm1 : .started c1 i op ∈ hist := by rw [e1]; exact List.mem_append_left _ hs1
  have hm2 : .started c2 i' op' ∈ hist := by rw [e2]; exact List.mem_append_left _ hs2
  obtain ⟨_, rfl, rfl⟩ := started_unique h hm1 hm2 hn
  exact ⟨rfl, rfl, Option.some.inj (hr1.symm.trans hr2)⟩

end Facts

/-! ### The calls and returns, with the commits -/

/-- A Submit that returns OK is a call that returns; the other ones may or may not take effect. -/
def mark : Ev Srv Req Res → Option (Mark ℕ Req Res)
  | .called c _ req => some (.call c req)
  | .committed c _ op => some (.commit c op.opcommad)
  | .returned c err res => if err = .ok then res.map (.ret c) else none
  | _ => none

theorem mark_returned_eq_some {c : ℕ} {err : Err} {res : Option Res} {e : Mark ℕ Req Res}
    (h : mark (.returned c err res : Ev Srv Req Res) = some e) :
    err = .ok ∧ ∃ r, res = some r ∧ e = .ret c r := by
  simp only [mark] at h
  split at h
  next hok =>
    obtain ⟨r, hr, rfl⟩ := Option.map_eq_some_iff.mp h
    exact ⟨hok, r, hr, rfl⟩
  next => cases h

theorem call_mem_marks {c : ℕ} {req : Req} :
    .call c req ∈ hist.filterMap mark ↔ ∃ srv, .called c srv req ∈ hist := by
  rw [List.mem_filterMap]
  refine ⟨fun h => ?_, fun h => ?_⟩
  · obtain ⟨e, he, hm⟩ := h
    cases e with
    | called c' srv req' =>
        cases hm
        exact ⟨srv, he⟩
    | started | committed | applied => cases hm
    | returned c' err res =>
        obtain ⟨_, r, _, e⟩ := mark_returned_eq_some hm
        cases e
  · obtain ⟨srv, hs⟩ := h
    exact ⟨_, hs, rfl⟩

theorem commits_marks (hist : List (Ev Srv Req Res)) :
    commits (hist.filterMap mark) = hist.filterMap fun e =>
      match e with
      | .committed c _ op => some (c, op.opcommad)
      | _ => none := by
  rw [commits, List.filterMap_filterMap]
  congr 1
  funext e
  cases e with
  | called | started | committed | applied => rfl
  | returned c err res =>
      cases hm : mark (.returned c err res : Ev Srv Req Res) with
      | none => rfl
      | some e' =>
          obtain ⟨_, r, _, rfl⟩ := mark_returned_eq_some hm
          rfl

theorem commit_mem_marks {c : ℕ} {req : Req} (h : .commit c req ∈ hist.filterMap mark) :
    ∃ i op, .committed c i op ∈ hist := by
  have hc : (c, req) ∈ commits (hist.filterMap mark) := mem_commits.mpr h
  rw [commits_marks, List.mem_filterMap] at hc
  obtain ⟨e, he, hm⟩ := hc
  cases e with
  | committed c' i op =>
      cases hm
      exact ⟨i, op, he⟩
  | called | started | applied | returned => cases hm

theorem reqs_eq_commits (hist : List (Ev Srv Req Res)) :
    reqs hist = (commits (hist.filterMap mark)).map Prod.snd := by
  rw [commits_marks, reqs, entries, List.map_filterMap, List.map_filterMap]
  congr 1
  funext e
  cases e with
  | called | started | committed | applied | returned => rfl

theorem commits_at (h : Justified (Warranted m) hist) {c i : ℕ} {op : Op Req}
    (hc : .committed c i op ∈ hist) :
    (commits (hist.filterMap mark))[i - 1]? = some (c, op.opcommad) := by
  obtain ⟨p, q, e, hs, hi⟩ := h.of_mem hc
  have hlen : (commits (p.filterMap mark)).length = (entries p).length := by
    have := congrArg List.length (reqs_eq_commits p)
    rw [reqs, List.length_map, List.length_map] at this
    exact this.symm
  rw [e, List.filterMap_append, commits_append, hi, Nat.add_sub_cancel, ← hlen,
    List.getElem?_append_right (Nat.le_refl _), Nat.sub_self]
  rfl

/-- The history obeys the rule of commit points. -/
theorem lawful_marks (h : Justified (Warranted m) hist) :
    Justified (Lawful m) (hist.filterMap mark) := by
  refine h.filterMap fun pre e e' hpre hw he => ?_
  cases e with
  | called c srv req =>
      cases he
      intro op hmem
      obtain ⟨srv', hs⟩ := call_mem_marks.mp hmem
      exact hw _ _ hs
  | started | applied => cases he
  | committed c i op =>
      cases he
      obtain ⟨hs, hi⟩ := hw
      obtain ⟨p, q, e, ⟨srv, hcall⟩, _⟩ := hpre.of_mem hs
      refine ⟨call_mem_marks.mpr ⟨srv, by rw [e]; exact List.mem_append_left _ hcall⟩, ?_⟩
      -- an earlier commit of the same Submit would have the same index
      intro op' hmem
      obtain ⟨i', op'', hc⟩ := commit_mem_marks hmem
      obtain ⟨hs', h1, hat⟩ := committed_at hpre hc
      obtain ⟨rfl, _⟩ := started_once hpre hs hs'
      have hlt := (List.getElem?_eq_some_iff.mp hat).1
      omega
  | returned c err res =>
      obtain ⟨hok, r, hres, rfl⟩ := mark_returned_eq_some he
      obtain ⟨srv, req, i, op, r', hr', _, hs, ha⟩ := hw hok
      obtain ⟨p, q, c', e, hc, hs', _, _, hresult⟩ := applied_at hpre ha
      have hsub : p ⊆ pre := by rw [e]; exact List.subset_append_left _ _
      obtain ⟨rfl, _⟩ := started_unique hpre hs (hsub hs') rfl
      refine ⟨i - 1, op.opcommad, commits_at hpre (hsub hc), ?_⟩
      rw [← reqs_eq_commits, hresult, ← hr', hres]

/-- **Submits are linearized by the order of the log.** -/
theorem linearizes_log (h : Justified (Warranted m) hist) :
    ∃ lin, lin.map Prod.snd = reqs hist ∧ Linearizes m (hist.filterMap mark) lin :=
  ⟨_, (reqs_eq_commits hist).symm, linearizes_commits (lawful_marks h)⟩

/-! ### What a Submit that returned OK has had applied -/

/-- The server applies an entry with the number. -/
def Ev.appliesAt [DecidableEq Srv] (srv : Srv) (hashNum : ℕ) : Ev Srv Req Res → Bool
  | .applied srv' _ op _ => srv' = srv ∧ op.hashNum = hashNum
  | _ => false

/-- No server applies an entry twice. -/
theorem applied_le_one [DecidableEq Srv] (h : Justified (Warranted m) hist) (srv : Srv) (n : ℕ) :
    hist.countP (Ev.appliesAt srv n) ≤ 1 := by
  induction hist using List.reverseRecOn with
  | nil => exact Nat.zero_le _
  | append_singleton l e ih =>
      obtain ⟨hl, he⟩ := h.of_concat
      rw [List.countP_append]
      by_cases hat : Ev.appliesAt srv n e = true
      · have hzero : l.countP (Ev.appliesAt srv n) = 0 := by
          refine List.countP_eq_zero.mpr fun e' he' hat' => ?_
          cases e with
          | applied srv1 i1 op1 r1 =>
              cases e' with
              | applied srv2 i2 op2 r2 =>
                  obtain ⟨rfl, hn1⟩ := of_decide_eq_true hat
                  obtain ⟨rfl, hn2⟩ := of_decide_eq_true hat'
                  have hlt := he.2.2 i2 op2 r2 he'
                  have hm1 : .applied srv2 i1 op1 r1 ∈ l ++ [.applied srv2 i1 op1 r1] := by simp
                  obtain ⟨e1, _⟩ := applied_unique h hm1 (List.mem_append_left _ he')
                    (hn1.trans hn2.symm)
                  omega
              | called | started | committed | returned => cases hat'
          | called | started | committed | returned => cases hat
        rw [hzero, Nat.zero_add]
        exact List.countP_le_length
      · have hno : [e].countP (Ev.appliesAt srv n) = 0 := by
          simp [hat]
        rw [hno]
        exact ih hl

/-- **Between its call and its return the operation was applied**, once, at the index it was started
    at, and nowhere else. -/
theorem own_op_applied [DecidableEq Srv] (h : Justified (Warranted m) hist) {c : ℕ}
    {res : Option Res} (e : hist = pre ++ .returned c .ok res :: post) :
    ∃ srv index op r p1 p2 p3, res = some r ∧
      pre = p1 ++ .called c srv op.opcommad :: p2 ++ .applied srv index op r :: p3 ∧
      .started c index op ∈ p2 ∧ (entries hist)[index - 1]? = some op ∧
      m.resultAt (reqs hist) (index - 1) = some r ∧
      hist.countP (Ev.appliesAt srv op.hashNum) = 1 ∧
      ∀ srv' index' op' r', .applied srv' index' op' r' ∈ hist → op'.hashNum = op.hashNum →
        index' = index ∧ op' = op ∧ r' = r := by
  have hpre : Justified (Warranted m) pre := by
    rw [e] at h
    exact h.of_append
  have hsub : pre ⊆ hist := by rw [e]; exact List.subset_append_left _ _
  obtain ⟨srv, req, i, op, r, hres, hcall, hs, ha⟩ := h pre _ post e rfl
  obtain ⟨p, p3, c', ep, hc, hs', _, _, _⟩ := applied_at hpre ha
  have hp : Justified (Warranted m) p := by
    rw [ep] at hpre
    exact hpre.of_append
  have hpsub : p ⊆ pre := by rw [ep]; exact List.subset_append_left _ _
  obtain ⟨rfl, _⟩ := started_unique hpre hs (hpsub hs') rfl
  -- before it was applied it was started, and before that called
  obtain ⟨a, b, ea, ⟨srv', hcall'⟩, _⟩ := hp.of_mem hs'
  have hasub : a ⊆ p := by rw [ea]; exact List.subset_append_left _ _
  obtain ⟨rfl, rfl⟩ := called_unique hpre hcall (hpsub (hasub hcall'))
  obtain ⟨p1, p2, e1⟩ := List.append_of_mem hcall'
  obtain ⟨_, _, _, _, _, _, _, hlog, hresult⟩ := applied_at h (hsub ha)
  refine ⟨srv, i, op, r, p1, p2 ++ .started c i op :: b, p3, hres, ?_, by simp, hlog, hresult, ?_,
    fun srv' i' op' r' ha' hn => applied_unique h ha' (hsub ha) hn⟩
  · rw [ep, ea, e1]
    simp
  · refine Nat.le_antisymm (applied_le_one h srv _) (List.countP_pos_iff.mpr ⟨_, hsub ha, ?_⟩)
    exact decide_eq_true ⟨rfl, rfl⟩

/-! ## 2. The system -/

/-- What the history says of Submit `c`. -/
structure SubmitOk (hist : List (Ev Srv Req Res)) (c : ℕ) (x : Submit Srv Req Res) : Prop where
  called : .called c x.srv x.req ∈ hist
  unstarted : x.hashNum = none → ∀ i op, .started c i op ∉ hist
  undrawn : x.pc = .called ∨ x.pc = .leading → x.hashNum = none
  locked : ∀ logId term, x.pc = .locked logId term →
    ∃ n, x.hashNum = some n ∧ .started c logId ⟨x.req, n⟩ ∈ hist
  /-- What is in the channel is the answer to the Submit's own operation. -/
  ch : ∀ r, x.ch.buf = some r →
    ∃ i op, .started c i op ∈ hist ∧ .applied x.srv i op r ∈ hist

/-- What the history says of a server. -/
structure RsmOk (m : Machine σ Req Res) (hist : List (Ev Srv Req Res)) (srv : Srv)
    (r : RSM σ Req Res) : Prop where
  le : r.applied ≤ (entries hist).length
  sm : r.sm = m.after (reqs hist) r.applied
  past : ∀ i op res, .applied srv i op res ∈ hist → i ≤ r.applied
  done : ∀ i op res, r.loop = .done i op res → i = r.applied ∧ .applied srv i op res ∈ hist
  notified : ∀ i, r.loop = .notified i → i = r.applied
  /-- A registered channel belongs to a Submit that started at the index, with the number beside. -/
  registered : ∀ i c, r.chMap i = some c → ∃ req n, .called c srv req ∈ hist ∧
    r.hashNumMap i = some n ∧ .started c i ⟨req, n⟩ ∈ hist

/-- What the history says of Raft. -/
structure RaftOk (m : Machine σ Req Res) (hist : List (Ev Srv Req Res))
    (started : List (ℕ × ℕ × Op Req)) (log : List (Op Req)) (snaps : List (ℕ × σ)) : Prop where
  just : Justified (Warranted m) hist
  known : ∀ c i op, (c, i, op) ∈ started → .started c i op ∈ hist
  log_eq : log = entries hist
  snap : ∀ j st, (j, st) ∈ snaps → j ≤ (entries hist).length ∧ st = m.after (reqs hist) j

/-- What the history says of the Submits. -/
structure SubmitsOk (hist : List (Ev Srv Req Res)) (submits : List (Submit Srv Req Res)) : Prop where
  submit : ∀ (c : ℕ) x, submits[c]? = some x → SubmitOk hist c x
  called : ∀ c srv req, .called c srv req ∈ hist → c < submits.length
  drawn : ∀ (c : ℕ) i op, .started c i op ∈ hist →
    ∃ x, submits[c]? = some x ∧ x.hashNum = some op.hashNum

structure Inv (m : Machine σ Req Res) (s : System σ Srv Req Res) : Prop where
  raft : RaftOk m s.hist s.started s.log s.snaps
  submits : SubmitsOk s.hist s.submits
  rsm : ∀ srv, RsmOk m s.hist srv (s.rsm srv)

/-! ### One more event -/

section Concat

variable {e : Ev Srv Req Res} {c : ℕ} {x x' : Submit Srv Req Res} {srv : Srv} {r : RSM σ Req Res}
  {started : List (ℕ × ℕ × Op Req)} {log : List (Op Req)} {snaps : List (ℕ × σ)}
  {submits : List (Submit Srv Req Res)}

theorem entries_length_le (hist : List (Ev Srv Req Res)) (e : Ev Srv Req Res) :
    (entries hist).length ≤ (entries (hist ++ [e])).length := by
  rw [entries_append, List.length_append]
  exact Nat.le_add_right _ _

theorem after_concat (e : Ev Srv Req Res) {k : ℕ} (h : k ≤ (entries hist).length) :
    m.after (reqs (hist ++ [e])) k = m.after (reqs hist) k := by
  rw [reqs_append]
  exact Machine.after_append _ _ (by rw [reqs, List.length_map]; exact h)

theorem RaftOk.concat (h : RaftOk m hist started log snaps) (hw : Warranted m hist e) :
    RaftOk m (hist ++ [e]) started (log ++ entries [e]) snaps := by
  refine ⟨h.just.concat hw, fun c i op hm => List.mem_append_left _ (h.known c i op hm), ?_,
    fun j st hm => ?_⟩
  · rw [entries_append, h.log_eq]
  · obtain ⟨hj, hst⟩ := h.snap j st hm
    exact ⟨Nat.le_trans hj (entries_length_le _ _), hst.trans (after_concat _ hj).symm⟩

theorem RaftOk.quiet (h : RaftOk m hist started log snaps) (hw : Warranted m hist e)
    (he : ∀ c i op, e ≠ .committed c i op) : RaftOk m (hist ++ [e]) started log snaps := by
  have hnil : entries [e] = [] := by
    cases e with
    | committed c i op => exact absurd rfl (he c i op)
    | called | started | applied | returned => rfl
  have := h.concat hw
  rwa [hnil, List.append_nil] at this

theorem SubmitOk.concat (h : SubmitOk hist c x) (he : ∀ i op, e ≠ .started c i op) :
    SubmitOk (hist ++ [e]) c x := by
  have hin : ∀ {a}, a ∈ hist → a ∈ hist ++ [e] := List.mem_append_left _
  refine ⟨hin h.called, fun hn i op hmem => ?_, h.undrawn, fun logId term hpc => ?_, fun r hr => ?_⟩
  · rcases List.mem_append.mp hmem with hold | hnew
    · exact h.unstarted hn i op hold
    · exact he i op (List.mem_singleton.mp hnew).symm
  · obtain ⟨n, hn, hs⟩ := h.locked logId term hpc
    exact ⟨n, hn, hin hs⟩
  · obtain ⟨i, op, hs, ha⟩ := h.ch r hr
    exact ⟨i, op, hin hs, hin ha⟩

theorem SubmitsOk.concat (h : SubmitsOk hist submits)
    (hcalled : ∀ c srv req, e ≠ .called c srv req) (hstarted : ∀ c i op, e ≠ .started c i op) :
    SubmitsOk (hist ++ [e]) submits := by
  refine ⟨fun c x hx => (h.submit c x hx).concat (hstarted c), fun c srv req hm => ?_,
    fun c i op hm => ?_⟩
  · rcases List.mem_append.mp hm with hold | hnew
    · exact h.called c srv req hold
    · exact absurd (List.mem_singleton.mp hnew).symm (hcalled c srv req)
  · rcases List.mem_append.mp hm with hold | hnew
    · exact h.drawn c i op hold
    · exact absurd (List.mem_singleton.mp hnew).symm (hstarted c i op)

theorem RsmOk.concat (h : RsmOk m hist srv r) (he : ∀ i op res, e ≠ .applied srv i op res) :
    RsmOk m (hist ++ [e]) srv r := by
  have hin : ∀ {a}, a ∈ hist → a ∈ hist ++ [e] := List.mem_append_left _
  refine ⟨Nat.le_trans h.le (entries_length_le hist e), ?_, fun i op res hmem => ?_,
    fun i op res hl => ⟨(h.done i op res hl).1, hin (h.done i op res hl).2⟩, h.notified,
    fun i c hc => ?_⟩
  · rw [after_concat e h.le]
    exact h.sm
  · rcases List.mem_append.mp hmem with hold | hnew
    · exact h.past i op res hold
    · exact absurd (List.mem_singleton.mp hnew).symm (he i op res)
  · obtain ⟨req, n, hcall, hn, hs⟩ := h.registered i c hc
    exact ⟨req, n, hin hcall, hn, hin hs⟩

/-- One Submit changes, with the history. -/
theorem SubmitsOk.update (h : SubmitsOk hist submits) (hx : submits[c]? = some x)
    (hok : SubmitOk hist' c x') (hothers : ∀ c' y, c' ≠ c → SubmitOk hist c' y → SubmitOk hist' c' y)
    (hcalled : ∀ c srv req, .called c srv req ∈ hist' → .called c srv req ∈ hist)
    (hothers' : ∀ c' i op, c' ≠ c → .started c' i op ∈ hist' → .started c' i op ∈ hist)
    (hown : ∀ i op, .started c i op ∈ hist' → x'.hashNum = some op.hashNum) :
    SubmitsOk hist' (submits.set c x') := by
  have hlt : c < submits.length := (List.getElem?_eq_some_iff.mp hx).1
  refine ⟨fun c' y hy => ?_, fun c' srv req hm => ?_, fun c' i op hm => ?_⟩
  · by_cases e : c = c'
    · subst e
      rw [List.getElem?_set_self hlt] at hy
      cases hy
      exact hok
    · rw [List.getElem?_set_ne e] at hy
      exact hothers c' y (Ne.symm e) (h.submit c' y hy)
  · rw [List.length_set]
    exact h.called c' srv req (hcalled c' srv req hm)
  · by_cases e : c = c'
    · subst e
      exact ⟨x', List.getElem?_set_self hlt, hown i op hm⟩
    · obtain ⟨y, hy, hyn⟩ := h.drawn c' i op (hothers' c' i op (Ne.symm e) hm)
      exact ⟨y, by rw [List.getElem?_set_ne e]; exact hy, hyn⟩

/-- A Submit goes on; a number it has drawn stays. -/
theorem SubmitsOk.set (h : SubmitsOk hist submits) (hx : submits[c]? = some x)
    (hok : SubmitOk hist c x') (hn : ∀ n, x.hashNum = some n → x'.hashNum = some n) :
    SubmitsOk hist (submits.set c x') := by
  refine h.update hx hok (fun _ _ _ hy => hy) (fun _ _ _ hm => hm) (fun _ _ _ _ hm => hm) ?_
  intro i op hm
  obtain ⟨y, hy, hyn⟩ := h.drawn c i op hm
  rw [hx] at hy
  cases hy
  exact hn _ hyn

/-- `Start` has given the Submit an index. -/
theorem SubmitsOk.start (h : SubmitsOk hist submits) (hx : submits[c]? = some x)
    (hn : x.hashNum = none) (logId term n : ℕ) :
    SubmitsOk (hist ++ [.started c logId ⟨x.req, n⟩])
      (submits.set c { x with hashNum := some n, pc := .locked logId term }) := by
  have hok := h.submit c x hx
  refine h.update hx ⟨List.mem_append_left _ hok.called, fun e => (by cases e), fun e => ?_,
    fun i t e => ?_, fun r hr => ?_⟩ (fun c' y hne hy => hy.concat fun i op e => ?_)
    (fun c' srv req hm => ?_) (fun c' i op hne hm => ?_) (fun i op hm => ?_)
  · rcases e with e | e
    · cases e
    · cases e
  · cases e
    exact ⟨n, rfl, by simp⟩
  · obtain ⟨i, op, hs, ha⟩ := hok.ch r hr
    exact ⟨i, op, List.mem_append_left _ hs, List.mem_append_left _ ha⟩
  · cases e
    exact hne rfl
  · rcases List.mem_append.mp hm with hold | hlast
    · exact hold
    · cases List.mem_singleton.mp hlast
  · rcases List.mem_append.mp hm with hold | hlast
    · exact hold
    · cases List.mem_singleton.mp hlast
      exact absurd rfl hne
  · rcases List.mem_append.mp hm with hold | hlast
    · exact absurd hold (hok.unstarted hn i op)
    · cases List.mem_singleton.mp hlast
      rfl

/-- A Submit is called. -/
theorem SubmitsOk.call (h : SubmitsOk hist submits) (srv : Srv) (req : Req) :
    SubmitsOk (hist ++ [.called submits.length srv req])
      (submits ++ [⟨srv, req, none, .make, .called⟩]) := by
  have hlast : SubmitOk (hist ++ [.called submits.length srv req]) submits.length
      ⟨srv, req, none, .make, .called⟩ := by
    refine ⟨by simp, fun _ i op hm => ?_, fun _ => rfl, fun _ _ e => (by cases e),
      fun _ e => (by cases e)⟩
    rcases List.mem_append.mp hm with hold | hnew
    · obtain ⟨y, hy, _⟩ := h.drawn _ i op hold
      exact Nat.lt_irrefl _ (List.getElem?_eq_some_iff.mp hy).1
    · cases List.mem_singleton.mp hnew
  refine ⟨fun c y hy => ?_, fun c srv' req' hm => ?_, fun c i op hm => ?_⟩
  · rcases Nat.lt_or_ge c submits.length with hlt | hge
    · rw [List.getElem?_append_left hlt] at hy
      exact (h.submit c y hy).concat fun _ _ e => by cases e
    · have hc : c = submits.length := by
        have := (List.getElem?_eq_some_iff.mp hy).1
        rw [List.length_append, List.length_singleton] at this
        omega
      subst hc
      rw [List.getElem?_concat_length] at hy
      cases hy
      exact hlast
  · rw [List.length_append]
    rcases List.mem_append.mp hm with hold | hnew
    · exact Nat.lt_succ_of_lt (h.called c srv' req' hold)
    · cases List.mem_singleton.mp hnew
      exact Nat.lt_succ_self _
  · rcases List.mem_append.mp hm with hold | hnew
    · obtain ⟨y, hy, hyn⟩ := h.drawn c i op hold
      refine ⟨y, ?_, hyn⟩
      rw [List.getElem?_append_left (List.getElem?_eq_some_iff.mp hy).1]
      exact hy
    · cases List.mem_singleton.mp hnew

end Concat

/-! ### Steps -/

section Steps

variable {s s' : System σ Srv Req Res} {c : ℕ} {x : Submit Srv Req Res}

/-- A Submit goes on, and does not start. -/
theorem Inv.goto (h : Inv m s) (hx : s.submits[c]? = some x) {pc : Pc Res}
    (h1 : pc = .called ∨ pc = .leading → x.hashNum = none)
    (h2 : ∀ logId term, pc ≠ .locked logId term) : Inv m (s.goto c x pc) := by
  have hok := h.submits.submit c x hx
  have hok' : SubmitOk s.hist c { x with pc := pc } :=
    ⟨hok.called, hok.unstarted, h1, fun logId term e => absurd e (h2 logId term), hok.ch⟩
  exact ⟨h.raft, h.submits.set hx hok' fun _ hn => hn, h.rsm⟩

/-- A Submit returns, with a number it has drawn or not, and with its channel as it is or emptied. -/
theorem Inv.ret (h : Inv m s) (hx : s.submits[c]? = some x) {n : Option ℕ} {ch : Chan Res}
    {err : Err} {res : Option Res} (hn : ∀ k, x.hashNum = some k → n = some k)
    (hch : ∀ r, ch.buf = some r → x.ch.buf = some r)
    (hw : Warranted m s.hist (.returned c err res)) :
    Inv m (s.ret c { x with hashNum := n, ch := ch } err res) := by
  have hraft := h.raft.quiet hw fun _ _ _ e => by cases e
  have hsub : SubmitsOk (s.hist ++ [.returned c err res]) s.submits :=
    h.submits.concat (fun _ _ _ e => by cases e) fun _ _ _ e => by cases e
  have hok := hsub.submit c x hx
  have hok' : SubmitOk (s.hist ++ [.returned c err res]) c
      { x with hashNum := n, ch := ch, pc := .returned err res } := by
    refine ⟨hok.called, fun hno => hok.unstarted ?_, fun e => ?_, fun _ _ e => (by cases e),
      fun r hr => hok.ch r (hch r hr)⟩
    · cases hk : x.hashNum with
      | none => rfl
      | some k => cases (hn k hk).symm.trans hno
    · rcases e with e | e
      · cases e
      · cases e
  exact ⟨hraft, hsub.set hx hok' hn, fun srv => (h.rsm srv).concat fun _ _ _ e => by cases e⟩

theorem warranted_refused (c : ℕ) : Warranted m hist (.returned c .errWrongLeader none) :=
  fun e => by cases e

/-- The channel of a Submit changes; what comes in is the answer to its own operation. -/
theorem SubmitsOk.onChan {submits submits' : List (Submit Srv Req Res)}
    {f : Chan Res → Option (Chan Res)} (h : SubmitsOk hist submits)
    (hf : ∀ y ch r, submits[c]? = some y → f y.ch = some ch → ch.buf = some r →
      y.ch.buf = some r ∨ ∃ i op, .started c i op ∈ hist ∧ .applied y.srv i op r ∈ hist)
    (hc : System.onChan submits c f = some submits') :
    SubmitsOk hist submits' ∧ submits'.length = submits.length := by
  obtain ⟨y, hy, hc⟩ := Option.bind_eq_some_iff.mp hc
  obtain ⟨ch, hch, hc⟩ := Option.bind_eq_some_iff.mp hc
  cases hc
  have hok := h.submit c y hy
  refine ⟨h.set hy ⟨hok.called, hok.unstarted, hok.undrawn, hok.locked, fun r hr => ?_⟩
    fun _ e => e, List.length_set⟩
  rcases hf y ch r hy hch hr with hold | hnew
  · exact hok.ch r hold
  · exact hnew

theorem close_buf {ch ch' : Chan Res} (h : ch.close = some ch') : ch'.buf = ch.buf := by
  unfold Chan.close at h
  split at h
  · cases h
  · cases h
    rfl

theorem send_buf {ch ch' : Chan Res} {res : Res} (h : ch.send res = some ch') :
    ch'.buf = some res := by
  unfold Chan.send at h
  split at h
  · cases h
    rfl
  · cases h

theorem SubmitsOk.close {submits submits' : List (Submit Srv Req Res)} (h : SubmitsOk hist submits)
    (hc : System.onChan submits c Chan.close = some submits') :
    SubmitsOk hist submits' ∧ submits'.length = submits.length :=
  h.onChan (fun _ _ _ _ hch hr => .inl ((close_buf hch).symm.trans hr)) hc

theorem SubmitsOk.closeOld {submits submits' : List (Submit Srv Req Res)}
    (h : SubmitsOk hist submits) {old : Option ℕ}
    (hc : System.closeOld submits old = some submits') :
    SubmitsOk hist submits' ∧ submits'.length = submits.length := by
  cases old with
  | none =>
      cases hc
      exact ⟨h, rfl⟩
  | some oldCh => exact h.close hc

/-- The entries at one index are set or deleted. -/
theorem RsmOk.setMaps {srv : Srv} {r : RSM σ Req Res} (h : RsmOk m hist srv r) (index : ℕ)
    (ch n mu : Option ℕ)
    (hreg : ∀ c, ch = some c → ∃ req k, .called c srv req ∈ hist ∧ n = some k ∧
      .started c index ⟨req, k⟩ ∈ hist) :
    RsmOk m hist srv { r with
      chMap := Function.update r.chMap index ch
      hashNumMap := Function.update r.hashNumMap index n
      mu := mu } := by
  refine ⟨h.le, h.sm, h.past, h.done, h.notified, fun i c hc => ?_⟩
  dsimp only at hc ⊢
  by_cases e : i = index
  · subst e
    rw [Function.update_self] at hc ⊢
    exact hreg c hc
  · rw [Function.update_of_ne e] at hc ⊢
    exact h.registered i c hc

variable [DecidableEq Srv]

theorem Inv.setRsm (h : Inv m s) {srv : Srv} {r : RSM σ Req Res} (hok : RsmOk m s.hist srv r) :
    Inv m (s.setRsm srv r) := by
  refine ⟨h.raft, h.submits, fun srv' => ?_⟩
  by_cases e : srv' = srv
  · subst e
    simpa [System.setRsm] using hok
  · simpa [System.setRsm, Function.update_of_ne e] using h.rsm srv'

theorem Inv.register (h : Inv m s) (hx : s.submits[c]? = some x)
    (ht : s.turn c x .register = some s') : Inv m s' := by
  cases turned ht with
  | register logId term submits hpc hs =>
      have hok := h.submits.submit c x hx
      obtain ⟨hsub, hlen⟩ := h.submits.closeOld hs
      obtain ⟨n, hn, hst⟩ := hok.locked logId term hpc
      have hlt : c < submits.length := by
        rw [hlen]
        exact (List.getElem?_eq_some_iff.mp hx).1
      have hok' : SubmitOk s.hist c { x with pc := .waiting logId term } := by
        refine ⟨hok.called, hok.unstarted, fun e => ?_, fun _ _ e => (by cases e), hok.ch⟩
        rcases e with e | e
        · cases e
        · cases e
      have hset : SubmitsOk s.hist (submits.set c { x with pc := .waiting logId term }) := by
        refine hsub.update (List.getElem?_eq_getElem hlt) hok' (fun _ _ _ hy => hy)
          (fun _ _ _ hm => hm) (fun _ _ _ _ hm => hm) fun i op hm => ?_
        obtain ⟨y, hy, hyn⟩ := h.submits.drawn c i op hm
        rw [hx] at hy
        cases hy
        exact hyn
      have h' : Inv m ({ s with submits := submits }.goto c x (.waiting logId term)) :=
        ⟨h.raft, hset, h.rsm⟩
      refine h'.setRsm ((h.rsm x.srv).setMaps logId _ _ none fun c' hc' => ?_)
      cases hc'
      exact ⟨x.req, n, hok.called, hn, hst⟩

/-- `Start`, with a number that was not drawn before. -/
theorem Inv.start (h : Inv m s) (hx : s.submits[c]? = some x) {n : ℕ} {answer : Option (ℕ × ℕ)}
    (ht : s.turn c x (.start n answer) = some s') : Inv m s' := by
  have hok := h.submits.submit c x hx
  cases turned ht with
  | rejected _ hpc =>
      have hnone := hok.undrawn (.inr hpc)
      exact h.ret hx (fun k hk => by rw [hnone] at hk; cases hk) (fun _ hr => hr)
        (warranted_refused c)
  | start _ logId term hpc hfresh =>
      have hnone := hok.undrawn (.inr hpc)
      have hw : Warranted m s.hist (.started c logId ⟨x.req, n⟩) := by
        refine ⟨⟨x.srv, hok.called⟩, fun i op => hok.unstarted hnone i op, ?_⟩
        intro c' i op hm e
        obtain ⟨y, hy, hyn⟩ := h.submits.drawn c' i op hm
        rw [e] at hyn
        exact hfresh y (List.mem_of_getElem? hy) hyn
      have hraft := h.raft.quiet hw fun _ _ _ e => by cases e
      refine ⟨⟨hraft.just, fun c' i op hm => ?_, hraft.log_eq, hraft.snap⟩,
        h.submits.start hx hnone logId term n, fun srv => ?_⟩
      · rcases List.mem_append.mp hm with hold | hnew
        · exact hraft.known c' i op hold
        · cases List.mem_singleton.mp hnew
          simp
      · have hrsm : RsmOk m s.hist x.srv { s.rsm x.srv with mu := some c } := by
          have hr := h.rsm x.srv
          exact ⟨hr.le, hr.sm, hr.past, hr.done, hr.notified, hr.registered⟩
        exact ((h.setRsm hrsm).rsm srv).concat fun _ _ _ e => by cases e

theorem Inv.turn (h : Inv m s) (hx : s.submits[c]? = some x) {t : Turn}
    (ht : s.turn c x t = some s') : Inv m s' := by
  have hok := h.submits.submit c x hx
  have hgiveUp : ∀ logId, Inv m (s.goto c x (.cleanup logId)) := fun logId =>
    h.goto hx (fun e => by rcases e with e | e <;> cases e) fun _ _ e => by cases e
  have hrefused : Inv m (s.ret c x .errWrongLeader none) :=
    h.ret hx (fun _ hk => hk) (fun _ hr => hr) (warranted_refused c)
  cases turned ht with
  | lead hpc => exact h.goto hx (fun _ => hok.undrawn (.inl hpc)) fun _ _ e => by cases e
  | refused | lost => exact hrefused
  | rejected | start => exact h.start hx ht
  | register => exact h.register hx ht
  | take logId term res hpc hbuf =>
      obtain ⟨i, op, hs, ha⟩ := hok.ch res hbuf
      refine h.ret hx (fun _ hk => hk) (fun _ hr => (by cases hr)) fun _ => ?_
      exact ⟨x.srv, x.req, i, op, res, rfl, hok.called, hs, ha⟩
  | tickOut logId | timeOut logId => exact hgiveUp logId
  | tickOn => exact h
  | cleanup logId hpc =>
      exact hrefused.setRsm
        ((hrefused.rsm x.srv).setMaps logId none none _ fun _ e => by cases e)

omit [DecidableEq Srv] in
/-- `DoOp` executes the next entry. -/
theorem RsmOk.deliver {srv : Srv} {r : RSM σ Req Res} (h : RsmOk m hist srv r) {op : Op Req}
    (hop : (entries hist)[r.applied]? = some op) {sm : σ} {res : Res}
    (hstep : m.step (r.applied + 1) r.sm op.opcommad = (sm, res)) :
    m.resultAt (reqs hist) r.applied = some res ∧
    RsmOk m (hist ++ [.applied srv (r.applied + 1) op res]) srv
      { r with sm := sm, applied := r.applied + 1, loop := .done (r.applied + 1) op res } := by
  have hreq : (reqs hist)[r.applied]? = some op.opcommad := by
    rw [reqs, List.getElem?_map, hop]
    rfl
  have hlt : r.applied + 1 ≤ (entries hist).length := (List.getElem?_eq_some_iff.mp hop).1
  have hin : ∀ {a}, a ∈ hist → a ∈ hist ++ [.applied srv (r.applied + 1) op res] :=
    List.mem_append_left _
  refine ⟨?_, Nat.le_trans hlt (entries_length_le _ _), ?_, fun i op' res' hm => ?_,
    fun i op' res' e => ?_, fun i e => (by cases e), fun i c hc => ?_⟩
  · rw [Machine.resultAt_eq hreq, ← h.sm, hstep]
  · rw [after_concat _ hlt, Machine.after_succ hreq, ← h.sm, hstep]
  · rcases List.mem_append.mp hm with hold | hnew
    · exact Nat.le_succ_of_le (h.past i op' res' hold)
    · cases List.mem_singleton.mp hnew
      exact Nat.le_refl _
  · cases e
    exact ⟨rfl, by simp⟩
  · obtain ⟨req, n, hcall, hn, hs⟩ := h.registered i c hc
    exact ⟨req, n, hin hcall, hn, hin hs⟩

/-- Raft hands over the next entry. -/
theorem Inv.deliver (h : Inv m s) {srv : Srv} {op : Op Req} {sm : σ} {res : Res}
    (hop : s.log[(s.rsm srv).applied]? = some op)
    (hstep : m.step ((s.rsm srv).applied + 1) (s.rsm srv).sm op.opcommad = (sm, res)) :
    Inv m { s.setRsm srv { s.rsm srv with
        sm := sm
        applied := (s.rsm srv).applied + 1
        loop := .done ((s.rsm srv).applied + 1) op res } with
      hist := s.hist ++ [.applied srv ((s.rsm srv).applied + 1) op res] } := by
  rw [h.raft.log_eq] at hop
  obtain ⟨hres, hr⟩ := (h.rsm srv).deliver hop hstep
  have hw : Warranted m s.hist (.applied srv ((s.rsm srv).applied + 1) op res) :=
    ⟨committed_of_entries h.raft.just hop, hres,
      fun i' op' res' hm => Nat.lt_succ_of_le ((h.rsm srv).past i' op' res' hm)⟩
  refine ⟨h.raft.quiet hw fun _ _ _ e => (by cases e),
    h.submits.concat (fun _ _ _ e => by cases e) (fun _ _ _ e => by cases e), fun srv' => ?_⟩
  by_cases e : srv' = srv
  · subst e
    simpa [System.setRsm] using hr
  · have hold := (h.rsm srv').concat (e := .applied srv ((s.rsm srv).applied + 1) op res)
      fun _ _ _ he => by
        cases he
        exact e rfl
    simpa [System.setRsm, Function.update_of_ne e] using hold

omit [DecidableEq Srv] in
/-- A waiting Submit gets an answer only if the number of the entry is its own. -/
theorem SubmitsOk.wake {submits submits' : List (Submit Srv Req Res)} (h : SubmitsOk hist submits)
    (hj : Justified (Warranted m) hist) {srv : Srv} {r : RSM σ Req Res} (hr : RsmOk m hist srv r)
    {index : ℕ} {op : Op Req} {res : Res} (ha : .applied srv index op res ∈ hist)
    (hw : System.wake submits (r.hashNumMap index = some op.hashNum) res (r.chMap index) =
      some submits') : SubmitsOk hist submits' := by
  cases hch : r.chMap index with
  | none =>
      rw [hch] at hw
      cases hw
      exact h
  | some c =>
      rw [hch] at hw
      simp only [System.wake] at hw
      split at hw
      next hown =>
        refine (h.onChan (fun y ch res' hy hsend hbuf => .inr ?_) hw).1
        cases (send_buf hsend).symm.trans hbuf
        obtain ⟨req, n, hcall, hn, hs⟩ := hr.registered index c hch
        obtain ⟨hsrv, _⟩ := called_unique hj hcall (h.submit c y hy).called
        have hnum : n = op.hashNum := Option.some.inj (hn.symm.trans (of_decide_eq_true hown))
        obtain ⟨p, q, c', e, _, hs', _⟩ := applied_at hj ha
        have hs'' : .started c' index op ∈ hist := by rw [e]; exact List.mem_append_left _ hs'
        obtain ⟨_, _, hop⟩ := started_unique hj hs hs'' hnum
        exact ⟨index, op, hop ▸ hs, hsrv ▸ ha⟩
      next => exact (h.close hw).1

theorem Inv.notify (h : Inv m s) {srv : Srv} (ht : s.notify srv = some s') : Inv m s' := by
  obtain ⟨index, op, res, submits, hloop, hs, rfl⟩ := notified ht
  have hr := h.rsm srv
  obtain ⟨hidx, ha⟩ := hr.done index op res hloop
  have hsub := h.submits.wake h.raft.just hr ha hs
  have h' : Inv m { s with submits := submits } := ⟨h.raft, hsub, h.rsm⟩
  have hmaps := hr.setMaps index none none (s.rsm srv).mu fun _ e => by cases e
  refine h'.setRsm ⟨hmaps.le, hmaps.sm, hmaps.past, fun _ _ _ e => (by cases e), fun i e => ?_,
    hmaps.registered⟩
  cases e
  exact hidx

theorem Inv.snapshot (h : Inv m s) {srv : Srv} {index : ℕ} (take : Bool)
    (hloop : (s.rsm srv).loop = .notified index) :
    Inv m { s.setRsm srv { s.rsm srv with loop := .reading } with
      snaps := if take then s.snaps ++ [(index, (s.rsm srv).sm)] else s.snaps } := by
  have hr := h.rsm srv
  have h' : Inv m (s.setRsm srv { s.rsm srv with loop := .reading }) :=
    h.setRsm ⟨hr.le, hr.sm, hr.past, fun _ _ _ e => (by cases e), fun _ e => (by cases e),
      hr.registered⟩
  refine ⟨⟨h'.raft.just, h'.raft.known, h'.raft.log_eq, fun j st hm => ?_⟩, h'.submits, h'.rsm⟩
  cases take with
  | false => exact h.raft.snap j st hm
  | true =>
      rcases List.mem_append.mp hm with hold | hnew
      · exact h.raft.snap j st hold
      · cases List.mem_singleton.mp hnew
        rw [hr.notified index hloop]
        exact ⟨hr.le, hr.sm⟩

theorem inv_next (h : Inv m s) {act : Action Srv Req} (hn : s.next m act = some s') : Inv m s' := by
  cases stepped hn with
  | @submit srv req =>
      have hw : Warranted m s.hist (.called s.submits.length srv req) :=
        fun srv' req' hm => Nat.lt_irrefl _ (h.submits.called _ srv' req' hm)
      exact ⟨h.raft.quiet hw fun _ _ _ e => (by cases e), h.submits.call srv req,
        fun srv' => (h.rsm srv').concat fun _ _ _ e => by cases e⟩
  | turn hx ht => exact h.turn hx ht
  | @commit k c index op hk hidx =>
      have hw : Warranted m s.hist (.committed c index op) :=
        ⟨h.raft.known c index op (List.mem_of_getElem? hk), by rw [hidx, h.raft.log_eq]⟩
      exact ⟨h.raft.concat hw, h.submits.concat (fun _ _ _ e => by cases e)
        (fun _ _ _ e => by cases e), fun srv => (h.rsm srv).concat fun _ _ _ e => by cases e⟩
  | deliver _ hop => exact h.deliver hop rfl
  | notify ht => exact h.notify ht
  | snapshot take hloop => exact h.snapshot take hloop
  | @restore srv k index sm hk hloop hlt =>
      have hr := h.rsm srv
      obtain ⟨hle, hsm⟩ := h.raft.snap index sm (List.mem_of_getElem? hk)
      refine h.setRsm ⟨hle, hsm, fun i op res hm => ?_, fun _ _ _ e => ?_, fun _ e => ?_,
        hr.registered⟩
      · exact Nat.le_trans (hr.past i op res hm) (Nat.le_of_lt hlt)
      · cases hloop.symm.trans e
      · cases hloop.symm.trans e

omit [DecidableEq Srv] in
theorem inv_init : Inv m (.init m : System σ Srv Req Res) := by
  refine ⟨⟨.nil, fun _ _ _ hm => (by cases hm), rfl, fun _ _ hm => (by cases hm)⟩,
    ⟨fun _ _ hx => (by cases hx), fun _ _ _ hm => (by cases hm), fun _ _ _ hm => (by cases hm)⟩,
    fun srv => ?_⟩
  exact ⟨Nat.le_refl _, rfl, fun _ _ _ hm => (by cases hm), fun _ _ _ e => (by cases e),
    fun _ e => (by cases e), fun _ _ e => (by cases e)⟩

theorem inv_reachable (h : s.Reachable m) : Inv m s := by
  refine run_inv (fun s s' hs hi => ?_) h inv_init
  obtain ⟨act, hn⟩ := hs
  exact inv_next hi hn

end Steps

/-- **`Submit` is linearizable.** In every reachable state: if a Submit has returned `(OK, res)`,
    then its own operation was applied at its server, between the call and the return, at the index
    that `Start` returned; this was the only time there, no server has applied it at another index or
    with another result, and `res` is what `DoOp` answered, which is what the log gives at this
    index. The order of the log is a linearization of all Submits that returned `OK`. -/
theorem submit_linearizable [DecidableEq Srv] (m : Machine σ Req Res) {s : System σ Srv Req Res}
    (h : s.Reachable m) :
    (∀ pre post c res, s.hist = pre ++ .returned c .ok res :: post →
      ∃ srv index op r p1 p2 p3, res = some r ∧
        pre = p1 ++ .called c srv op.opcommad :: p2 ++ .applied srv index op r :: p3 ∧
        .started c index op ∈ p2 ∧ s.log[index - 1]? = some op ∧
        m.resultAt (s.log.map Op.opcommad) (index - 1) = some r ∧
        s.hist.countP (Ev.appliesAt srv op.hashNum) = 1 ∧
        ∀ srv' index' op' r', .applied srv' index' op' r' ∈ s.hist → op'.hashNum = op.hashNum →
          index' = index ∧ op' = op ∧ r' = r) ∧
    ∃ lin, lin.map Prod.snd = s.log.map Op.opcommad ∧ Linearizes m (s.hist.filterMap mark) lin := by
  have hi := inv_reachable h
  rw [hi.raft.log_eq]
  exact ⟨fun pre post c res e => own_op_applied hi.raft.just e, linearizes_log hi.raft.just⟩

/-! ### Two leaders use one index -/

section Sample

/-- A register that adds, and answers what it held. -/
def adder : Machine ℕ ℕ ℕ := ⟨0, fun _ sum n => (sum + n, sum)⟩

/-- A Submit up to where it waits. -/
def submitted (c srv req hashNum logId term : ℕ) : List (Action ℕ ℕ) :=
  [.submit srv req, .turn c (.getState true), .turn c (.start hashNum (some (logId, term))),
    .turn c .register]

/-- Server 0 starts an operation at index 1, then server 1 another one, which is committed. Server 0
    applies it and closes the channel that waits. Server 1 goes on; server 2 gets a snapshot. -/
def twoLeaders : List (Action ℕ ℕ) :=
  submitted 0 0 5 70 1 1 ++ submitted 1 1 3 80 1 2 ++
  [.commit 1, .deliver 1, .notify 1, .snapshot 1 true, .turn 1 .receive, .deliver 0, .notify 0,
    .snapshot 0 false, .turn 0 .receive, .restore 2 0] ++
  submitted 2 1 4 90 2 2 ++ [.commit 2, .deliver 1, .notify 1, .deliver 2, .turn 2 .receive]

theorem submit_linearizable_sample :
    ∃ s : System ℕ ℕ ℕ ℕ, s.Reachable adder ∧ .returned 0 .errWrongLeader none ∈ s.hist ∧
      .returned 1 .ok (some 0) ∈ s.hist ∧ .returned 2 .ok (some 3) ∈ s.hist ∧
      ∃ lin, lin.map Prod.snd = [3, 4] ∧ Linearizes adder (s.hist.filterMap mark) lin := by
  have hplay : ((play (System.next adder) (.init adder) twoLeaders).map fun s =>
      (decide (.returned 0 .errWrongLeader none ∈ s.hist ∧ .returned 1 .ok (some 0) ∈ s.hist ∧
        .returned 2 .ok (some 3) ∈ s.hist), s.log.map Op.opcommad)) = some (true, [3, 4]) := by
    decide +kernel
  obtain ⟨s, hs, hv⟩ := Option.map_eq_some_iff.mp hplay
  obtain ⟨hd, hlog⟩ := Prod.mk.inj hv
  obtain ⟨h0, h1, h2⟩ := of_decide_eq_true hd
  obtain ⟨_, lin, hlin, hl⟩ := submit_linearizable adder (play_run hs)
  exact ⟨s, play_run hs, h0, h1, h2, lin, hlin.trans hlog, hl⟩

end Sample

end RaftLab.Kvraft1.Rsm

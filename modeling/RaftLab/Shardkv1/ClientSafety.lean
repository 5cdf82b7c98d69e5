/-
  File:      RaftLab/Shardkv1/ClientSafety.lean
  Subject:   What the answers of `Clerk.Put` say about the RPCs it has sent (Client.lean).

  An RPC takes effect only while the key has the version it names, and versions never fall; so at
  most one RPC of a call takes effect. `OK` comes from one that did. `ErrVersion` is returned for the
  answer to the first RPC of an inner Put, so what that inner Put sent took no effect; it says
  nothing of the RPCs of earlier inner Puts, which ended in `ErrWrongGroup`
  (**`put_answers_honest`**, `errVersion_after_effect`).
-/
import RaftLab.Shardkv1.Client
import RaftLab.Shardkv1.MigrationSafety

namespace RaftLab.Shardkv1.Client

open RaftLab.Lib RaftLab.Kvsrv1 Relation
open RaftLab.Raft1 (Bytes)

variable {Value : Type} {x x' : Call Value} {truth truth' : Table Bytes Value}

/-! ## 1. The invariant of a call -/

/-- The inner Put that runs has no answer yet. -/
def Waiting (x : Call Value) : Prop := ∀ r ∈ x.rpcs, r.inner = x.inner → r.answered = false

/-- All RPCs but the last are of inner Puts that are over. -/
def Alone (x : Call Value) : Prop :=
  ∀ (j : ℕ) (r : Rpc), x.rpcs[j]? = some r → j + 1 < x.rpcs.length → r.inner < x.inner

/-- The last RPC is of the inner Put that runs. -/
def Current (x : Call Value) : Prop := ∀ r, x.rpcs.getLast? = some r → r.inner = x.inner

def PcOk (x : Call Value) : Prop :=
  match x.pc with
  | .route => ∀ r ∈ x.rpcs, r.inner < x.inner
  | .first => Alone x ∧ Current x ∧ Waiting x
  | .retry _ => Waiting x
  | .resent _ => Current x ∧ Waiting x
  | .returned err =>
      (err = .ok → ∃ r ∈ x.rpcs, r.Effective) ∧
      (err = .errVersion → ∀ r ∈ x.rpcs, r.inner = x.inner → r.reply = some ⟨.errVersion⟩)

/-- What is known of the RPCs of a call. `truth` is what the acknowledged Puts have led to. -/
structure RpcsOk (truth : Table Bytes Value) (x : Call Value) : Prop where
  inner_le : ∀ r ∈ x.rpcs, r.inner ≤ x.inner
  spent : ∀ r ∈ x.rpcs, r.Effective → x.args.version < truth.version x.args.key
  once : x.effects ≤ 1
  earlier : ∀ r ∈ x.rpcs, r.inner < x.inner → r.answered = true →
    r.reply = some ⟨.errWrongGroup⟩

structure CallOk (truth : Table Bytes Value) (x : Call Value) : Prop extends RpcsOk truth x where
  pc : PcOk x

/-- The inner `Put` ends in `ErrWrongGroup`. -/
theorem RpcsOk.wrongGroup (h : RpcsOk truth x)
    (hans : ∀ r ∈ x.rpcs, r.inner = x.inner → r.answered = true →
      r.reply = some ⟨.errWrongGroup⟩) : CallOk truth (x.innerReturn .errWrongGroup) := by
  refine ⟨⟨fun r hr => Nat.le_succ_of_le (h.inner_le r hr), h.spent, h.once, fun r hr _ ha => ?_⟩,
    fun r hr => Nat.lt_succ_of_le (h.inner_le r hr)⟩
  rcases Nat.lt_or_eq_of_le (h.inner_le r hr) with hlt | heq
  · exact h.earlier r hr hlt ha
  · exact hans r hr heq ha

namespace CallOk

theorem mono (h : CallOk truth x) (ht : ∀ key, truth.version key ≤ truth'.version key) :
    CallOk truth' x :=
  { h with spent := fun r hr he => Nat.lt_of_lt_of_le (h.spent r hr he) (ht _) }

theorem refresh (h : CallOk truth x) {cfg : ShardConfig} (hx : x.refresh cfg = some x') :
    CallOk truth x' := by
  unfold Call.refresh at hx
  split at hx
  next hpc =>
    cases hx
    have hp := h.pc
    simp only [PcOk, hpc.1] at hp
    refine ⟨⟨h.inner_le, h.spent, h.once, h.earlier⟩, ?_⟩
    simp only [PcOk, hpc.1]
    exact hp
  next => cases hx

theorem sendRpc (h : CallOk truth x) (gid : Tgid) {pc : Pc} (hpc : PcOk (x.sendRpc gid pc)) :
    CallOk truth (x.sendRpc gid pc) := by
  have hmem : ∀ r ∈ (x.sendRpc gid pc).rpcs, r ∈ x.rpcs ∨ r = ⟨x.inner, gid, none, false⟩ := by
    intro r hr
    simpa [Call.sendRpc] using hr
  refine ⟨⟨fun r hr => ?_, fun r hr he => ?_, ?_, fun r hr hlt ha => ?_⟩, hpc⟩
  · rcases hmem r hr with hold | rfl
    · exact h.inner_le r hold
    · exact Nat.le_refl _
  · rcases hmem r hr with hold | rfl
    · exact h.spent r hold he
    · cases he
  · have hnew : ¬ (⟨x.inner, gid, none, false⟩ : Rpc).Effective := fun he => by cases he
    simpa [Call.effects, Call.sendRpc, hnew] using h.once
  · rcases hmem r hr with hold | rfl
    · exact h.earlier r hold hlt ha
    · cases ha

theorem waiting_sendRpc (h : Waiting x) (gid : Tgid) (pc : Pc) :
    Current (x.sendRpc gid pc) ∧ Waiting (x.sendRpc gid pc) := by
  constructor
  · intro r hr
    rw [Call.sendRpc, List.getLast?_append] at hr
    cases hr
    rfl
  · intro r hr hi
    rcases List.mem_append.mp hr with hold | hnew
    · exact h r hold hi
    · rw [List.mem_singleton.mp hnew]

theorem send (h : CallOk truth x) (hx : x.send = some x') : CallOk truth x' := by
  have hp := h.pc
  unfold Call.send at hx
  split at hx
  next hpc =>
    simp only [PcOk, hpc] at hp
    obtain ⟨cfg, _, rfl⟩ := Option.map_eq_some_iff.mp hx
    refine h.sendRpc _ ⟨fun j r hj hlt => ?_, ?_⟩
    · simp only [Call.sendRpc, List.length_append, List.length_singleton] at hj hlt
      rw [List.getElem?_append_left (by omega)] at hj
      exact hp r (List.mem_of_getElem? hj)
    · exact waiting_sendRpc (fun r hr hi => absurd hi (Nat.ne_of_lt (hp r hr))) _ _
  next tries hpc =>
    simp only [PcOk, hpc] at hp
    split at hx
    · cases hx
      exact h.sendRpc _ (waiting_sendRpc hp _ _)
    · cases hx
      refine h.wrongGroup fun r hr hi ha => ?_
      rw [hp r hr hi] at ha
      cases ha
  next => cases hx

theorem noAnswer (h : CallOk truth x) (hx : x.noAnswer = some x') : CallOk truth x' := by
  have hp := h.pc
  unfold Call.noAnswer at hx
  split at hx
  next hpc =>
    simp only [PcOk, hpc] at hp
    cases hx
    exact ⟨⟨h.inner_le, h.spent, h.once, h.earlier⟩, hp.2.2⟩
  next tries hpc =>
    simp only [PcOk, hpc] at hp
    cases hx
    exact ⟨⟨h.inner_le, h.spent, h.once, h.earlier⟩, hp.2⟩
  next => cases hx

/-- An answer of the last RPC ends the inner `Put`. -/
theorem answered {rs : List Rpc} {r : Rpc} {reply : PutReply} {resend : Bool}
    (h : RpcsOk truth x) (hrs : x.rpcs = rs ++ [r]) (hcur : r.inner = x.inner)
    (hreply : r.reply = some reply) (hw : Waiting x)
    (halone : resend = false → ∀ r' ∈ rs, r'.inner < x.inner) :
    CallOk truth (Call.innerReturn { x with rpcs := rs ++ [{ r with answered := true }] }
      (putResult resend reply)) := by
  have hmem : ∀ r' ∈ rs ++ [{ r with answered := true }],
      r' ∈ rs ∨ r' = { r with answered := true } := by
    intro r' hr'
    simpa using hr'
  have hold : ∀ r' ∈ rs, r' ∈ x.rpcs := fun r' hr' => by rw [hrs]; exact List.mem_append_left _ hr'
  have hlast : r ∈ x.rpcs := by rw [hrs]; exact List.mem_append_right _ (List.mem_singleton_self _)
  have hbase : RpcsOk truth { x with rpcs := rs ++ [{ r with answered := true }] } := by
    refine ⟨fun r' hr' => ?_, fun r' hr' he => ?_, ?_, fun r' hr' hlt ha => ?_⟩
    · rcases hmem r' hr' with h1 | rfl
      · exact h.inner_le r' (hold r' h1)
      · exact h.inner_le r hlast
    · rcases hmem r' hr' with h1 | rfl
      · exact h.spent r' (hold r' h1) he
      · exact h.spent r hlast he
    · have ho := h.once
      rw [Call.effects, hrs, List.countP_append] at ho
      rw [Call.effects, List.countP_append]
      exact ho
    · rcases hmem r' hr' with h1 | rfl
      · exact h.earlier r' (hold r' h1) hlt ha
      · exact absurd hcur (Nat.ne_of_lt hlt)
  by_cases hg : putResult resend reply = .errWrongGroup
  · rw [hg]
    refine hbase.wrongGroup fun r' hr' hi ha => ?_
    rcases hmem r' hr' with h1 | rfl
    · rw [hw r' (hold r' h1) hi] at ha
      cases ha
    · rw [hreply, ← putResult_errWrongGroup hg]
  · rw [Call.innerReturn, if_neg hg]
    refine ⟨⟨hbase.inner_le, hbase.spent, hbase.once, hbase.earlier⟩, fun hok => ?_,
      fun hv r' hr' hi => ?_⟩
    · refine ⟨{ r with answered := true }, List.mem_append_right _ (List.mem_singleton_self _), ?_⟩
      rw [Rpc.Effective, hreply, ← putResult_ok hok]
    · obtain ⟨hfirst, he⟩ := putResult_errVersion hv
      rcases hmem r' hr' with h1 | rfl
      · exact absurd hi (Nat.ne_of_lt (halone hfirst r' h1))
      · rw [hreply, ← he]

theorem answer (h : CallOk truth x) (hx : x.answer = some x') : CallOk truth x' := by
  have hp := h.pc
  obtain ⟨r, hr, hx⟩ := Option.bind_eq_some_iff.mp hx
  obtain ⟨reply, hreply, hx⟩ := Option.bind_eq_some_iff.mp hx
  obtain ⟨rs, hrs⟩ := List.getLast?_eq_some_iff.mp hr
  have hdrop : x.rpcs.dropLast = rs := by rw [hrs, List.dropLast_concat]
  rw [hdrop] at hx
  dsimp only at hx
  split at hx
  next hpc =>
    cases hx
    simp only [PcOk, hpc] at hp
    obtain ⟨halone, hcur, hw⟩ := hp
    refine answered h.toRpcsOk hrs (hcur r hr) hreply hw fun _ r' hr' => ?_
    obtain ⟨j, hj, e⟩ := List.mem_iff_getElem.mp hr'
    refine halone j r' ?_ (by rw [hrs]; simp; omega)
    rw [hrs, List.getElem?_append_left hj, List.getElem?_eq_getElem hj, e]
  next tries hpc =>
    cases hx
    simp only [PcOk, hpc] at hp
    exact answered h.toRpcsOk hrs (hp.1 r hr) hreply hp.2 fun hno => by cases hno
  next => cases hx

end CallOk

section Executed

variable {i : ℕ} {r : Rpc} {reply : PutReply}

/-- What an execution changes of the RPCs: an answer where there was none. -/
theorem getElem?_executed (hi : x.rpcs[i]? = some r) (hno : r.reply = none) {j : ℕ} {r' : Rpc}
    (hj : (x.executed i r reply).rpcs[j]? = some r') :
    ∃ r0, x.rpcs[j]? = some r0 ∧ r0.inner = r'.inner ∧ r0.answered = r'.answered ∧
      (r0.reply = r'.reply ∨ (r0.reply = none ∧ r'.reply = some reply)) := by
  rw [Call.executed, List.getElem?_set] at hj
  split at hj
  next e =>
    split at hj
    · cases hj
      exact ⟨r, e ▸ hi, rfl, rfl, .inr ⟨hno, rfl⟩⟩
    · cases hj
  next => exact ⟨r', hj, rfl, rfl, .inl rfl⟩

theorem mem_executed (hi : x.rpcs[i]? = some r) (hno : r.reply = none) {r' : Rpc}
    (hr' : r' ∈ (x.executed i r reply).rpcs) :
    ∃ r0 ∈ x.rpcs, r0.inner = r'.inner ∧ r0.answered = r'.answered ∧
      (r0.reply = r'.reply ∨ (r0.reply = none ∧ r'.reply = some reply)) := by
  obtain ⟨j, hj⟩ := List.mem_iff_getElem?.mp hr'
  obtain ⟨r0, h0, hrest⟩ := getElem?_executed hi hno hj
  exact ⟨r0, List.mem_of_getElem? h0, hrest⟩

/-- An RPC that has an answer keeps it. -/
theorem mem_executed_of_reply (hi : x.rpcs[i]? = some r) (hno : r.reply = none) {r0 : Rpc}
    (h0 : r0 ∈ x.rpcs) (hsome : r0.reply ≠ none) : r0 ∈ (x.executed i r reply).rpcs := by
  obtain ⟨j, hj⟩ := List.mem_iff_getElem?.mp h0
  have hne : i ≠ j := by
    intro e
    rw [← e, hi] at hj
    cases hj
    exact hsome hno
  refine List.mem_iff_getElem?.mpr ⟨j, ?_⟩
  rw [Call.executed, List.getElem?_set_ne hne]
  exact hj

theorem Waiting.executed (hi : x.rpcs[i]? = some r) (hno : r.reply = none) (h : Waiting x) :
    Waiting (x.executed i r reply) := by
  intro r' hr' hin
  obtain ⟨r0, h0, e1, e2, _⟩ := mem_executed hi hno hr'
  rw [← e2]
  exact h r0 h0 (e1.trans hin)

theorem Current.executed (hi : x.rpcs[i]? = some r) (hno : r.reply = none) (h : Current x) :
    Current (x.executed i r reply) := by
  intro r' hr'
  rw [List.getLast?_eq_getElem?] at hr'
  obtain ⟨r0, h0, e1, _⟩ := getElem?_executed hi hno hr'
  rw [Call.executed, List.length_set, ← List.getLast?_eq_getElem?] at h0
  exact e1 ▸ h r0 h0

theorem PcOk.executed (hi : x.rpcs[i]? = some r) (hno : r.reply = none) (h : PcOk x) :
    PcOk (x.executed i r reply) := by
  unfold PcOk at h ⊢
  rw [show (x.executed i r reply).pc = x.pc from rfl]
  cases hpc : x.pc with
  | route =>
      rw [hpc] at h
      intro r' hr'
      obtain ⟨r0, h0, e1, _⟩ := mem_executed hi hno hr'
      exact e1 ▸ h r0 h0
  | first =>
      rw [hpc] at h
      refine ⟨fun j r' hj hlt => ?_, h.2.1.executed hi hno, h.2.2.executed hi hno⟩
      obtain ⟨r0, h0, e1, _⟩ := getElem?_executed hi hno hj
      rw [Call.executed, List.length_set] at hlt
      exact e1 ▸ h.1 j r0 h0 hlt
  | retry tries =>
      rw [hpc] at h
      exact Waiting.executed hi hno h
  | resent tries =>
      rw [hpc] at h
      exact ⟨h.1.executed hi hno, h.2.executed hi hno⟩
  | returned err =>
      rw [hpc] at h
      refine ⟨fun he => ?_, fun he r' hr' hin => ?_⟩
      · obtain ⟨r0, h0, heff⟩ := h.1 he
        refine ⟨r0, mem_executed_of_reply hi hno h0 fun e => ?_, heff⟩
        rw [Rpc.Effective, e] at heff
        cases heff
      · obtain ⟨r0, h0, e1, _, e | ⟨hnone, _⟩⟩ := mem_executed hi hno hr'
        · rw [← e]
          exact h.2 he r0 h0 (e1.trans hin)
        · have := h.2 he r0 h0 (e1.trans hin)
          rw [hnone] at this
          cases this

/-- An RPC takes effect at the version it names, so no other one has. -/
theorem effects_executed (h : RpcsOk truth x) (hi : x.rpcs[i]? = some r) (hno : r.reply = none)
    (hok : reply.err = .ok → truth.version x.args.key = x.args.version) :
    (x.executed i r reply).effects ≤ 1 := by
  obtain ⟨hlt, hget⟩ := List.getElem?_eq_some_iff.mp hi
  have hnot : ¬ r.Effective := fun he => by rw [Rpc.Effective, hno] at he; cases he
  rw [Call.effects, Call.executed, List.countP_set hlt]
  simp only [hget, hnot, decide_false, Bool.false_eq_true, if_false, Nat.sub_zero]
  by_cases hr : reply.err = .ok
  · have hzero : x.rpcs.countP (fun r => r.Effective) = 0 := by
      rw [List.countP_eq_zero]
      intro r0 h0 he
      have hlt := h.spent r0 h0 (of_decide_eq_true he)
      have hver := hok hr
      omega
    rw [hzero]
    split
    · exact Nat.le_refl _
    · exact Nat.zero_le _
  · have hnew : ¬ Rpc.Effective { r with reply := some reply } := by
      intro he
      rw [Rpc.Effective, Option.some.injEq] at he
      exact hr (by rw [he])
    simp only [hnew, decide_false, Bool.false_eq_true, if_false]
    exact h.once

/-- **A group executes an RPC of the call.** -/
theorem CallOk.executed (h : CallOk truth x) (hi : x.rpcs[i]? = some r) (hno : r.reply = none)
    (ht : ∀ key, truth.version key ≤ truth'.version key)
    (hok : reply.err = .ok → truth.version x.args.key = x.args.version ∧
      truth'.version x.args.key = x.args.version + 1) :
    CallOk truth' (x.executed i r reply) := by
  refine ⟨⟨fun r' hr' => ?_, fun r' hr' he => ?_,
    effects_executed h.toRpcsOk hi hno fun hr => (hok hr).1, fun r' hr' hlt ha => ?_⟩,
    h.pc.executed hi hno⟩
  · obtain ⟨r0, h0, e1, _⟩ := mem_executed hi hno hr'
    exact e1 ▸ h.inner_le r0 h0
  · obtain ⟨r0, h0, _, _, e | ⟨_, e⟩⟩ := mem_executed hi hno hr'
    · exact Nat.lt_of_lt_of_le (h.spent r0 h0 (e.trans he)) (ht _)
    · rw [Rpc.Effective, e, Option.some.injEq] at he
      exact Nat.lt_of_lt_of_eq (Nat.lt_succ_self _) (hok (by rw [he])).2.symm
  · obtain ⟨r0, h0, e1, e2, e | ⟨hnone, _⟩⟩ := mem_executed hi hno hr'
    · rw [← e]
      exact h.earlier r0 h0 (e1 ▸ hlt) (e2 ▸ ha)
    · have := h.earlier r0 h0 (e1 ▸ hlt) (e2 ▸ ha)
      rw [hnone] at this
      cases this

end Executed

/-! ## 2. Runs -/

variable [Inhabited Value] {plan : Plan} {s s' : System Value}

/-- Steps of the groups never take a version back. -/
theorem version_le_next {w w' : World Value} {act : Shardkv1.Action Value}
    (h : w.next plan act = some w') (key : Bytes) :
    (applyPuts w.acked).version key ≤ (applyPuts w'.acked).version key := by
  rcases World.acked_next h with e | ⟨args, e⟩
  · exact Nat.le_of_eq (by rw [e])
  · rw [e, applyPuts_concat]
    exact version_le_putEntry _ _ _

structure Inv (plan : Plan) (s : System Value) : Prop where
  reach : s.w.Reachable plan
  calls : ∀ x ∈ s.calls, CallOk (applyPuts s.w.acked) x

theorem Inv.step (h : Inv plan s) {c : ℕ} {f : Call Value → Option (Call Value)}
    (hf : ∀ x x', CallOk (applyPuts s.w.acked) x → f x = some x' → CallOk (applyPuts s.w.acked) x')
    (hs : s.step c f = some s') : Inv plan s' := by
  obtain ⟨x, hx, hs⟩ := Option.bind_eq_some_iff.mp hs
  obtain ⟨x', hx', hs⟩ := Option.bind_eq_some_iff.mp hs
  cases hs
  refine ⟨h.reach, fun y hy => ?_⟩
  rcases List.mem_or_eq_of_mem_set hy with hold | rfl
  · exact h.calls y hold
  · exact hf x y (h.calls x (List.mem_of_getElem? hx)) hx'

theorem inv_next (h : Inv plan s) {act : Action Value} (hn : s.next plan act = some s') :
    Inv plan s' := by
  cases act with
  | world act =>
      obtain ⟨w, hw, rfl⟩ := Option.map_eq_some_iff.mp hn
      exact ⟨h.reach.tail ⟨act, hw⟩, fun x hx => (h.calls x hx).mono (version_le_next hw)⟩
  | call args cfg =>
      simp only [System.next] at hn
      split at hn
      · cases hn
        refine ⟨h.reach, fun x hx => ?_⟩
        rcases List.mem_append.mp hx with hold | hnew
        · exact h.calls x hold
        · rw [List.mem_singleton.mp hnew]
          exact ⟨⟨fun _ hr => (by cases hr), fun _ hr => (by cases hr), Nat.zero_le _,
            fun _ hr => (by cases hr)⟩, fun _ hr => (by cases hr)⟩
      · cases hn
  | refresh c N =>
      simp only [System.next] at hn
      split at hn
      · exact h.step (fun _ _ hx => hx.refresh) hn
      · cases hn
  | send c => exact h.step (fun _ _ hx => hx.send) hn
  | answer c => exact h.step (fun _ _ hx => hx.answer) hn
  | noAnswer c => exact h.step (fun _ _ hx => hx.noAnswer) hn
  | execute c i =>
      obtain ⟨x, hx, hn⟩ := Option.bind_eq_some_iff.mp hn
      obtain ⟨r, hr, hn⟩ := Option.bind_eq_some_iff.mp hn
      obtain ⟨w, hw, hn⟩ := Option.bind_eq_some_iff.mp hn
      dsimp only at hn
      split at hn
      next hno =>
        cases hn
        have hmono := version_le_next hw
        refine ⟨h.reach.tail ⟨_, hw⟩, fun y hy => ?_⟩
        rcases List.mem_or_eq_of_mem_set hy with hold | rfl
        · exact (h.calls y hold).mono hmono
        · refine (h.calls x (List.mem_of_getElem? hx)).executed hr hno hmono fun hok => ?_
          have hacked : w.acked = s.w.acked ++ [x.args] := by
            cases hw
            exact if_pos hok
          rw [hacked]
          exact (inv_reachable h.reach).version_of_put hok
      next => cases hn

theorem inv_of_reachable (h : s.Reachable plan) : Inv plan s := by
  refine run_inv (fun s s' hs hi => ?_) h ⟨.refl, fun _ hx => by cases hx⟩
  obtain ⟨act, hn⟩ := hs
  exact inv_next hi hn

/-- **What the answer of a `Put` says about its RPCs**, in every reachable state. At most one has
    taken effect; after `OK`, exactly one. After `ErrVersion` none has, if and only if none of an
    inner Put that ended in `ErrWrongGroup` has; this is so if the clerk got the answers to all RPCs
    of these. -/
theorem put_answers_honest (plan : Plan) (h : s.Reachable plan) (hx : x ∈ s.calls) :
    x.effects ≤ 1 ∧
    (x.pc = .returned .ok → x.effects = 1) ∧
    (x.pc = .returned .errVersion →
      (x.effects = 0 ↔ ∀ r ∈ x.rpcs, r.inner < x.inner → ¬ r.Effective) ∧
      ((∀ r ∈ x.rpcs, r.inner < x.inner → r.answered = true) → x.effects = 0)) := by
  have hok := (inv_of_reachable h).calls x hx
  have hp := hok.pc
  refine ⟨hok.once, fun hpc => ?_, fun hpc => ?_⟩
  · unfold PcOk at hp
    rw [hpc] at hp
    obtain ⟨r, hr, he⟩ := hp.1 rfl
    have hpos : 0 < x.effects := List.countP_pos_iff.mpr ⟨r, hr, decide_eq_true he⟩
    exact Nat.le_antisymm hok.once hpos
  · unfold PcOk at hp
    rw [hpc] at hp
    have hzero : (∀ r ∈ x.rpcs, r.inner < x.inner → ¬ r.Effective) → x.effects = 0 := by
      intro hno
      refine List.countP_eq_zero.mpr fun r hr he => ?_
      rcases Nat.lt_or_eq_of_le (hok.inner_le r hr) with hlt | heq
      · exact hno r hr hlt (of_decide_eq_true he)
      · have he' : r.reply = some ⟨.ok⟩ := of_decide_eq_true he
        rw [hp.2 rfl r hr heq] at he'
        cases he'
    refine ⟨⟨fun h0 r hr _ he => ?_, hzero⟩, fun hans => hzero fun r hr hlt he => ?_⟩
    · exact List.countP_eq_zero.mp h0 r hr (decide_eq_true he)
    · rw [Rpc.Effective, hok.earlier r hr hlt (hans r hr hlt)] at he
      cases he

/-! ### A Put while the shard moves -/

section Sample

/-- The shard has moved and the key has version 1; the clerk still has the old configuration. -/
def staleClerk : List (Action ℕ) :=
  [.world (.put 1 ⟨[97], 7, 0⟩)] ++ migrateOnce.map .world ++
  [.call ⟨[97], 8, 0⟩ (some 1), .send 0, .execute 0 0, .answer 0, .refresh 0 2, .send 0,
    .execute 0 1, .answer 0]

theorem put_answers_honest_sample :
    ∃ (s : System ℕ) (x : Call ℕ), s.Reachable moveOne ∧ x ∈ s.calls ∧
      x.pc = .returned .errVersion ∧ x.inner = 1 ∧ x.effects = 0 := by
  have hplay : ((play (System.next moveOne) .init staleClerk).map fun s =>
      s.calls.map fun x => (x.pc, x.inner, x.rpcs.all fun r => r.answered)) =
      some [(.returned .errVersion, 1, true)] := by decide +kernel
  obtain ⟨s, hs, hv⟩ := Option.map_eq_some_iff.mp hplay
  obtain ⟨x, hx⟩ : ∃ x, s.calls = [x] := by
    have hlen := congrArg List.length hv
    rw [List.length_map] at hlen
    exact List.length_eq_one_iff.mp hlen
  rw [hx] at hv
  simp only [List.map_cons, List.map_nil, List.cons.injEq, Prod.mk.injEq, and_true] at hv
  obtain ⟨hpc, hin, hall⟩ := hv
  have hmem : x ∈ s.calls := by rw [hx]; exact List.mem_singleton_self x
  refine ⟨s, x, play_run hs, hmem, hpc, hin, ?_⟩
  have hans := ((put_answers_honest moveOne (play_run hs) hmem).2.2 hpc).2
  exact hans fun r hr _ => List.all_eq_true.mp hall r hr

/-- The first RPC is executed and its answer lost; the shard moves; the second one is answered
    `ErrWrongGroup`; the new owner has the key at the next version. -/
def lostAnswer : List (Action ℕ) :=
  [.call ⟨[97], 7, 0⟩ (some 1), .send 0, .execute 0 0, .noAnswer 0] ++ migrateOnce.map .world ++
  [.send 0, .execute 0 1, .answer 0, .refresh 0 2, .send 0, .execute 0 2, .answer 0]

/-- **`ErrVersion` for a Put that took effect.** -/
theorem errVersion_after_effect :
    ∃ (s : System ℕ) (x : Call ℕ), s.Reachable moveOne ∧ x ∈ s.calls ∧
      x.pc = .returned .errVersion ∧ x.effects = 1 := by
  have hplay : ((play (System.next moveOne) .init lostAnswer).map fun s =>
      s.calls.map fun x => (x.pc, x.effects)) = some [(.returned .errVersion, 1)] := by
    decide +kernel
  obtain ⟨s, hs, hv⟩ := Option.map_eq_some_iff.mp hplay
  have hmem : (.returned .errVersion, 1) ∈ s.calls.map fun x => (x.pc, x.effects) := by
    rw [hv]
    exact List.mem_singleton_self _
  obtain ⟨x, hx, e⟩ := List.mem_map.mp hmem
  exact ⟨s, x, play_run hs, hx, congrArg Prod.fst e, congrArg Prod.snd e⟩

end Sample

end RaftLab.Shardkv1.Client

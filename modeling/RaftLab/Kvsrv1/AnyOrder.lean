/-
  File:      RaftLab/Kvsrv1/AnyOrder.lean
  Subject:   What clients can rely on when RPCs are executed in any order.

  An RPC that was given up may be executed late: after a later RPC of the same call, or after the
  call has returned. Then a `Put` that returned `ErrVersion`, `ErrNoKey` or `ErrMaybe` may still take
  effect, or may have taken effect, and the histories are not those of `MapSpec`
  (`clerk_histories_linearizable` asks for `InOrder`). What is left holds without any condition:

  **`settled_linearizable`**: if the calls of `Put` that returned anything but `OK` are taken as
  open, as calls that may take effect once, now or later or never, the history is linearizable: every
  `Get` returns what the map has, every `Put` that returned `OK` took effect between its call and its
  return, and no `Put` takes effect twice.

  The reason is the version again: a `Put` that took effect has moved its key past the version that
  it names, so none of the other RPCs of the call, however late, takes effect.
-/
import RaftLab.Kvsrv1.Clerk
import RaftLab.Kvraft1.Clerk

namespace RaftLab.Kvsrv1

open RaftLab.Lib RaftLab.Kvraft1

variable {Key Value : Type} [DecidableEq Key] [Inhabited Value]

/-! ## 1. What is settled -/

/-- An answer that leaves nothing open. -/
def isDefinite : Reply Value → Bool
  | .get _ => true
  | .put reply => reply.err = .ok

/-- What the clients see, without the returns that leave open what happened. -/
def settled (marks : List (Mark ℕ (Req Key Value) (Reply Value))) :
    List (Mark ℕ (Req Key Value) (Reply Value)) :=
  marks.filter fun e =>
    match e with
    | .ret _ out => isDefinite out
    | _ => true

/-- The events that leave nothing open. -/
def isSettled : Ev (Req Key Value) (Reply Value) (Reply Value) → Bool
  | .ret _ _ out => isDefinite out
  | _ => true

omit [DecidableEq Key] [Inhabited Value] in
theorem visible_filter (hist : List (Ev (Req Key Value) (Reply Value) (Reply Value))) :
    visible (hist.filter isSettled) = settled (visible hist) := by
  rw [visible, visible, settled, List.filterMap_filter, List.filter_filterMap]
  congr 1
  funext e
  cases e with
  | call | exec | ret => rfl

/-- A clerk returns the server's answer, or `ErrMaybe` in place of `ErrVersion`. -/
def Honest (_ : Req Key Value) (res out : Reply Value) : Prop := ∃ resend, out = clerkReply resend res

/-! ## 2. Effects -/

section Effects

variable {hist : List (Ev (Req Key Value) (Reply Value) (Reply Value))}
  (h : Justified (Loose (kvObject Key Value) Honest) hist) {c i j : ℕ} {op : Req Key Value}
  {res : Reply Value} {args : PutArgs Key Value}

/-- The execution that counts for a call: the one that took effect, or the one whose answer a `Get`
    returned. -/
def Settles (hist : List (Ev (Req Key Value) (Reply Value) (Reply Value))) (c i : ℕ) : Prop :=
  TookEffect hist c i ∨ ∃ reply, .ret c i (.get reply) ∈ hist

include h

/-- **A `Put` that took effect has moved its key past its version**, for good. -/
theorem passed_of_ok (hmem : .exec c i (.put args) (.put ⟨.ok⟩) ∈ hist) :
    args.version < ((kvObject Key Value).after hist).version args.key := by
  obtain ⟨p, q, e, hw⟩ := h.of_mem hmem
  have hok : (putEntry ((kvObject Key Value).after p) args).2 = ⟨.ok⟩ :=
    (Reply.put.inj hw.2.1).symm
  have hv : args.version < ((kvObject Key Value).after
      (p ++ [.exec c i (.put args) (.put ⟨.ok⟩)])).version args.key := by
    rw [(kvObject Key Value).after_exec]
    exact Nat.lt_of_lt_of_eq (Nat.lt_succ_self _) (version_putEntry_ok (by rw [hok])).symm
  have := (kvObject Key Value).after_inv (P := fun m => args.version < m.version args.key)
    (fun m req hm => version_lt_kvStep m req hm) hv q
  rw [List.append_assoc, List.singleton_append, ← e] at this
  exact this

/-- No two RPCs of a call take effect. -/
theorem effect_unique (hi : TookEffect hist c i) (hj : TookEffect hist c j) : i = j := by
  obtain ⟨args, hi⟩ := hi
  obtain ⟨args', hj⟩ := hj
  cases Once.op_unique (h.imp fun _ _ => Loose.once) hi hj
  -- an execution after one that took effect is not answered `OK`
  have key : ∀ {pre i j}, Loose (kvObject Key Value) Honest pre (.exec c i (.put args)
      (.put ⟨.ok⟩)) → Justified (Loose (kvObject Key Value) Honest) pre →
      .exec c j (.put args) (.put ⟨.ok⟩) ∉ pre := by
    intro pre i j hw hpre hmem
    have hres : Reply.put ⟨.ok⟩ = Reply.put (putEntry ((kvObject Key Value).after pre) args).2 :=
      hw.2.1
    rw [putEntry_passed (passed_of_ok hpre hmem)] at hres
    cases hres
  obtain ⟨p, q, e, hw⟩ := h.of_mem hi
  rw [e] at h hj
  rcases List.mem_append.mp hj with hp | hq
  · exact absurd hp (key hw h.of_append)
  · rcases List.mem_cons.mp hq with he | hq
    · cases he
      rfl
    · obtain ⟨q1, q2, rfl⟩ := List.append_of_mem hq
      have hsplit : p ++ .exec c i (.put args) (.put ⟨.ok⟩) :: (q1 ++
          .exec c j (.put args) (.put ⟨.ok⟩) :: q2) =
          (p ++ .exec c i (.put args) (.put ⟨.ok⟩) :: q1) ++
            .exec c j (.put args) (.put ⟨.ok⟩) :: q2 := by simp
      rw [hsplit] at h
      exact absurd (List.mem_append_right _ List.mem_cons_self)
        (key (h _ _ _ rfl) h.of_append (j := i))

/-- A call whose answer is one of `Get` is a `Get`. -/
theorem get_of_answer {reply : GetReply Value} (hmem : .exec c i op (.get reply) ∈ hist) :
    ∃ gargs, op = .get gargs := by
  obtain ⟨p, q, e, hw⟩ := h.of_mem hmem
  have hres : Reply.get reply = (kvStep ((kvObject Key Value).after p) op).2 := hw.2.1
  cases op with
  | get gargs => exact ⟨gargs, rfl⟩
  | put args => cases hres

/-- The execution that a `Get` has returned. -/
theorem exec_of_get {reply : GetReply Value} (hret : .ret c i (.get reply) ∈ hist) :
    ∃ gargs reply', .exec c i (.get gargs) (.get reply') ∈ hist := by
  obtain ⟨p, q, e, ⟨op, res, hexec, resend, hout⟩, _⟩ := h.of_mem hret
  have hmem : .exec c i op res ∈ hist := by
    rw [e]
    exact List.mem_append_left _ hexec
  cases res with
  | get reply' =>
      obtain ⟨gargs, rfl⟩ := get_of_answer h hmem
      exact ⟨gargs, reply', hmem⟩
  | put reply' => cases hout

/-- At most one execution counts. -/
theorem settles_unique (hi : Settles hist c i) (hj : Settles hist c j) : i = j := by
  -- a `Put` that took effect is no `Get`
  have mixed : ∀ {i j}, TookEffect hist c i → ∀ reply, .ret c j (.get reply) ∉ hist := by
    intro i j hi reply hj
    obtain ⟨args, hi⟩ := hi
    obtain ⟨gargs, reply', hj⟩ := exec_of_get h hj
    cases Once.op_unique (h.imp fun _ _ => Loose.once) hi hj
  rcases hi with hi | ⟨reply, hi⟩
  · rcases hj with hj | ⟨reply, hj⟩
    · exact effect_unique h hi hj
    · exact absurd hj (mixed hi reply)
  · rcases hj with hj | ⟨reply', hj⟩
    · exact absurd hi (mixed hj reply)
    · exact Once.ret_unique (h.imp fun _ _ => Loose.once) hi hj

/-! ## 3. The result -/

/-- **What is settled is linearizable**, whatever the order in which RPCs are executed. -/
theorem settled_linearizable : ∃ lin state, LinearizesBy MapSpec (settled (visible hist)) lin state ∧
    state 0 = Table.empty ∧ state lin.length = (kvObject Key Value).after hist := by
  have hafter : ∀ l : List (Ev (Req Key Value) (Reply Value) (Reply Value)),
      (kvObject Key Value).after (l.filter isSettled) = (kvObject Key Value).after l :=
    (kvObject Key Value).after_filter fun _ _ _ _ => rfl
  have hpick : Justified (Picked (kvObject Key Value) MapSpec (Settles hist))
      (hist.filter isSettled) := by
    refine h.filter fun pre e post heq hset hw => ?_
    cases e with
    | call c op => exact fun op' hmem => hw op' (List.mem_filter.mp hmem).1
    | exec c i op res =>
        obtain ⟨hcall, hres, honce⟩ := hw
        refine ⟨List.mem_filter.mpr ⟨hcall, rfl⟩, fun hi j op' res' hj hmem => ?_, fun hno => ?_⟩
        · cases settles_unique h hi hj
          exact honce op' res' (List.mem_filter.mp hmem).1
        · rw [hafter]
          refine kvStep_fst_of_not_ok fun args hop hok => hno (.inl ⟨args, ?_⟩)
          have hres' : res = .put ⟨.ok⟩ := by
            rw [hres, hop, ← hok]
            rfl
          rw [heq, hop, hres']
          exact List.mem_append_right _ List.mem_cons_self
    | ret c i out =>
        obtain ⟨⟨op, res, hexec, resend, rfl⟩, _⟩ := hw
        have hpre : Justified (Loose (kvObject Key Value) Honest) pre := by
          rw [heq] at h
          exact h.of_append
        obtain ⟨p, q, rfl, hwi⟩ := hpre.of_mem hexec
        refine ⟨p.filter isSettled, q.filter isSettled, i, op, res, ?_, ?_, ?_⟩
        · rw [List.filter_append, List.filter_cons]
          rfl
        · cases res with
          | get reply =>
              refine .inr ⟨reply, ?_⟩
              rw [heq]
              exact List.mem_append_right _ List.mem_cons_self
          | put reply =>
              have hok : reply.err = .ok := putResult_ok (of_decide_eq_true hset)
              obtain ⟨err⟩ := reply
              cases hok
              cases op with
              | get => cases hwi.2.1
              | put args =>
                  refine .inl ⟨args, ?_⟩
                  rw [heq]
                  exact List.mem_append_left _ hexec
        · rw [hafter, hwi.2.1]
          exact mapSpec_clerkReply _ _ _
  obtain ⟨lin, state, hlin, h0, hlast⟩ := linearizesBy_picked
    (fun m req => ⟨_, mapSpec_clerkReply m req false⟩) hpick
  rw [visible_filter] at hlin
  exact ⟨lin, state, hlin, h0, hlast.trans (hafter hist)⟩

end Effects

/-! ## 4. Clerks in any order -/

section Clerks

variable {γ : Type}

/-- The server's table is what the settled history has made of it. -/
def SettledLinearizable
    (s : Retry.System γ (Table Key Value) (Req Key Value) (Reply Value) (Reply Value)) : Prop :=
  ∃ lin state, LinearizesBy MapSpec (settled (visible s.hist)) lin state ∧ state 0 = Table.empty ∧
    state lin.length = s.obj

theorem settledLinearizable_of_run
    {sv : Service γ (Table Key Value) (Req Key Value) (Reply Value) (Reply Value)}
    (hobj : sv.toObject = kvObject Key Value)
    (hreply : ∀ ck req resend res out, (sv.handle ck req resend (some res)).2 = some out →
      out = clerkReply resend res) {callers : ℕ → γ}
    {s : Retry.System γ (Table Key Value) (Req Key Value) (Reply Value) (Reply Value)}
    (h : Retry.System.Run sv (fun _ _ => True) (.init sv callers) s) : SettledLinearizable s := by
  obtain ⟨hs, hjust, _⟩ := Retry.loose_run h
  have hkv : Justified (Loose (kvObject Key Value) Honest) s.hist := by
    intro pre e post heq
    have hw := hjust pre e post heq
    rw [hobj] at hw
    cases e with
    | call | exec => exact hw
    | ret c i out =>
        obtain ⟨⟨op, res, hexec, ck, resend, hout⟩, honce⟩ := hw
        exact ⟨⟨op, res, hexec, resend, hreply _ _ _ _ _ hout⟩, honce⟩
  obtain ⟨lin, state, hlin, h0, hlast⟩ := settled_linearizable hkv
  refine ⟨lin, state, hlin, h0, ?_⟩
  rw [hlast, hs, ← hobj]

/-- **The clerks of both packages, with RPCs executed in any order.** -/
theorem clerks_any_order :
    (∀ (callers : ℕ → Unit) s, Retry.System.Run (Kvsrv1.service Key Value) (fun _ _ => True)
      (.init (Kvsrv1.service Key Value) callers) s → SettledLinearizable s) ∧
    ∀ (callers : ℕ → Clerk) s, Retry.System.Run (Kvraft1.service Key Value) (fun _ _ => True)
      (.init (Kvraft1.service Key Value) callers) s → SettledLinearizable s := by
  refine ⟨fun callers s h => ?_, fun callers s h => ?_⟩
  · refine settledLinearizable_of_run rfl (fun _ req resend res out hout => ?_) h
    cases res <;> cases hout <;> rfl
  · exact settledLinearizable_of_run rfl (fun _ _ _ _ _ hout => Clerk.handle_eq hout) h

/-- The first RPC of call 1 is delayed; the second one comes too early for its version, and the clerk
    returns `ErrMaybe`. Then another client brings the key to that version, and the first RPC takes
    effect. -/
def latePut : List (Retry.Action (Req ℕ ℕ)) :=
  [.call 0 (.put ⟨5, 70, 0⟩), .send 0, .execute 0 0, .answer 0, .call 1 (.put ⟨5, 71, 2⟩), .send 1,
    .fail 1, .send 1, .execute 1 1, .answer 1, .call 0 (.put ⟨5, 72, 1⟩), .send 2, .execute 2 0,
    .answer 2, .execute 1 0, .call 0 (.get ⟨5⟩), .send 3, .execute 3 0, .answer 3]

/-- What is settled of it: call 1 stays open. -/
def latePutSettled : List (Mark ℕ (Req ℕ ℕ) (Reply ℕ)) :=
  [.call 0 (.put ⟨5, 70, 0⟩), .ret 0 (.put ⟨.ok⟩), .call 1 (.put ⟨5, 71, 2⟩),
    .call 2 (.put ⟨5, 72, 1⟩), .ret 2 (.put ⟨.ok⟩), .call 3 (.get ⟨5⟩), .ret 3 (.get ⟨71, 3, .ok⟩)]

theorem clerks_any_order_sample :
    (∃ s : Retry.System Unit (Table ℕ ℕ) (Req ℕ ℕ) (Reply ℕ) (Reply ℕ),
      .ret 1 (.put ⟨.errMaybe⟩) ∈ visible s.hist ∧ settled (visible s.hist) = latePutSettled ∧
        SettledLinearizable s) ∧
    ∃ s : Retry.System Clerk (Table ℕ ℕ) (Req ℕ ℕ) (Reply ℕ) (Reply ℕ),
      .ret 1 (.put ⟨.errMaybe⟩) ∈ visible s.hist ∧ settled (visible s.hist) = latePutSettled ∧
        SettledLinearizable s := by
  have hplay1 : ((play (Retry.System.next (Kvsrv1.service ℕ ℕ))
      (Retry.System.init (Kvsrv1.service ℕ ℕ) fun _ => ()) latePut).map fun s =>
        (decide (.ret 1 (.put ⟨.errMaybe⟩) ∈ visible s.hist), settled (visible s.hist))) =
      some (true, latePutSettled) := by
    decide +kernel
  have hplay2 : ((play (Retry.System.next (Kvraft1.service ℕ ℕ))
      (Retry.System.init (Kvraft1.service ℕ ℕ) fun _ => ⟨3, 0⟩) latePut).map fun s =>
        (decide (.ret 1 (.put ⟨.errMaybe⟩) ∈ visible s.hist), settled (visible s.hist))) =
      some (true, latePutSettled) := by
    decide +kernel
  obtain ⟨s1, h1, hv1⟩ := Option.map_eq_some_iff.mp hplay1
  obtain ⟨s2, h2, hv2⟩ := Option.map_eq_some_iff.mp hplay2
  obtain ⟨hm1, hs1⟩ := Prod.mk.inj hv1
  obtain ⟨hm2, hs2⟩ := Prod.mk.inj hv2
  refine ⟨⟨s1, of_decide_eq_true hm1, hs1, clerks_any_order.1 (fun _ => ()) s1 ?_⟩,
    s2, of_decide_eq_true hm2, hs2, clerks_any_order.2 (fun _ => ⟨3, 0⟩) s2 ?_⟩
  · exact (play_run h1).lift id fun _ _ ⟨act, hact⟩ => ⟨act, trivial, hact⟩
  · exact (play_run h2).lift id fun _ _ ⟨act, hact⟩ => ⟨act, trivial, hact⟩

end Clerks

end RaftLab.Kvsrv1

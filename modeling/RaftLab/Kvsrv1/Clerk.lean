/-
  File:      RaftLab/Kvsrv1/Clerk.lean
  Subject:   `src/kvsrv1/client.go`: `Clerk.Get` and `Clerk.Put`, as callers that send again; and why
             the histories of such clerks are linearizable.

  `kvObject` is the server of `server.go` as an object: a table, `getEntry` and `putEntry`. `MapSpec`
  says what a client may conclude from an answer: `OK` is a `Put` that took effect, `ErrVersion` and
  `ErrNoKey` one that did not, `ErrMaybe` leaves it open.

  **`linearizable_of_inv`** holds for every clerk that returns the server's answer, with `ErrVersion`
  on a resend turned into `ErrMaybe`. A `Put` that took effect has moved the version on, and versions
  never fall: no other RPC of the same call takes effect, and a later one is answered `ErrVersion`.
-/
import RaftLab.Lib.Retry
import RaftLab.Kvsrv1.Server
import RaftLab.Kvraft1.Server

namespace RaftLab.Kvsrv1

open RaftLab.Lib RaftLab.Kvraft1

variable {Key Value : Type} [DecidableEq Key] [Inhabited Value]

/-! ## 1. The server and its clerk -/

def kvStep (m : Table Key Value) : Req Key Value → Table Key Value × Reply Value
  | .get args => (m, .get (getEntry m args))
  | .put args => ((putEntry m args).1, .put (putEntry m args).2)

def kvObject (Key Value : Type) [DecidableEq Key] [Inhabited Value] :
    Object (Table Key Value) (Req Key Value) (Reply Value) := ⟨.empty, kvStep⟩

namespace Clerk

/-- A round of the loop of `Get`: the RPC's answer, `none` where `ok` is false. `none` is another
    round. -/
def get (reply : Option (GetReply Value)) : Option (GetReply Value) :=
  match reply with
  | some reply => some reply
  | none => none

/-- The first RPC of `Put`, or a round of its loop. -/
def put (resend : Bool) (reply : Option PutReply) : Option Err :=
  match reply with
  | some reply => some (putResult resend reply)
  | none => none

/-- A clerk has no state; `KVServer` does not refuse an RPC. -/
def handle (req : Req Key Value) (resend : Bool) : Option (Reply Value) → Option (Reply Value)
  | some (.get reply) => (get (some reply)).map .get
  | some (.put reply) => (put resend (some reply)).map fun err => .put ⟨err⟩
  | none =>
      match req with
      | .get _ => (get none).map .get
      | .put _ => (put resend none).map fun err => .put ⟨err⟩

end Clerk

/-- `Clerk` and `KVServer` of this package. -/
def service (Key Value : Type) [DecidableEq Key] [Inhabited Value] :
    Service Unit (Table Key Value) (Req Key Value) (Reply Value) (Reply Value) where
  toObject := kvObject Key Value
  handle _ req resend reply := ((), Clerk.handle req resend reply)
  refusal _ := none
  handle_none _ req _ := by cases req <;> rfl
  handle_refusal _ _ _ _ h := by cases h

/-! ## 2. What an answer says -/

/-- A `Put` takes effect: it finds the version it names, 0 for an absent key, and leaves the next. -/
def Installs (m : Table Key Value) (args : PutArgs Key Value) (m' : Table Key Value) : Prop :=
  m.version args.key = args.version ∧
    m' = Function.update m args.key (some ⟨args.value, args.version + 1⟩)

/-- **The map the clients see**: what takes `m` to `m'` when a call returns `out`. -/
def MapSpec (m : Table Key Value) (req : Req Key Value) (out : Reply Value)
    (m' : Table Key Value) : Prop :=
  match req, out with
  | .get args, .get reply =>
      m' = m ∧ (∀ e, m args.key = some e → reply = ⟨e.value, e.version, .ok⟩) ∧
        (m args.key = none → reply.err = .errNoKey)
  | .put args, .put reply =>
      match reply.err with
      | .ok => Installs m args m'
      | .errVersion => m.version args.key ≠ args.version ∧ m' = m
      | .errNoKey => m args.key = none ∧ args.version ≠ 0 ∧ m' = m
      | .errMaybe => m' = m ∨ Installs m args m'
      | _ => False
  | _, _ => False

/-- What a clerk makes of the server's answer. -/
def clerkReply (resend : Bool) : Reply Value → Reply Value
  | .get reply => .get reply
  | .put reply => .put ⟨putResult resend reply⟩

omit [Inhabited Value] in
/-- The ways a `Put` goes. -/
theorem putEntry_cases (m : Table Key Value) (args : PutArgs Key Value) :
    ((putEntry m args).2 = ⟨.ok⟩ ∧ Installs m args (putEntry m args).1) ∨
    ((putEntry m args).2 = ⟨.errVersion⟩ ∧ m.version args.key ≠ args.version ∧
      (putEntry m args).1 = m) ∨
    ((putEntry m args).2 = ⟨.errNoKey⟩ ∧ m args.key = none ∧ args.version ≠ 0 ∧
      (putEntry m args).1 = m) := by
  cases hm : m args.key with
  | some e =>
      by_cases hv : args.version = e.version
      · have hok : (putEntry m args).2 = ⟨.ok⟩ := by simp [putEntry, hm, hv]
        exact .inl ⟨hok, putEntry_ok (by rw [hok])⟩
      · refine .inr (.inl ⟨by simp [putEntry, hm, hv], ?_, by simp [putEntry, hm, hv]⟩)
        rw [Table.version, hm]
        exact fun e' => hv e'.symm
  | none =>
      by_cases hv : args.version = 0
      · have hok : (putEntry m args).2 = ⟨.ok⟩ := by simp [putEntry, hm, hv]
        exact .inl ⟨hok, putEntry_ok (by rw [hok])⟩
      · exact .inr (.inr ⟨by simp [putEntry, hm, hv], rfl, hv, by simp [putEntry, hm, hv]⟩)

/-- What the clerk returns for an RPC is right about that RPC. -/
theorem mapSpec_clerkReply (m : Table Key Value) (req : Req Key Value) (resend : Bool) :
    MapSpec m req (clerkReply resend (kvStep m req).2) (kvStep m req).1 := by
  cases req with
  | get args =>
      refine ⟨rfl, fun e he => ?_, fun hnone => ?_⟩
      · simp [getEntry, he]
      · simp [getEntry, hnone]
  | put args =>
      rcases putEntry_cases m args with ⟨hr, h⟩ | ⟨hr, hv, hm⟩ | ⟨hr, hnone, hv, hm⟩
      · simp only [MapSpec, kvStep, clerkReply, hr, putResult, reduceCtorEq, and_false, if_false]
        exact h
      · cases resend with
        | true =>
            simp only [MapSpec, kvStep, clerkReply, hr, putResult, and_self, if_true]
            exact .inl hm
        | false =>
            simp only [MapSpec, kvStep, clerkReply, hr, putResult, Bool.false_eq_true, false_and,
              if_false]
            exact ⟨hv, hm⟩
      · simp only [MapSpec, kvStep, clerkReply, hr, putResult, reduceCtorEq, and_false, if_false]
        exact ⟨hnone, hv, hm⟩

omit [Inhabited Value] in
/-- A `Put` answered `OK` may be reported as `ErrMaybe`. -/
theorem mapSpec_errMaybe {m : Table Key Value} {args : PutArgs Key Value}
    (h : (putEntry m args).2 = ⟨.ok⟩) :
    MapSpec m (.put args) (.put ⟨.errMaybe⟩) (putEntry m args).1 :=
  .inr (putEntry_ok (by rw [h]))

/-- An operation that is not a `Put` answered `OK` changes nothing. -/
theorem kvStep_fst_of_not_ok {m : Table Key Value} {req : Req Key Value}
    (h : ∀ args, req = .put args → (putEntry m args).2 ≠ ⟨.ok⟩) : (kvStep m req).1 = m := by
  cases req with
  | get args => rfl
  | put args =>
      refine putEntry_of_not_ok fun he => h args rfl ?_
      rcases putEntry_cases m args with ⟨hr, _⟩ | ⟨hr, _⟩ | ⟨hr, _⟩
      · exact hr
      · rw [hr] at he
        cases he
      · rw [hr] at he
        cases he

/-- A version that has been passed stays passed. -/
theorem version_lt_kvStep {key : Key} {v : ℕ} (m : Table Key Value) (req : Req Key Value)
    (h : v < m.version key) : v < (kvStep m req).1.version key := by
  cases req with
  | get args => exact h
  | put args => exact Nat.lt_of_lt_of_le h (version_le_putEntry m args key)

omit [Inhabited Value] in
/-- A `Put` that names a version that has been passed is answered `ErrVersion`. -/
theorem putEntry_passed {m : Table Key Value} {args : PutArgs Key Value}
    (h : args.version < m.version args.key) : (putEntry m args).2 = ⟨.errVersion⟩ := by
  rcases putEntry_cases m args with ⟨_, hi⟩ | ⟨hr, _⟩ | ⟨_, hnone, _⟩
  · exact absurd hi.1 (Nat.ne_of_gt h)
  · exact hr
  · rw [Table.version, hnone] at h
    exact absurd h (Nat.not_lt_zero _)

/-! ## 3. Histories -/

section Histories

variable {γ : Type} {sv : Service γ (Table Key Value) (Req Key Value) (Reply Value) (Reply Value)}
  {hist : List (Ev (Req Key Value) (Reply Value) (Reply Value))}

/-- RPC `i` of call `c` was a `Put` that took effect. -/
def TookEffect (hist : List (Ev (Req Key Value) (Reply Value) (Reply Value))) (c i : ℕ) : Prop :=
  ∃ args, .exec c i (.put args) (.put ⟨.ok⟩) ∈ hist

/-- The execution that counts for a call: the one that took effect, or the one whose answer the
    clerk returned if there is none. -/
def Counts (hist : List (Ev (Req Key Value) (Reply Value) (Reply Value))) (c i : ℕ) : Prop :=
  TookEffect hist c i ∨ (∃ out, .ret c i out ∈ hist) ∧ ∀ j, ¬ TookEffect hist c j

theorem step_eq (hobj : sv.toObject = kvObject Key Value) (m : Table Key Value)
    (req : Req Key Value) : sv.step m req = kvStep m req := by
  rw [hobj]
  rfl

/-- **After an RPC that took effect the other RPCs of the call are answered `ErrVersion`.** -/
theorem errVersion_after_ok (hobj : sv.toObject = kvObject Key Value)
    {pre : List (Ev (Req Key Value) (Reply Value) (Reply Value))}
    (h : Justified (Retry.Warranted sv) pre) {c i : ℕ} {args : PutArgs Key Value}
    (hmem : .exec c i (.put args) (.put ⟨.ok⟩) ∈ pre) :
    (kvStep (sv.after pre) (.put args)).2 = .put ⟨.errVersion⟩ := by
  obtain ⟨p, q, e, hw⟩ := h.of_mem hmem
  have hstep := step_eq hobj
  have hok : (putEntry (sv.after p) args).2 = ⟨.ok⟩ := by
    have := hw.2.1
    rw [hstep] at this
    exact (Reply.put.inj this).symm
  have hv : args.version < (sv.after (p ++ [.exec c i (.put args) (.put ⟨.ok⟩)])).version
      args.key := by
    rw [sv.after_exec, hstep]
    exact Nat.lt_of_lt_of_eq (Nat.lt_succ_self _) (version_putEntry_ok (by rw [hok])).symm
  have hlast : args.version < (sv.after pre).version args.key := by
    have := sv.after_inv (P := fun m => args.version < m.version args.key)
      (fun m req hm => by rw [hstep]; exact version_lt_kvStep m req hm) hv q
    rw [List.append_assoc, List.singleton_append, ← e] at this
    exact this
  show Reply.put (putEntry (sv.after pre) args).2 = _
  rw [putEntry_passed hlast]

theorem tookEffect_unique (hobj : sv.toObject = kvObject Key Value)
    (h : Justified (Retry.Warranted sv) hist) {c i j : ℕ} (hi : TookEffect hist c i)
    (hj : TookEffect hist c j) : i = j := by
  -- the later one of two would have been answered `ErrVersion`
  have key : ∀ {i j}, TookEffect hist c i → TookEffect hist c j → ¬ j < i := by
    intro i j hi hj hlt
    obtain ⟨args, hi⟩ := hi
    obtain ⟨args', hj⟩ := hj
    cases Once.op_unique (h.imp fun _ _ => Retry.Warranted.once) hi hj
    obtain ⟨p, q, e, hmem⟩ := Retry.exec_before h hj hi hlt
    have hw := (h p _ q e).2.1
    rw [e] at h
    have hres := errVersion_after_ok hobj h.of_append hmem
    rw [step_eq hobj] at hw
    cases hw.trans hres
  exact Nat.le_antisymm (Nat.le_of_not_lt (key hi hj)) (Nat.le_of_not_lt (key hj hi))

/-- **What the clients see is linearizable by `MapSpec`**, from the empty table, and the server's
    table is what the linearized calls have made of it. -/
def Linearizable
    (s : Retry.System γ (Table Key Value) (Req Key Value) (Reply Value) (Reply Value)) : Prop :=
  ∃ lin state, LinearizesBy MapSpec (visible s.hist) lin state ∧ state 0 = Table.empty ∧
    state lin.length = s.obj

/-- **Clerks that report honestly have linearizable histories.** -/
theorem linearizable_of_inv (hobj : sv.toObject = kvObject Key Value)
    (hreply : ∀ ck req resend res out, (sv.handle ck req resend (some res)).2 = some out →
      out = clerkReply resend res)
    {s : Retry.System γ (Table Key Value) (Req Key Value) (Reply Value) (Reply Value)}
    (hinv : Retry.Inv sv s) : Linearizable s := by
  have h := hinv.just
  have hstep := step_eq hobj
  have hpick : Justified (Picked sv.toObject MapSpec (Counts s.hist)) s.hist := by
    intro pre e post heq
    have hw := h pre e post heq
    cases e with
    | call c op => exact hw
    | exec c i op res =>
        have hmem : .exec c i op res ∈ s.hist := by rw [heq]; simp
        refine ⟨hw.1, fun hci j op' res' hcj hj => ?_, fun hci => ?_⟩
        · have hlt := hw.2.2.1 j op' res' hj
          rcases hci with hi | ⟨⟨out, hi⟩, hno⟩
          · rcases hcj with hj | ⟨_, hno⟩
            · exact Nat.ne_of_gt hlt (tookEffect_unique hobj h hi hj)
            · exact hno i hi
          · rcases hcj with hj | ⟨⟨out', hj⟩, _⟩
            · exact hno j hj
            · exact Nat.ne_of_gt hlt
                (Once.ret_unique (h.imp fun _ _ => Retry.Warranted.once) hi hj)
        · rw [hstep]
          refine kvStep_fst_of_not_ok fun args hop hok => hci (.inl ⟨args, ?_⟩)
          have hres : res = .put ⟨.ok⟩ := by
            rw [hw.2.1, hop, hstep, ← hok]
            rfl
          rw [← hop, ← hres]
          exact hmem
    | ret c i out =>
        obtain ⟨⟨op, res, ck, hexec, hout⟩, _, hle⟩ := hw
        have hpre : Justified (Retry.Warranted sv) pre := by
          rw [heq] at h
          exact h.of_append
        have hout' := hreply _ _ _ _ _ hout
        by_cases he : ∃ j, TookEffect s.hist c j
        · -- the RPC that took effect counts, whatever the last one was answered
          obtain ⟨j, args, hj⟩ := he
          have hjpre := Retry.exec_before_ret h heq hj
          obtain ⟨p, q, e, hwj⟩ := hpre.of_mem hjpre
          refine ⟨p, q, j, _, _, e, .inl ⟨args, hj⟩, ?_⟩
          have hok : (kvStep (sv.after p) (.put args)).2 = .put ⟨.ok⟩ := by
            rw [← hstep]
            exact hwj.2.1.symm
          rw [hstep]
          rcases Nat.eq_or_lt_of_le (hle j _ _ hjpre) with hji | hji
          · subst hji
            obtain ⟨rfl, rfl⟩ := Retry.exec_unique hpre hexec hjpre
            rw [hout', ← hok]
            exact mapSpec_clerkReply _ _ _
          · cases Once.op_unique (hpre.imp fun _ _ => Retry.Warranted.once) hexec hjpre
            obtain ⟨p', q', e', hmem⟩ := Retry.exec_before hpre hjpre hexec hji
            have hwi := hpre p' _ q' e'
            rw [e'] at hpre
            have hres : res = .put ⟨.errVersion⟩ := by
              rw [hwi.2.1, hstep]
              exact errVersion_after_ok hobj hpre.of_append hmem
            have hmaybe : out = .put ⟨.errMaybe⟩ := by
              rw [hout', hres, decide_eq_true (Nat.lt_of_le_of_lt (Nat.zero_le j) hji)]
              rfl
            rw [hmaybe]
            exact mapSpec_errMaybe (Reply.put.inj hok)
        · -- no RPC took effect; the last one counts
          obtain ⟨p, q, e, hwi⟩ := hpre.of_mem hexec
          have hret : .ret c i out ∈ s.hist := by rw [heq]; simp
          refine ⟨p, q, i, op, res, e, .inr ⟨⟨out, hret⟩, fun j hj => he ⟨j, hj⟩⟩, ?_⟩
          rw [hout', hwi.2.1, hstep]
          exact mapSpec_clerkReply _ _ _
  obtain ⟨lin, state, hlin, h0, hlast⟩ := linearizesBy_picked (fun m req =>
    ⟨_, by rw [hstep]; exact mapSpec_clerkReply m req false⟩) hpick
  refine ⟨lin, state, hlin, ?_, ?_⟩
  · rw [h0, hobj]
    rfl
  · rw [hlast, ← hinv.obj]

end Histories

end RaftLab.Kvsrv1

/-
  File:      RaftLab/Shardkv1/ControlSafety.lean
  Subject:   The sharded service with its controllers is linearizable (Control.lean).

  FleetSafety.lean needs controllers that keep to a plan: one configuration for each number, and a
  migration begun only from one configuration to the next, when one to the former has ended. The
  controllers of the code share two registers and know no plan. What they store is one configuration
  for each number (`exists_plan`); a migration is called from a published configuration to the one
  after it; and what is published has been migrated to, by a run of `migrate` that is still there, at
  its end (`Inv`). So their runs keep to the plan that the registers end up with:
  **`keeps_to_plan`**.

  **`sharded_linearizable`**: what the clients see of the whole is linearizable, in every run in which
  no `InitController` finds a number in `next` two above its `cfg`. Without this condition it migrates
  past a configuration (`Shardctrler.skipped_configuration`).
-/
import RaftLab.Shardkv1.Control
import RaftLab.Shardkv1.FleetSafety

namespace RaftLab.Shardkv1.Shardctrler

open RaftLab.Lib RaftLab.Kvsrv1

/-! ## 1. The calls of `migrate` -/

section Calls

variable {s s' : System} {n n' : Net} {cur new : ShardConfig} {c : ℕ}

theorem mem_of_migrated_exec {args : PutArgs Key ShardConfig}
    (h : .migrated cur new ∈ (s.exec args).1.hist) : .migrated cur new ∈ s.hist := by
  simp only [System.exec] at h
  split at h
  · exact (List.mem_append.mp h).resolve_right (by simp)
  · exact h

/-- Only a controller that goes on comes to `migrate`. -/
theorem next_migrate {act : Net.Action} (hn : n.next act = some n')
    (hc : n'.sys.ctrl[c]? = some (.migrate cur new)) :
    n.sys.ctrl[c]? = some (.migrate cur new) ∨ act = .act (.step c) := by
  cases act with
  | arrive i =>
      obtain ⟨args, _, rfl⟩ := Option.map_eq_some_iff.mp hn
      rw [(exec_hist n.sys args).2] at hc
      exact .inl hc
  | act act =>
      obtain ⟨s, hs, rfl⟩ := Option.map_eq_some_iff.mp hn
      generalize hctrl : s.ctrl = ctrl at hc
      cases hctrl ▸ moved hs with
      | same => exact .inl hc
      | joins hpc =>
          refine .inl ((Fleet.getElem?_concat_iff.mp hc).resolve_right fun e => ?_)
          rw [e.2] at hpc
          rcases hpc with e | ⟨_, e⟩
          · cases e
          · cases e
      | @goes d =>
          by_cases hd : d = c
          · exact .inr (by rw [hd])
          · rw [List.getElem?_set_ne hd] at hc
            exact .inl hc
      | @resends d _ pc args hpc hput =>
          by_cases hd : d = c
          · subst hd
            -- in `migrate` no `Put` is sent
            rw [List.getElem?_set_self (List.getElem?_eq_some_iff.mp hpc).1] at hc
            cases pc <;> cases hput <;> cases hc
          · rw [List.getElem?_set_ne hd] at hc
            exact .inl hc

/-- Only a controller that goes on from `migrate` records its end. -/
theorem next_migrated {act : Net.Action} (hn : n.next act = some n')
    (hm : .migrated cur new ∈ n'.sys.hist) : .migrated cur new ∈ n.sys.hist ∨
      ∃ c, act = .act (.step c) ∧ n.sys.ctrl[c]? = some (.migrate cur new) := by
  cases act with
  | arrive i =>
      obtain ⟨args, _, rfl⟩ := Option.map_eq_some_iff.mp hn
      exact .inl (mem_of_migrated_exec hm)
  | act act =>
      obtain ⟨s, hs, rfl⟩ := Option.map_eq_some_iff.mp hn
      cases act with
      | query =>
          obtain ⟨cfg, _, rfl⟩ := Option.map_eq_some_iff.mp hs
          exact .inl ((List.mem_append.mp hm).resolve_right (by simp))
      | initController =>
          cases hs
          exact .inl hm
      | changeConfigTo cfg change =>
          simp only [System.next] at hs
          split at hs
          · obtain ⟨x, _, rfl⟩ := Option.map_eq_some_iff.mp hs
            exact .inl hm
          · cases hs
      | step d =>
          obtain ⟨pc, hpc, ht⟩ := Option.bind_eq_some_iff.mp hs
          cases turned ht with
          | seedCfg | seedNext | unsure | publish => exact .inl (mem_of_migrated_exec hm)
          | look | giveUp => exact .inl hm
          | recover | found | late | propose =>
              exact .inl ((List.mem_append.mp hm).resolve_right (by simp))
          | won =>
              exact .inl (mem_of_migrated_exec ((List.mem_append.mp hm).resolve_right (by simp)))
          | migrated =>
              rcases List.mem_append.mp hm with hm | hm
              · exact .inl hm
              · cases List.mem_singleton.mp hm
                exact .inr ⟨d, rfl, hpc⟩
      | lose d executed =>
          obtain ⟨pc, _, ht⟩ := Option.bind_eq_some_iff.mp hs
          obtain ⟨args, _, ht⟩ := Option.bind_eq_some_iff.mp ht
          cases ht
          cases executed with
          | true => exact .inl (mem_of_migrated_exec hm)
          | false => exact .inl hm

end Calls

/-! ## 2. The plan -/

/-- The configurations that were stored are those of the plan. -/
def Covers (plan : Plan) (hist : List Ev) : Prop :=
  ∀ key c, .stored key c ∈ hist → plan.cfg c.num = c

theorem Covers.of_next {plan : Plan} {n n' : Net} {act : Net.Action} (h : Covers plan n'.sys.hist)
    (hn : n.next act = some n') : Covers plan n.sys.hist :=
  fun key c hc => h key c ((Net.hist_next hn).subset hc)

/-- **What the registers have held is a plan.** -/
theorem exists_plan {first : ShardConfig} {kv : Registers} {hist : List Ev}
    (h : Regs first kv hist) (hfirst : ∀ sh, first.shards sh = gid1) :
    ∃ plan : Plan, Covers plan hist := by
  classical
  -- a number that was not stored gives every shard to `gid1`
  let cfg (N : ℕ) : ShardConfig :=
    if hN : ∃ c key, .stored key c ∈ hist ∧ c.num = N then hN.choose else ⟨N, fun _ => gid1, []⟩
  have hcfg : ∀ N, (∃ key, .stored key (cfg N) ∈ hist ∧ (cfg N).num = N) ∨
      cfg N = ⟨N, fun _ => gid1, []⟩ := by
    intro N
    by_cases hN : ∃ c key, .stored key c ∈ hist ∧ c.num = N
    · left
      have hcfgN : cfg N = hN.choose := dif_pos hN
      rw [hcfgN]
      exact hN.choose_spec
    · exact .inr (dif_neg hN)
  refine ⟨⟨cfg, fun N => ?_, fun sh => ?_⟩, fun key c hc => ?_⟩
  · rcases hcfg N with ⟨_, _, hnum⟩ | hdef
    · exact hnum
    · rw [hdef]
  · rcases hcfg 1 with ⟨key, hmem, hnum⟩ | hdef
    · have hat := (h.at_num hmem).2.2
      rw [hnum] at hat
      rw [h.head key _ hat]
      exact hfirst sh
    · rw [hdef]
  · have hN : ∃ c' key', .stored key' c' ∈ hist ∧ c'.num = c.num := ⟨c, key, hc, rfl⟩
    have hcfgN : cfg c.num = hN.choose := dif_pos hN
    obtain ⟨key', hmem, hnum⟩ := hN.choose_spec
    exact hcfgN.trans (h.eq_of_num hmem hc hnum)

end RaftLab.Shardkv1.Shardctrler

namespace RaftLab.Shardkv1.Fleet

open RaftLab.Raft1 (Bytes Config)

variable {Value : Type} {u u' : Users Value}

/-! ## 3. The runs of `migrate` -/

/-- The runs of `migrate` stay, with their configurations; those that have ended are at their end. -/
def Kept (u u' : Users Value) : Prop :=
  ∀ (i : ℕ) x, u.ctrl[i]? = some x →
    ∃ pc, u'.ctrl[i]? = some { x with pc := pc } ∧ (x.pc = .loop [] → pc = .loop [])

theorem kept_of_eq (h : u'.ctrl = u.ctrl) : Kept u u' := by
  intro i x hx
  exact ⟨x.pc, h ▸ hx, id⟩

theorem Kept.mem_ended (h : Kept u u') {cur new : ShardConfig}
    (hx : ⟨cur, new, .loop []⟩ ∈ u.ctrl) : ⟨cur, new, .loop []⟩ ∈ u'.ctrl := by
  obtain ⟨i, hi⟩ := List.getElem?_of_mem hx
  obtain ⟨pc, hi', hpc⟩ := h i _ hi
  cases hpc rfl
  exact List.mem_of_getElem? hi'

theorem turn_ctrl {c : ℕ} {x : Job} {reply : Option (ℕ × Reply Value)}
    (h : u.turn c x reply = some u') :
    x.pc ≠ .loop [] ∧ ∃ pc, u'.ctrl = u.ctrl.set c { x with pc := pc } := by
  obtain ⟨cur, new, pc⟩ := x
  simp only [Users.turn] at h
  split at h
  next =>
    refine ⟨fun e => (by cases e), ?_⟩
    split at h
    · cases h
      exact ⟨_, rfl⟩
    · cases h
      exact ⟨_, rfl⟩
  next =>
    refine ⟨fun e => (by cases e), ?_⟩
    split at h
    · cases h
      exact ⟨_, rfl⟩
    · cases h
  next =>
    refine ⟨fun e => (by cases e), ?_⟩
    split at h
    · cases h
      exact ⟨_, rfl⟩
    · cases h
  next =>
    refine ⟨fun e => (by cases e), ?_⟩
    split at h
    · cases h
      exact ⟨_, rfl⟩
    · cases h
  next => cases h

theorem kept_turn {c : ℕ} {x : Job} {reply : Option (ℕ × Reply Value)}
    (hx : u.ctrl[c]? = some x) (h : u.turn c x reply = some u') : Kept u u' := by
  obtain ⟨hne, pc, hctrl⟩ := turn_ctrl h
  intro i y hy
  rw [hctrl]
  by_cases hi : c = i
  · subst hi
    cases hx.symm.trans hy
    exact ⟨pc, List.getElem?_set_self (List.getElem?_eq_some_iff.mp hx).1, fun e => absurd e hne⟩
  · exact ⟨y.pc, by rw [List.getElem?_set_ne hi]; exact hy, id⟩

theorem kept_step {x : ℕ} {f : Call Value → Option (Call Value)} (h : u.step x f = some u') :
    Kept u u' := by
  obtain ⟨y, _, h⟩ := Option.bind_eq_some_iff.mp h
  obtain ⟨y', _, h⟩ := Option.bind_eq_some_iff.mp h
  cases h
  exact kept_of_eq rfl

theorem kept_own {a : Own Value} (h : u.own a = some u') : Kept u u' := by
  cases a with
  | begin cur new =>
      cases h
      intro i x hx
      exact ⟨x.pc, getElem?_concat_iff.mpr (.inl hx), id⟩
  | advance c =>
      obtain ⟨x, hx, h⟩ := Option.bind_eq_some_iff.mp h
      exact kept_turn hx h
  | call op cfg =>
      cases h
      exact kept_of_eq rfl
  | refresh | send | noAnswer => exact kept_step h

theorem kept_post {gob : Gob Value} {a : Sender} {g : Tgid} {cmd : Bytes} {users : ℕ → Users Value}
    (h : u.post gob a = some (g, cmd, users)) (k : ℕ) : Kept u (users k) := by
  cases a with
  | request i =>
      obtain ⟨x, _, h⟩ := Option.bind_eq_some_iff.mp h
      cases h
      exact kept_of_eq rfl
  | rpc x j =>
      obtain ⟨y, _, h⟩ := Option.bind_eq_some_iff.mp h
      obtain ⟨r, _, h⟩ := Option.bind_eq_some_iff.mp h
      split at h
      · cases h
        exact kept_of_eq rfl
      · cases h

variable [Inhabited Value]

theorem kept_take {g : Tgid} {k : ℕ} {res : Reply Value} {a : Taker}
    (h : u.take g k res a = some u') : Kept u u' := by
  cases a with
  | ctrl c =>
      obtain ⟨x, hx, h⟩ := Option.bind_eq_some_iff.mp h
      split at h
      next i _ =>
        obtain ⟨⟨_, req⟩, _, h⟩ := Option.bind_eq_some_iff.mp h
        obtain ⟨reply, _, h⟩ := Option.bind_eq_some_iff.mp h
        exact kept_turn hx h
      next => cases h
  | clerk x =>
      obtain ⟨y, _, h⟩ := Option.bind_eq_some_iff.mp h
      obtain ⟨r, _, h⟩ := Option.bind_eq_some_iff.mp h
      split at h
      next =>
        obtain ⟨reply, _, h⟩ := Option.bind_eq_some_iff.mp h
        obtain ⟨ans, _, h⟩ := Option.bind_eq_some_iff.mp h
        obtain ⟨⟨y', out⟩, _, h⟩ := Option.bind_eq_some_iff.mp h
        cases h
        exact kept_of_eq rfl
      next => cases h

/-- **No step of the fleet ends a run of `migrate` anywhere but at its end.** -/
theorem kept_next {NodeID : Type} [DecidableEq NodeID] {gob : Gob Value}
    {cfg : Tgid → Config NodeID} {s s' : System Value NodeID} {act : Action Value NodeID}
    (h : s.next gob cfg act = some s') : Kept s.users s'.users := by
  cases act with
  | own a =>
      obtain ⟨u, hu, rfl⟩ := Option.map_eq_some_iff.mp h
      exact kept_own hu
  | post a n =>
      obtain ⟨⟨g, cmd, users⟩, hp, h⟩ := Option.bind_eq_some_iff.mp h
      obtain ⟨grp, _, h⟩ := Option.bind_eq_some_iff.mp h
      cases h
      exact kept_post hp _
  | group g act =>
      simp only [System.next] at h
      split at h
      · obtain ⟨grp, _, h⟩ := Option.bind_eq_some_iff.mp h
        cases h
        exact kept_of_eq rfl
      · cases h
  | take a g k =>
      obtain ⟨res, _, h⟩ := Option.bind_eq_some_iff.mp h
      obtain ⟨u, hu, h⟩ := Option.bind_eq_some_iff.mp h
      cases h
      exact kept_take hu

end RaftLab.Shardkv1.Fleet

namespace RaftLab.Shardkv1.Control

open RaftLab.Lib RaftLab.Kvsrv1 Relation
open RaftLab.Raft1 (Bytes Config)
open RaftLab.Shardkv1.Fleet (Gob Op Kept kept_next)
open RaftLab.Shardkv1.Shardctrler (Covers)

variable {Value NodeID : Type} {first : ShardConfig} {s s' : System Value NodeID}

/-! ## 4. What a step can do -/

theorem called_iff {sys : Shardctrler.System} {act : Shardctrler.Net.Action} {c : ℕ}
    {cur new : ShardConfig} : called sys act = some (c, cur, new) ↔
      act = .act (.step c) ∧ sys.ctrl[c]? = some (.migrate cur new) := by
  constructor
  · intro h
    unfold called at h
    split at h
    next d =>
      split at h
      next cur' new' hd =>
        cases h
        exact ⟨rfl, hd⟩
      next => cases h
    next => cases h
  · rintro ⟨rfl, hc⟩
    simp only [called, hc]

variable [Inhabited Value] [DecidableEq NodeID] {gob : Gob Value} {cfg : Tgid → Config NodeID}
  {allowed : Req Value → Prop}

/-- The branches of `next` that are taken. -/
inductive Stepped (gob : Gob Value) (cfg : Tgid → Config NodeID) (s : System Value NodeID) :
    Action Value NodeID → System Value NodeID → Prop where
  | begins {act ctl fleet c cur new} (hret : s.returns act = true)
      (hctl : s.ctl.next act = some ctl) (hcall : called ctl.sys act = some (c, cur, new))
      (hfleet : s.fleet.next gob cfg (.own (.begin cur new)) = some fleet) :
      Stepped gob cfg s (.control act)
        ⟨ctl, fleet, Function.update s.job c s.fleet.users.ctrl.length⟩
  | quiet {act ctl} (hret : s.returns act = true) (hctl : s.ctl.next act = some ctl)
      (hcall : called ctl.sys act = none) : Stepped gob cfg s (.control act) { s with ctl := ctl }
  | call {op conf fleet} (hfleet : s.fleet.next gob cfg (.own (.call op conf)) = some fleet) :
      Stepped gob cfg s (.call op conf) { s with fleet := fleet }
  | refresh {x conf ctl fleet} (hctl : s.ctl.next (.act .query) = some ctl)
      (hfleet : s.fleet.next gob cfg (.own (.refresh x conf)) = some fleet) :
      Stepped gob cfg s (.refresh x) { s with ctl := ctl, fleet := fleet }
  | fleet {act fleet} (hinner : inner act = true) (hfleet : s.fleet.next gob cfg act = some fleet) :
      Stepped gob cfg s (.fleet act) { s with fleet := fleet }

/-- **What a step can do.** -/
theorem stepped {act : Action Value NodeID} (h : s.next gob cfg act = some s') :
    Stepped gob cfg s act s' := by
  cases act with
  | control act =>
      simp only [System.next] at h
      split at h
      next hret =>
        obtain ⟨ctl, hctl, h⟩ := Option.bind_eq_some_iff.mp h
        split at h
        next c cur new hcall =>
          obtain ⟨fleet, hfleet, h⟩ := Option.bind_eq_some_iff.mp h
          cases h
          exact .begins hret hctl hcall hfleet
        next hcall =>
          cases h
          exact .quiet hret hctl hcall
      next => cases h
  | call op conf =>
      simp only [System.next] at h
      split at h
      next =>
        obtain ⟨fleet, hfleet, h⟩ := Option.bind_eq_some_iff.mp h
        cases h
        exact .call hfleet
      next => cases h
  | refresh x =>
      obtain ⟨ctl, hctl, h⟩ := Option.bind_eq_some_iff.mp h
      obtain ⟨conf, _, h⟩ := Option.bind_eq_some_iff.mp h
      obtain ⟨fleet, hfleet, h⟩ := Option.bind_eq_some_iff.mp h
      cases h
      exact .refresh hctl hfleet
  | fleet act =>
      simp only [System.next] at h
      split at h
      next hinner =>
        obtain ⟨fleet, hfleet, h⟩ := Option.bind_eq_some_iff.mp h
        cases h
        exact .fleet hinner hfleet
      next => cases h

/-! ## 5. The invariant -/

/-- A controller in `migrate` has a run of it with its configurations, and a migration that has ended
    a run at its end. -/
structure Inv (first : ShardConfig) (s : System Value NodeID) : Prop where
  net : Shardctrler.NetInv first True s.ctl
  job : ∀ c cur new, s.ctl.sys.ctrl[c]? = some (.migrate cur new) →
    ∃ pc, s.fleet.users.ctrl[s.job c]? = some ⟨cur, new, pc⟩
  ended : ∀ cur new, .migrated cur new ∈ s.ctl.sys.hist →
    ⟨cur, new, .loop []⟩ ∈ s.fleet.users.ctrl

omit [DecidableEq NodeID] in
theorem inv_init (gob : Gob Value) (first : ShardConfig) :
    Inv first (.init gob first : System Value NodeID) where
  net := Shardctrler.netInv_init first
  job c cur new h := by
    cases c with
    | zero => cases h
    | succ c => cases h
  ended cur new h := by cases h

namespace Inv

omit [Inhabited Value] [DecidableEq NodeID] in
/-- A migration whose end is recorded in this step has ended in the fleet. -/
theorem mem_ended (h : Inv first s) {act : Shardctrler.Net.Action} {ctl : Shardctrler.Net}
    (hret : s.returns act = true) (hctl : s.ctl.next act = some ctl) {cur new : ShardConfig}
    (hm : .migrated cur new ∈ ctl.sys.hist) : ⟨cur, new, .loop []⟩ ∈ s.fleet.users.ctrl := by
  rcases Shardctrler.next_migrated hctl hm with hold | ⟨c, rfl, hc⟩
  · exact h.ended cur new hold
  · obtain ⟨pc, hjob⟩ := h.job c cur new hc
    simp only [System.returns, hc, hjob, Option.any_some, decide_eq_true_eq] at hret
    rw [hret] at hjob
    exact List.mem_of_getElem? hjob

/-- The fleet goes on. -/
theorem fleet (h : Inv first s) {fleet : Fleet.System Value NodeID} {act : Fleet.Action Value NodeID}
    (hfleet : s.fleet.next gob cfg act = some fleet) : Inv first { s with fleet := fleet } := by
  have hkept := kept_next hfleet
  refine ⟨h.net, fun c cur new hc => ?_, fun cur new hm => hkept.mem_ended (h.ended cur new hm)⟩
  obtain ⟨pc, hjob⟩ := h.job c cur new hc
  obtain ⟨pc', hjob', _⟩ := hkept _ _ hjob
  exact ⟨pc', hjob'⟩

omit [Inhabited Value] [DecidableEq NodeID] in
/-- The controllers go on, and none of them calls `migrate`. -/
theorem quiet (h : Inv first s) (h1 : first.num = 1) {act : Shardctrler.Net.Action}
    {ctl : Shardctrler.Net} (hskip : s.ctl.NoSkip act) (hret : s.returns act = true)
    (hctl : s.ctl.next act = some ctl) (hcall : called ctl.sys act = none) :
    Inv first { s with ctl := ctl } := by
  refine ⟨Shardctrler.netInv_next h1 h.net (fun _ => hskip) hctl, fun c cur new hc => ?_,
    fun cur new hm => h.mem_ended hret hctl hm⟩
  rcases Shardctrler.next_migrate hctl hc with hold | rfl
  · exact h.job c cur new hold
  · have := called_iff.mpr ⟨rfl, hc⟩
    rw [hcall] at this
    cases this

/-- A controller calls `migrate`. -/
theorem begins (h : Inv first s) (h1 : first.num = 1) {act : Shardctrler.Net.Action}
    {ctl : Shardctrler.Net} {fleet : Fleet.System Value NodeID} {c : ℕ} {cur new : ShardConfig}
    (hskip : s.ctl.NoSkip act) (hret : s.returns act = true) (hctl : s.ctl.next act = some ctl)
    (hcall : called ctl.sys act = some (c, cur, new))
    (hfleet : s.fleet.next gob cfg (.own (.begin cur new)) = some fleet) :
    Inv first ⟨ctl, fleet, Function.update s.job c s.fleet.users.ctrl.length⟩ := by
  have hkept := kept_next hfleet
  obtain ⟨rfl, hc⟩ := called_iff.mp hcall
  refine ⟨Shardctrler.netInv_next h1 h.net (fun _ => hskip) hctl, fun d cur' new' hd => ?_,
    fun cur' new' hm => hkept.mem_ended (h.mem_ended hret hctl hm)⟩
  dsimp only at hd ⊢
  by_cases e : d = c
  · subst e
    cases hc.symm.trans hd
    cases hfleet
    rw [Function.update_self]
    exact ⟨_, List.getElem?_concat_length⟩
  · rw [Function.update_of_ne e]
    rcases Shardctrler.next_migrate hctl hd with hold | e'
    · obtain ⟨pc, hjob⟩ := h.job d cur' new' hold
      obtain ⟨pc', hjob', _⟩ := hkept _ _ hjob
      exact ⟨pc', hjob'⟩
    · cases e'
      exact absurd rfl e

end Inv

/-- **One step.** -/
theorem inv_next (h : Inv first s) (h1 : first.num = 1) {act : Action Value NodeID}
    (hskip : s.NoSkip act) (hs : s.next gob cfg act = some s') : Inv first s' := by
  cases stepped hs with
  | begins hret hctl hcall hfleet => exact h.begins h1 hskip hret hctl hcall hfleet
  | quiet hret hctl hcall => exact h.quiet h1 hskip hret hctl hcall
  | call hfleet => exact h.fleet hfleet
  | fleet _ hfleet => exact h.fleet hfleet
  | refresh hctl hfleet =>
      have hskip : s.ctl.NoSkip (.act .query) := trivial
      exact (h.quiet h1 hskip rfl hctl rfl).fleet hfleet

/-! ## 6. The plan is kept to -/

omit [Inhabited Value] [DecidableEq NodeID] in
/-- **A call of `migrate` is one of the plan**: from a configuration to the one after it, when a run
    to the former has ended. -/
theorem Inv.governed (h : Inv first s) (h1 : first.num = 1) {act : Shardctrler.Net.Action}
    {ctl : Shardctrler.Net} {c : ℕ} {cur new : ShardConfig} (hskip : s.ctl.NoSkip act)
    (hret : s.returns act = true) (hctl : s.ctl.next act = some ctl)
    (hcall : called ctl.sys act = some (c, cur, new)) {plan : Plan}
    (hplan : Covers plan ctl.sys.hist) : s.fleet.users.Governed plan (.begin cur new) := by
  have hnet := Shardctrler.netInv_next h1 h.net (fun _ => hskip) hctl
  have hc := (hnet.sys.ctrl _ (List.mem_of_getElem? (called_iff.mp hcall).2)).1
  have hnum := hc.num trivial
  have hpos := (hnet.sys.regs.at_num hc.published).1
  have hcur : new.num - 1 = cur.num := by omega
  refine ⟨by omega, ⟨?_, (hplan _ _ hc.proposed).symm⟩, ?_⟩
  · rw [hcur]
    exact (hplan _ _ hc.published).symm
  · -- the former is the first one, or was published after a migration to it
    obtain ⟨pre, post, e, hw⟩ := hnet.sys.hist.of_mem hc.published
    rcases hw with rfl | ⟨cur₀, _, hm⟩
    · exact .inl (by omega)
    · right
      have hm' : .migrated cur₀ cur ∈ ctl.sys.hist := by
        rw [e]
        exact List.mem_append_left _ hm
      have hended := h.mem_ended hret hctl hm'
      rw [hcur]
      exact List.mem_map.mpr ⟨_, hended, rfl⟩

/-- **The controllers of the code keep to the plan that the registers end up with.** -/
theorem keeps_to_plan (h1 : first.num = 1) (h : s.Reachable gob cfg first allowed) :
    Inv first s ∧ ∀ plan, Covers plan s.ctl.sys.hist →
      s.fleet.Reachable plan gob cfg allowed := by
  induction h with
  | refl => exact ⟨inv_init gob first, fun _ _ => .refl⟩
  | @tail s s' _ hstep ih =>
      obtain ⟨hi, hreach⟩ := ih
      obtain ⟨act, hact, hskip, hs⟩ := hstep
      refine ⟨inv_next hi h1 hskip hs, fun plan hplan => ?_⟩
      cases stepped hs with
      | begins hret hctl hcall hfleet =>
          have hgov := hi.governed h1 hskip hret hctl hcall hplan
          exact (hreach plan (hplan.of_next hctl)).tail ⟨.own (.begin _ _), trivial, hgov, hfleet⟩
      | quiet _ hctl => exact hreach plan (hplan.of_next hctl)
      | call hfleet => exact (hreach plan hplan).tail ⟨.own (.call _ _), hact, trivial, hfleet⟩
      | refresh hctl hfleet =>
          exact (hreach plan (hplan.of_next hctl)).tail ⟨.own (.refresh _ _), trivial, trivial, hfleet⟩
      | @fleet fact _ hinner hfleet =>
          obtain ⟨hallowed, hgov⟩ : fact.Allowed allowed ∧ fact.Governed plan s.fleet.users := by
            cases fact with
            | own a =>
                cases a with
                | begin | call | refresh => cases hinner
                | advance | send | noAnswer => exact ⟨trivial, trivial⟩
            | post | group | take => exact ⟨trivial, trivial⟩
          exact (hreach plan hplan).tail ⟨_, hallowed, hgov, hfleet⟩

/-! ## 7. The result -/

/-- **The sharded service is linearizable**, with the controllers of the code, in every run in which
    no `InitController` finds a number in `next` two above the one it has read from `cfg`. Whatever
    shards move, controllers and servers die and RPCs are late: what the clients see is that of one
    map, if a `Put` that did not return `OK` is taken as open; every server is at a beginning of the
    log of its group, at most one group serves a shard, and it has what the map has there. -/
theorem sharded_linearizable (h1 : first.num = 1) (hfirst : ∀ sh, first.shards sh = gid1)
    (hc : Fleet.Closed allowed) (hgob : gob.Sound allowed)
    (h : s.Reachable gob cfg first allowed) :
    ∃ lin state log, LinearizesBy MapSpec (settled s.fleet.users.hist) lin state ∧
      state 0 = Table.empty ∧ Fleet.Serving s.fleet log (state lin.length) := by
  obtain ⟨hi, hreach⟩ := keeps_to_plan h1 h
  obtain ⟨plan, hplan⟩ := Shardctrler.exists_plan hi.net.sys.regs hfirst
  exact Fleet.fleet_linearizable hc hgob (hreach plan hplan)

/-! ### A `Put`, a controller that dies, a migration and a `Get` -/

section Sample

open RaftLab.Raft1 (Event)
open RaftLab.Shardkv1.Fleet (Answer sampleGob SampleReq closed_sampleReq sampleGob_sound)
open RaftLab.Shardkv1.Shardctrler (cfg1 cfg2)

/-- Actions that depend on the messages under way. -/
abbrev Script := List (System ℕ ℕ → Action ℕ ℕ)

def inGroup (g : Tgid) (act : Kvraft1.Service.Action ℕ Bytes) : System ℕ ℕ → Action ℕ ℕ :=
  fun _ => .fleet (.group g act)

def runOwn (g : Tgid) (n : ℕ) (ev : Event ℕ (Kvraft1.Rsm.Op Bytes)) : System ℕ ℕ → Action ℕ ℕ :=
  inGroup g (.run (.own n ev))

def deliverIn (g : Tgid) (n k : ℕ) (s : System ℕ ℕ) : Action ℕ ℕ :=
  .fleet (.group g (.run (.own n (match (s.fleet.grp g).cluster.net[k]? with
    | some m => .deliver m
    | none => .tickerArm))))

def replyIn (g : Tgid) (n k : ℕ) (s : System ℕ ℕ) : Action ℕ ℕ :=
  .fleet (.group g (.run (.own n (match (s.fleet.grp g).cluster.replies[k]? with
    | some x => .reply k x.2
    | none => .tickerArm))))

/-- Server 0 of a group is elected. -/
def electIn (g : Tgid) : Script :=
  [runOwn g 0 .tickerArm, runOwn g 0 .tickerFire, deliverIn g 1 0, replyIn g 0 0]

/-- Submit `k` of a group, from its beginning to its end. -/
def submitIn (g : Tgid) (k : ℕ) : Script :=
  [inGroup g (.turn k (.getState true)), inGroup g (.run (.start k (11 + k))),
    inGroup g (.turn k .register), runOwn g 0 .heartbeat, deliverIn g 1 (2 * k + 2),
    replyIn g 0 (k + 1), runOwn g 0 .applyBatch, inGroup g (.run (.handle 0)),
    inGroup g (.notify 0), inGroup g (.skip 0), inGroup g (.turn k .receive)]

/-- Call `x` asks for the configuration, is sent to the owner there and returns. -/
def callIn (x : ℕ) (op : Op ℕ) (g : Tgid) (k : ℕ) : Script :=
  [fun _ => .call op none, fun _ => .refresh x, fun _ => .fleet (.own (.send x)),
    fun _ => .fleet (.post (.rpc x 0) 0)] ++ submitIn g k ++
  [fun _ => .fleet (.take (.clerk x) g k)]

/-- Request `i`, of run `c` of `migrate`. -/
def askIn (c i : ℕ) (g : Tgid) (k : ℕ) : Script :=
  [fun _ => .fleet (.post (.request i) 0)] ++ submitIn g k ++ [fun _ => .fleet (.take (.ctrl c) g k)]

def advances (c k : ℕ) : Script := List.replicate k fun _ => .fleet (.own (.advance c))

/-- The `j`-th shard moves from group 1 to group 2, where `j` have come before it. -/
def moveIn (c j : ℕ) : Script :=
  advances c 1 ++ askIn c (3 * j) 1 (2 * j + 1) ++ askIn c (3 * j + 1) 2 j ++
  askIn c (3 * j + 2) 1 (2 * j + 2)

def controls (acts : List Shardctrler.Action) : Script := acts.map fun act _ => .control (.act act)

/-- A `Put` at group 1, which has all shards. -/
def putFirst : Script :=
  controls [.step 0, .step 0] ++ electIn 1 ++ callIn 0 (.put ⟨[97], 7, 0⟩) 1 0

/-- Group 2 joins; the controller dies in `migrate`, and `InitController` calls it again. -/
def joinAndDie : Script :=
  controls [.query, .changeConfigTo cfg1 (.join [(2, [[50]])]), .step 1, .step 1, .initController,
    .step 2, .step 2]

/-- Half of the shards move; the configuration is published, and a `Get` goes to group 2. -/
def moveAndGet : Script :=
  electIn 2 ++ (List.range 6).flatMap (moveIn 1) ++ advances 1 6 ++ controls [.step 2, .step 2] ++
  callIn 1 (.get ⟨[97]⟩) 2 6

/-- What the clients see. -/
def putMoveGetHist : List (Mark ℕ (Op ℕ) (Answer ℕ)) :=
  [.call 0 (.put ⟨[97], 7, 0⟩), .ret 0 (.put ⟨.ok⟩), .call 1 (.get ⟨[97]⟩),
    .ret 1 (.get ⟨7, 1, .ok⟩)]

/-- The calls of the sample. -/
def sampleCall : Action ℕ ℕ → Bool
  | .call op _ => op = .get ⟨[97]⟩ ∨ op = .put ⟨[97], 7, 0⟩
  | _ => true

theorem allowed_of_sampleCall {act : Action ℕ ℕ} (h : sampleCall act = true) :
    act.Allowed SampleReq := by
  cases act with
  | call op cfg =>
      rcases of_decide_eq_true h with rfl | rfl
      · rfl
      · rfl
  | control | refresh | fleet => trivial

def playScript (acts : Script) : Option (System ℕ ℕ) :=
  play (guarded (fun s act => sampleCall (act s) = true ∧ s.NoSkip (act s))
    fun s act => System.next sampleGob (fun _ => Raft1.three) s (act s)) (.init sampleGob cfg1) acts

theorem reachable_of_playScript {acts : Script} {s : System ℕ ℕ} (h : playScript acts = some s) :
    s.Reachable sampleGob (fun _ => Raft1.three) cfg1 SampleReq :=
  (play_guarded_run h).lift id fun s _ ⟨act, ⟨hcall, hskip⟩, hs⟩ =>
    ⟨act s, allowed_of_sampleCall hcall, hskip, hs⟩

/-- The `Put` is acknowledged by group 1; two controllers have called `migrate`, and one has come to
    its end; then group 2 has the key, and answers the `Get`. -/
theorem sharded_linearizable_sample : ∃ s : System ℕ ℕ,
    s.Reachable sampleGob (fun _ => Raft1.three) cfg1 SampleReq ∧
      s.fleet.users.hist = putMoveGetHist ∧ s.fleet.users.ctrl.length = 2 ∧
      .migrated cfg1 cfg2 ∈ s.ctl.sys.hist ∧
      ((s.fleet.grp 1).rsms.rsm (0, 0)).sm.kvMap [97] = none ∧
      ((s.fleet.grp 2).rsms.rsm (0, 0)).sm.kvMap [97] = some ⟨7, 1⟩ ∧
      ∃ lin state log, LinearizesBy MapSpec (settled putMoveGetHist) lin state ∧
        state 0 = Table.empty ∧ Fleet.Serving s.fleet log (state lin.length) := by
  have hplay : ((playScript (putFirst ++ joinAndDie ++ moveAndGet)).map fun s => decide (
      s.fleet.users.hist = putMoveGetHist ∧ s.fleet.users.ctrl.length = 2 ∧
      .migrated cfg1 cfg2 ∈ s.ctl.sys.hist ∧
      ((s.fleet.grp 1).rsms.rsm (0, 0)).sm.kvMap [97] = none ∧
      ((s.fleet.grp 2).rsms.rsm (0, 0)).sm.kvMap [97] = some ⟨7, 1⟩)) = some true := by
    decide +kernel
  obtain ⟨s, hs, hread⟩ := Option.map_eq_some_iff.mp hplay
  obtain ⟨hhist, hjobs, hended, h1, h2⟩ := of_decide_eq_true hread
  have hreach := reachable_of_playScript hs
  refine ⟨s, hreach, hhist, hjobs, hended, h1, h2, ?_⟩
  rw [← hhist]
  exact sharded_linearizable (by decide +kernel) (by decide +kernel) closed_sampleReq sampleGob_sound
    hreach

end Sample

end RaftLab.Shardkv1.Control

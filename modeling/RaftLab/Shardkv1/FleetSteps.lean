/-
  File:      RaftLab/Shardkv1/FleetSteps.lean
  Subject:   The steps of the sharded service with atomic groups (FleetShadow.lean).

  `Turns`, `GoesOn` and `Posts` say what the controllers, the clerks and the network do; each step of
  Fleet.lean is taken apart once, and a lemma of the same name says that the shadow goes along.
  **`shadow_reachable`**: there is a shadow in every state that is reached.
-/
import RaftLab.Shardkv1.FleetShadow

namespace RaftLab.Shardkv1.Fleet

open RaftLab.Lib RaftLab.Kvsrv1 Relation
open RaftLab.Raft1 (Bytes)

variable {Value : Type} [Inhabited Value]

/-! ## 1. The controllers -/

/-- What a controller asks for when it has got an answer. -/
def Wanted (reply : Option (ℕ × Reply Value)) : Req Value → Prop
  | .freezeShard _ | .deleteShard _ => True
  | .installShard args => ∃ i r, reply = some (i, .freezeShard r) ∧ args.state = r.state
  | _ => False

/-- A controller goes on, here and in the world. -/
structure Turns (plan : Plan) (reply : Option (ℕ × Reply Value)) (u u' : Users Value)
    (w w' : World Value) : Prop where
  grp : w'.grp = w.grp
  replies : w'.replies = w.replies
  acked : w'.acked = w.acked
  ctrl : w'.ctrl = u'.ctrl.map Job.ctrl
  planned : ∀ x ∈ u'.ctrl, x.Follows plan
  net : w'.net = u'.net
  calls : u'.calls = u.calls
  senders : u'.senders = u.senders
  hist : u'.hist = u.hist
  asks : u'.net = u.net ∨ ∃ g req, u'.net = u.net ++ [(g, req)] ∧ Wanted reply req

section Controllers

variable {plan : Plan} {gob : Gob Value} {allowed : Req Value → Prop} {u u' : Users Value}
  {w w' : World Value} {a : Calm Value}
  {hist : List (Ev (Op Value) (Answer Value) (Answer Value))} {c r : ℕ}
  {reply : Option (ℕ × Reply Value)}

omit [Inhabited Value] in
/-- Controller `c` goes on with its configurations. -/
theorem Turns.ask (hctrl : w.ctrl = u.ctrl.map Job.ctrl) (hnet : w.net = u.net)
    (hplan : ∀ x ∈ u.ctrl, x.Follows plan) {x : Job} (hx : x.Follows plan) (c : ℕ) (g : Tgid)
    {req : Req Value} (hreq : Wanted reply req) (pc : ℕ → Shardkv1.Pc) :
    Turns plan reply u (u.ask c x g req pc) w (w.call c x.new.num g req pc) where
  grp := rfl
  replies := rfl
  acked := rfl
  ctrl := by
    rw [World.call, Users.ask, hctrl, hnet, List.map_set]
    rfl
  planned y hy := (List.mem_or_eq_of_mem_set hy).elim (hplan y) fun e => e ▸ ⟨hx.cur, hx.new⟩
  net := by rw [World.call, Users.ask, hnet]
  calls := rfl
  senders := rfl
  hist := rfl
  asks := .inr ⟨g, req, rfl, hreq⟩

omit [Inhabited Value] in
theorem Turns.setCtrl (hctrl : w.ctrl = u.ctrl.map Job.ctrl) (hnet : w.net = u.net)
    (hplan : ∀ x ∈ u.ctrl, x.Follows plan) (c : ℕ) {x : Job} (hx : x.Follows plan) :
    Turns plan reply u { u with ctrl := u.ctrl.set c x } w
      { w with ctrl := w.ctrl.set c x.ctrl } where
  grp := rfl
  replies := rfl
  acked := rfl
  ctrl := by rw [hctrl, List.map_set]
  planned y hy := (List.mem_or_eq_of_mem_set hy).elim (hplan y) fun e => e ▸ hx
  net := hnet
  calls := rfl
  senders := rfl
  hist := rfl
  asks := .inl rfl

omit [Inhabited Value] in
theorem Turns.begin (hctrl : w.ctrl = u.ctrl.map Job.ctrl) (hnet : w.net = u.net)
    (hplan : ∀ x ∈ u.ctrl, x.Follows plan) {x : Job} (hx : x.Follows plan) (top : ℕ) :
    Turns plan none u { u with ctrl := u.ctrl ++ [x] } w
      { w with ctrl := w.ctrl ++ [x.ctrl], top := top } where
  grp := rfl
  replies := rfl
  acked := rfl
  ctrl := by
    rw [hctrl, List.map_append]
    rfl
  planned y hy := (List.mem_append.mp hy).elim (hplan y) fun e => List.mem_singleton.mp e ▸ hx
  net := hnet
  calls := rfl
  senders := rfl
  hist := rfl
  asks := .inl rfl

omit [Inhabited Value] in
/-- A turn of a controller is one of the world, which has the same answer at place `r`. -/
theorem turn_world (hctrl : w.ctrl = u.ctrl.map Job.ctrl) (hnet : w.net = u.net)
    (hplan : ∀ x ∈ u.ctrl, x.Follows plan) {x : Job} (hx : x.Follows plan)
    (h : u.turn c x reply = some u') (hr : ∀ z, reply = some z → w.replies[r]? = some z) :
    ∃ w', w.turn plan c r x.ctrl = some w' ∧ Turns plan reply u u' w w' := by
  obtain ⟨cur, new, pc⟩ := x
  -- the world reads the configurations off the plan
  have hcur : ∀ sh, plan.own sh (new.num - 1) = cur.shards sh := fun sh => by
    rw [Plan.own, ← hx.cur]
  have hnew : ∀ sh, plan.own sh new.num = new.shards sh := fun sh => by
    rw [Plan.own, ← hx.new]
  have hnum : (plan.cfg new.num).num = new.num := plan.num _
  simp only [Users.turn] at h
  split at h
  next sh todo =>
    simp only [World.turn, Job.ctrl, hcur, hnew, hnum]
    split at h
    next hown =>
      cases h
      exact ⟨_, if_pos hown, .setCtrl hctrl hnet hplan _ ⟨hx.cur, hx.new⟩⟩
    next hown =>
      cases h
      refine ⟨_, if_neg hown, .ask hctrl hnet hplan hx _ _ ?_ _⟩
      trivial
  next i sh todo j reply =>
    simp only [World.turn, Job.ctrl, hr _ rfl, hnew, hnum]
    split at h
    next e =>
      cases h
      refine ⟨_, if_pos e, .ask hctrl hnet hplan hx _ _ ?_ _⟩
      exact ⟨_, _, rfl, rfl⟩
    next => cases h
  next i sh todo j _ =>
    simp only [World.turn, Job.ctrl, hr _ rfl, hcur, hnum]
    split at h
    next e =>
      cases h
      refine ⟨_, if_pos e, .ask hctrl hnet hplan hx _ _ ?_ _⟩
      trivial
    next => cases h
  next i _ todo j _ =>
    simp only [World.turn, Job.ctrl, hr _ rfl]
    split at h
    next e =>
      cases h
      exact ⟨_, if_pos e, .setCtrl hctrl hnet hplan _ ⟨hx.cur, hx.new⟩⟩
    next => cases h
  next => cases h

omit [Inhabited Value] in
theorem Turns.looks (h : Turns plan reply u u' w w') : Looks u u' := by
  refine looks_of_ctrl (fun i x hx => ?_) h.calls h.senders
  rcases h.asks with e | ⟨g, req, e, _⟩
  · rw [e]
    exact hx
  · rw [e]
    exact getElem?_concat_iff.mpr (.inl hx)

theorem Shadow.turn (h : Shadow plan gob allowed a w hist) (ht : Turns plan reply a.env u' w w')
    (hw : w'.Reachable plan) (hreq : ∀ req, Wanted reply req → allowed req) :
    Shadow plan gob allowed { a with env := u' } w' hist where
  reach := hw
  grp := ht.grp.trans h.grp
  ctrl := ht.ctrl
  planned := ht.planned
  net := ht.net
  logged := h.logged
  arrived := h.arrived.looks ht.looks
  allows :=
    { net := fun x hx => by
        dsimp only at hx
        rcases ht.asks with e | ⟨g, req, e, hwant⟩
        · rw [e] at hx
          exact h.allows.net x hx
        · rw [e] at hx
          rcases List.mem_append.mp hx with hx | hx
          · exact h.allows.net x hx
          · cases List.mem_singleton.mp hx
            exact hreq req hwant
      call := fun x op hop => by
        refine h.allows.call x op ?_
        unfold HasOp at hop ⊢
        rwa [ht.calls] at hop }
  told := h.told.ctrl ht.looks ht.calls ht.hist
  answers := h.answers.looks ht.looks (by rw [ht.replies]; exact fun _ hx => hx) fun _ hx => hx
  table := by
    rw [h.table, ht.acked]
  just := h.just

/-- Without an answer, a controller asks for what is allowed. -/
theorem Closed.wanted_none (hc : Closed allowed) {req : Req Value}
    (h : Wanted none req) : allowed req := by
  cases req with
  | get | put => cases h
  | freezeShard args => exact hc.freeze args.shard args.num
  | deleteShard args => exact hc.delete args.shard args.num
  | installShard args =>
      obtain ⟨i, r, e, _⟩ := h
      cases e

theorem Shadow.begin (h : Shadow plan gob allowed a w hist) (hc : Closed allowed)
    {cur new : ShardConfig} (hgov : a.env.Governed plan (.begin cur new))
    (hu : a.env.own (.begin cur new) = some u') :
    ∃ w', Shadow plan gob allowed { a with env := u' } w' hist := by
  cases hu
  obtain ⟨hlt, hfollows, hended⟩ := hgov
  rw [Users.Ended, ← h.ctrl] at hended
  have hw := h.reach.tail ⟨.begin new.num, if_pos ⟨hlt, hended⟩⟩
  have hx : Job.Follows plan ⟨cur, new, .loop (List.finRange nShards)⟩ := ⟨hfollows.cur, hfollows.new⟩
  exact ⟨_, h.turn (.begin h.ctrl h.net h.planned hx _) hw fun _ => hc.wanted_none⟩

/-- The world's controllers are at the same places. -/
theorem Shadow.ctrl_at (h : Shadow plan gob allowed a w hist) {x : Job}
    (hx : a.env.ctrl[c]? = some x) : w.ctrl[c]? = some x.ctrl := by
  rw [h.ctrl, List.getElem?_map, hx]
  rfl

theorem Shadow.advance (h : Shadow plan gob allowed a w hist) (hc : Closed allowed)
    (hu : a.env.own (.advance c) = some u') :
    ∃ w', Shadow plan gob allowed { a with env := u' } w' hist := by
  obtain ⟨x, hx, hu⟩ := Option.bind_eq_some_iff.mp hu
  obtain ⟨w', hw, ht⟩ := turn_world (r := 0) h.ctrl h.net h.planned
    (h.planned x (List.mem_of_getElem? hx)) hu (by exact nofun)
  refine ⟨w', h.turn ht (h.reach.tail ⟨.advance c 0, ?_⟩) fun _ => hc.wanted_none⟩
  exact Option.bind_eq_some_iff.mpr ⟨x.ctrl, h.ctrl_at hx, hw⟩

/-- Who has sent what has come to a group, and what: it is allowed. -/
theorem Shadow.sent (h : Shadow plan gob allowed a w hist) {g : Tgid} {k : ℕ} {cmd : Bytes}
    (hk : (a.calls g)[k]? = some cmd) : ∃ s req, (a.env.senders g)[k]? = some s ∧
      a.env.sent s = some req ∧ allowed req ∧ cmd = gob.encodeOp req := by
  have hlt : k < (a.env.senders g).length := by
    rw [h.arrived.length g]
    exact (List.getElem?_eq_some_iff.mp hk).1
  have hs := List.getElem?_eq_getElem hlt
  cases hsender : (a.env.senders g)[k] with
  | request i =>
      rw [hsender] at hs
      obtain ⟨req, hreq, hcmd⟩ := h.arrived.asked g k i hs
      cases hcmd.symm.trans hk
      refine ⟨_, req, hs, ?_, h.allows.net _ (List.mem_of_getElem? hreq), rfl⟩
      rw [Users.sent, hreq]
      rfl
  | rpc x j =>
      rw [hsender] at hs
      obtain ⟨_, op, ⟨y, hy, rfl⟩, hcmd⟩ := h.arrived.rpc g k x j hs
      cases hcmd.symm.trans hk
      refine ⟨_, request y.op, hs, ?_, h.allows.call x _ ⟨y, hy, rfl⟩, rfl⟩
      rw [Users.sent, hy]
      rfl

/-- What has come to the groups is allowed. -/
theorem Shadow.cmd (h : Shadow plan gob allowed a w hist) {g : Tgid} {k : ℕ} {cmd : Bytes}
    (hk : (a.calls g)[k]? = some cmd) : gob.Cmd allowed cmd := by
  obtain ⟨_, req, _, _, hreq, hcmd⟩ := h.sent hk
  exact ⟨req, hreq, hcmd⟩

theorem Shadow.log_cmd (h : Shadow plan gob allowed a w hist) (g : Tgid) :
    ∀ cmd ∈ (a.log g).map Prod.snd, gob.Cmd allowed cmd := by
  intro cmd hcmd
  obtain ⟨x, hx, rfl⟩ := List.mem_map.mp hcmd
  exact h.cmd (h.logged g x hx)

/-- The answer at a place of the log. -/
theorem result_app {g : Tgid} {log : List Bytes} {p : ℕ} {res : Reply Value}
    (h : (gob.app g).resultAt log p = some res) : ∃ cmd, log[p]? = some cmd ∧
      res = (((startServerShardGrp g).foldOps ((log.take p).map gob.decodeOp)).doOp
        (gob.decodeOp cmd)).2 := by
  obtain ⟨cmd, hcmd, rfl⟩ := Option.map_eq_some_iff.mp h
  refine ⟨cmd, hcmd, ?_⟩
  rw [← after_app]
  rfl

/-- With the answer of an execution, a controller asks for what is allowed. -/
theorem Shadow.wanted_some (h : Shadow plan gob allowed a w hist) (hc : Closed allowed)
    (hgob : gob.Sound allowed) {g : Tgid} {p i : ℕ} {res : Reply Value}
    (hres : (gob.app g).resultAt ((a.log g).map Prod.snd) p = some res) {req : Req Value}
    (hreq : Wanted (some (i, res)) req) : allowed req := by
  cases req with
  | get | put => cases hreq
  | freezeShard args => exact hc.freeze args.shard args.num
  | deleteShard args => exact hc.delete args.shard args.num
  | installShard args =>
      obtain ⟨sh, state, num⟩ := args
      obtain ⟨_, r, e, rfl⟩ := hreq
      cases e
      obtain ⟨cmd, hcmd, hr⟩ := result_app hres
      have hlog := hgob.decoded fun cmd hcmd =>
        h.log_cmd g cmd (List.mem_of_mem_take (i := p) hcmd)
      -- only a `FreezeShard` is answered so
      cases hop : gob.decodeOp cmd with
      | freezeShard args =>
          rw [hop] at hr
          cases hr
          exact hc.install g _ args hlog sh num
      | get | put | installShard | deleteShard =>
          rw [hop] at hr
          cases hr

theorem serve_ok {req : Req Value} {res reply : Reply Value}
    (h : serve req .ok (some res) = some reply) : reply = res := by
  cases req <;> cases res <;> cases h <;> rfl

/-- A controller gets an answer. -/
theorem Shadow.takeCtrl (h : Shadow plan gob allowed a w hist) (hc : Closed allowed)
    (hgob : gob.Sound allowed) {g : Tgid} {p k : ℕ} {cmd : Bytes} {res : Reply Value}
    (hp : (a.log g)[p]? = some (k, cmd))
    (hres : (gob.app g).resultAt ((a.log g).map Prod.snd) p = some res)
    (hu : a.env.take g k res (.ctrl c) = some u') :
    ∃ w', Shadow plan gob allowed { a with env := u' } w' hist := by
  obtain ⟨x, hx, hu⟩ := Option.bind_eq_some_iff.mp hu
  split at hu
  next i hs =>
    obtain ⟨⟨_, req⟩, hreq, hu⟩ := Option.bind_eq_some_iff.mp hu
    obtain ⟨reply, hreply, hu⟩ := Option.bind_eq_some_iff.mp hu
    cases serve_ok hreply
    obtain ⟨r, hr⟩ := List.getElem?_of_mem (h.answers.asked g p k cmd i res hp hs hres)
    obtain ⟨w', hw, ht⟩ := turn_world (r := r) h.ctrl h.net h.planned
      (h.planned x (List.mem_of_getElem? hx)) hu fun z hz => by
        cases hz
        exact hr
    refine ⟨w', h.turn ht (h.reach.tail ⟨.advance c r, ?_⟩) fun _ => h.wanted_some hc hgob hres⟩
    exact Option.bind_eq_some_iff.mpr ⟨x.ctrl, h.ctrl_at hx, hw⟩
  next => cases hu

end Controllers

/-! ## 2. The clerks -/

section Clerks

variable {plan : Plan} {gob : Gob Value} {allowed : Req Value → Prop} {u u' : Users Value}
  {w : World Value} {a : Calm Value} {calls : Tgid → List Bytes} {log : Tgid → List (ℕ × Bytes)}
  {hist : List (Ev (Op Value) (Answer Value) (Answer Value))} {x : ℕ} {y y' : Call Value}

/-- A client calls. -/
theorem Shadow.call (h : Shadow plan gob allowed a w hist) {op : Op Value}
    {cfg : Option ShardConfig} (hop : allowed (request op))
    (hu : a.env.own (.call op cfg) = some u') :
    Shadow plan gob allowed { a with env := u' } w
      (hist ++ [.call a.env.calls.length op]) := by
  cases hu
  have hlooks : Looks a.env { a.env with
      calls := a.env.calls ++ [⟨op, cfg, 0, [], 0, .route⟩]
      hist := a.env.hist ++ [.call a.env.calls.length op] } := by
    refine ⟨fun _ _ hx => hx, fun x op' hx => Retry.exists_concat_iff.mpr (.inl hx),
      fun x j g k => Retry.exists_concat_iff.trans ⟨fun hb => hb.resolve_right ?_, .inl⟩, rfl⟩
    rintro ⟨_, hb⟩
    cases hb
  refine ⟨h.reach, h.grp, h.ctrl, h.planned, h.net, h.logged, h.arrived.looks hlooks, ⟨h.allows.net, ?_⟩,
    ⟨fun x op' => ?_, fun x j op' res hmem => ?_, fun x j out hmem => ?_, ?_⟩,
    h.answers.looks hlooks (fun _ hx => hx) fun _ hx => List.mem_append_left _ hx, ?_,
    h.just.concat fun op' hmem => ?_⟩
  · intro x op' hx
    rcases Retry.exists_concat_iff.mp hx with hx | ⟨_, rfl⟩
    · exact h.allows.call x op' hx
    · exact hop
  · refine List.mem_append.trans (Iff.trans (or_congr (h.told.call x op') ?_)
      Retry.exists_concat_iff.symm)
    rw [List.mem_singleton, Ev.call.injEq]
    exact and_congr_right fun _ => eq_comm
  · rcases List.mem_append.mp hmem with hmem | hmem
    · obtain ⟨g, k, hb, hk⟩ := h.told.exec x j op' res hmem
      exact ⟨g, k, (hlooks.became x j g k).mpr hb, hk⟩
    · cases List.mem_singleton.mp hmem
  · rcases List.mem_append.mp hmem with hmem | hmem
    · exact Retry.exists_concat_iff.mpr (.inl (h.told.ret x j out hmem))
    · cases List.mem_singleton.mp hmem
  · rw [visible, List.filterMap_append, ← visible, h.told.visible]
    rfl
  · rw [(kvObject Bytes Value).after_call]
    exact h.table
  · obtain ⟨y, hy, _⟩ := (h.told.call _ op').mp hmem
    exact absurd (List.getElem?_eq_some_iff.mp hy).1 (Nat.lt_irrefl _)

/-- A call that has not returned goes on. -/
theorem Shadow.goOn (h : Shadow plan gob allowed a w hist) (hy : a.env.calls[x]? = some y)
    (hgo : GoesOn y y') (hpc : ∀ out, y.pc ≠ .returned out) :
    Shadow plan gob allowed { a with env := { a.env with calls := a.env.calls.set x y' } } w hist :=
  have hlooks := looks_of_set hy hgo a.env.hist
  ⟨h.reach, h.grp, h.ctrl, h.planned, h.net, h.logged, h.arrived.looks hlooks,
    ⟨h.allows.net, fun x' op hop =>
      h.allows.call x' op ((hasOp_set hy hgo a.env.hist x' op).mp hop)⟩,
    h.told.set hy hgo hpc, h.answers.looks hlooks (fun _ hx => hx) fun _ hx => hx, h.table, h.just⟩

omit [Inhabited Value] in
theorem goesOn_sendRpc (y : Call Value) (gid : Tgid) (tries : ℕ) :
    GoesOn y (y.sendRpc gid tries) := by
  refine ⟨rfl, fun j g k => getElem?_concat_iff.trans ⟨fun h => h.resolve_right ?_, .inl⟩⟩
  rintro ⟨_, e⟩
  cases e

omit [Inhabited Value] in
/-- The steps that a call takes by itself. -/
theorem goesOn_own
    (h : (∃ cfg, y.refresh cfg = some y') ∨ y.send = some y' ∨ y.noAnswer = some y') :
    GoesOn y y' ∧ ∀ out, y.pc ≠ .returned out := by
  rcases h with ⟨cfg, h⟩ | h | h
  · simp only [Call.refresh] at h
    split at h
    next hpc _ =>
      cases h
      exact ⟨⟨rfl, fun _ _ _ => Iff.rfl⟩, by rw [hpc]; exact nofun⟩
    next => cases h
  · simp only [Call.send] at h
    split at h
    next hpc =>
      obtain ⟨cfg, _, rfl⟩ := Option.map_eq_some_iff.mp h
      exact ⟨goesOn_sendRpc _ _ _, by rw [hpc]; exact nofun⟩
    next hpc =>
      refine ⟨?_, by rw [hpc]; exact nofun⟩
      split at h
      · cases h
        exact goesOn_sendRpc _ _ _
      · cases h
        exact ⟨rfl, fun _ _ _ => Iff.rfl⟩
    next => cases h
  · simp only [Call.noAnswer] at h
    split at h
    next hpc =>
      cases h
      exact ⟨⟨rfl, fun _ _ _ => Iff.rfl⟩, by rw [hpc]; exact nofun⟩
    next => cases h

/-- The controllers and clerks take a step by themselves. -/
theorem Shadow.own (h : Shadow plan gob allowed a w hist) (hc : Closed allowed) {act : Own Value}
    (hact : act.Allowed allowed) (hgov : a.env.Governed plan act) (hu : a.env.own act = some u') :
    ∃ w' hist', Shadow plan gob allowed { a with env := u' } w' hist' := by
  -- a step of one call
  have hcall : ∀ {x f}, a.env.step x f = some u' →
      (∀ y y', f y = some y' → GoesOn y y' ∧ ∀ out, y.pc ≠ .returned out) →
      ∃ w' hist', Shadow plan gob allowed { a with env := u' } w' hist' := by
    intro x f hu hf
    obtain ⟨y, hy, hu⟩ := Option.bind_eq_some_iff.mp hu
    obtain ⟨y', hy', hu⟩ := Option.bind_eq_some_iff.mp hu
    cases hu
    exact ⟨w, hist, h.goOn hy (hf y y' hy').1 (hf y y' hy').2⟩
  cases act with
  | begin cur new =>
      obtain ⟨w', h'⟩ := h.begin hc hgov hu
      exact ⟨w', hist, h'⟩
  | advance c =>
      obtain ⟨w', h'⟩ := h.advance hc hu
      exact ⟨w', hist, h'⟩
  | call op cfg => exact ⟨w, _, h.call hact hu⟩
  | refresh x cfg => exact hcall hu fun y y' hy => goesOn_own (.inl ⟨_, hy⟩)
  | send x => exact hcall hu fun y y' hy => goesOn_own (.inr (.inl hy))
  | noAnswer x => exact hcall hu fun y y' hy => goesOn_own (.inr (.inr hy))

end Clerks

/-! ## 3. Something comes to a group -/

theorem getElem?_update_iff {α : Type} {f : Tgid → List α} {g g' : Tgid} {x y : α} {k : ℕ} :
    (Function.update f g (f g ++ [x]) g')[k]? = some y ↔
      (f g')[k]? = some y ∨ g' = g ∧ k = (f g).length ∧ x = y := by
  by_cases e : g' = g
  · subst e
    rw [Function.update_self, getElem?_concat_iff]
    exact or_congr_right (iff_and_self.mpr fun _ => rfl)
  · rw [Function.update_of_ne e]
    exact ⟨.inl, fun h => h.resolve_right fun h => e h.1⟩

/-- One more Submit of group `g`, sent by `s`. -/
structure Posts (gob : Gob Value) (u u' : Users Value) (g : Tgid) (s : Sender) (cmd : Bytes) :
    Prop where
  ctrl : u'.ctrl = u.ctrl
  net : u'.net = u.net
  hist : u'.hist = u.hist
  senders : u'.senders = Function.update u.senders g (u.senders g ++ [s])
  asked : ∀ i, s = .request i → ∃ req, u.net[i]? = some (g, req) ∧ cmd = gob.encodeOp req
  rpc : ∀ x j, s = .rpc x j → ∃ op, HasOp u x op ∧ cmd = gob.encodeOp (request op)
  op : ∀ x op, HasOp u' x op ↔ HasOp u x op
  became : ∀ x j g' k, Became u' x j g' k ↔
    Became u x j g' k ∨ g' = g ∧ k = (u.senders g).length ∧ s = .rpc x j
  ret : ∀ x out, Returned u' x out ↔ Returned u x out

section Post

variable {plan : Plan} {gob : Gob Value} {allowed : Req Value → Prop} {u u' : Users Value}
  {w : World Value} {a : Calm Value} {calls : Tgid → List Bytes} {log : Tgid → List (ℕ × Bytes)}
  {hist : List (Ev (Op Value) (Answer Value) (Answer Value))} {g : Tgid} {s : Sender} {cmd : Bytes}
  {users : ℕ → Users Value}

omit [Inhabited Value] in
/-- **What `post` does.** -/
theorem posts (h : u.post gob s = some (g, cmd, users)) :
    Posts gob u (users (u.senders g).length) g s cmd := by
  cases s with
  | request i =>
      obtain ⟨⟨g, req⟩, hreq, h⟩ := Option.bind_eq_some_iff.mp h
      cases h
      refine ⟨rfl, rfl, rfl, rfl, fun i' e => ?_, by exact nofun, fun _ _ => Iff.rfl,
        fun x j g' k => ⟨.inl, fun hb => hb.resolve_right ?_⟩, fun _ _ => Iff.rfl⟩
      · cases e
        exact ⟨req, hreq, rfl⟩
      · rintro ⟨_, _, e⟩
        cases e
  | rpc x j =>
      obtain ⟨y, hy, h⟩ := Option.bind_eq_some_iff.mp h
      obtain ⟨⟨gid, sub⟩, hr, h⟩ := Option.bind_eq_some_iff.mp h
      split at h
      next hsub =>
        cases h
        cases hsub
        have hlt := (List.getElem?_eq_some_iff.mp hr).1
        refine ⟨rfl, rfl, rfl, rfl, by exact nofun, fun x' j' e => ?_,
          fun x' op => Retry.exists_set_iff hy fun _ => Iff.rfl, fun x' j' g' k => ?_,
          fun x' out => Retry.exists_set_iff hy fun _ => Iff.rfl⟩
        · cases e
          exact ⟨y.op, ⟨y, hy, rfl⟩, rfl⟩
        · by_cases hx : x' = x
          · subst hx
            have hltx := (List.getElem?_eq_some_iff.mp hy).1
            by_cases hj : j' = j
            · subst hj
              simp [Became, List.getElem?_set_self hltx, List.getElem?_set_self hlt, hy, hr, eq_comm]
            · simp [Became, List.getElem?_set_self hltx, List.getElem?_set_ne (Ne.symm hj), hy,
                Ne.symm hj]
          · simp [Became, List.getElem?_set_ne (Ne.symm hx), Ne.symm hx]
      next => cases h

omit [Inhabited Value] in
theorem Arrived.post (h : Arrived gob u calls) (hp : Posts gob u u' g s cmd) :
    Arrived gob u' (Function.update calls g (calls g ++ [cmd])) where
  length g' := by
    rw [hp.senders]
    by_cases e : g' = g
    · subst e
      rw [Function.update_self, Function.update_self, List.length_append, List.length_append,
        h.length]
      rfl
    · rw [Function.update_of_ne e, Function.update_of_ne e]
      exact h.length g'
  asked g' k i hk := by
    rw [hp.senders, getElem?_update_iff] at hk
    rw [hp.net]
    rcases hk with hk | ⟨rfl, rfl, rfl⟩
    · obtain ⟨req, hreq, hcmd⟩ := h.asked g' k i hk
      exact ⟨req, hreq, getElem?_update_iff.mpr (.inl hcmd)⟩
    · obtain ⟨req, hreq, hcmd⟩ := hp.asked i rfl
      exact ⟨req, hreq, getElem?_update_iff.mpr (.inr ⟨rfl, h.length g', hcmd⟩)⟩
  rpc g' k x j hk := by
    rw [hp.senders, getElem?_update_iff] at hk
    simp only [hp.op, hp.became]
    rcases hk with hk | ⟨rfl, rfl, rfl⟩
    · obtain ⟨hb, op, hop, hcmd⟩ := h.rpc g' k x j hk
      exact ⟨.inl hb, op, hop, getElem?_update_iff.mpr (.inl hcmd)⟩
    · obtain ⟨op, hop, hcmd⟩ := hp.rpc x j rfl
      exact ⟨.inr ⟨rfl, rfl, rfl⟩, op, hop,
        getElem?_update_iff.mpr (.inr ⟨rfl, h.length g', hcmd⟩)⟩
  sub x j g' k hb := by
    rw [hp.senders]
    refine getElem?_update_iff.mpr (((hp.became x j g' k).mp hb).imp (h.sub x j g' k) ?_)
    exact fun ⟨hg, hk, hs⟩ => ⟨hg, hk, hs⟩

theorem Shadow.post (h : Shadow plan gob allowed a w hist) (hp : Posts gob a.env u' g s cmd) :
    Shadow plan gob allowed
      { a with env := u', calls := Function.update a.calls g (a.calls g ++ [cmd]) } w hist := by
  -- nothing that has been executed is the new one
  have hold : ∀ g' (p k : ℕ) cmd' s', (a.log g')[p]? = some (k, cmd') →
      (u'.senders g')[k]? = some s' → (a.env.senders g')[k]? = some s' := by
    intro g' p k cmd' s' hlog hk
    rw [hp.senders, getElem?_update_iff] at hk
    refine hk.resolve_right ?_
    rintro ⟨rfl, rfl, _⟩
    have := h.logged g' _ (List.mem_of_getElem? hlog)
    rw [h.arrived.length] at this
    exact absurd (List.getElem?_eq_some_iff.mp this).1 (Nat.lt_irrefl _)
  refine ⟨h.reach, h.grp, ?_, ?_, h.net.trans hp.net.symm, ?_, h.arrived.post hp,
    ⟨?_, fun x op hop => h.allows.call x op ((hp.op x op).mp hop)⟩,
    ⟨fun x op => (h.told.call x op).trans (hp.op x op).symm, ?_,
      fun x j out hmem => (hp.ret x out).mpr (h.told.ret x j out hmem),
      h.told.visible.trans hp.hist.symm⟩, ⟨?_, ?_⟩, h.table, h.just⟩
  · rw [hp.ctrl]
    exact h.ctrl
  · rw [hp.ctrl]
    exact h.planned
  · intro g' x hx
    exact getElem?_update_iff.mpr (.inl (h.logged g' x hx))
  · rw [hp.net]
    exact h.allows.net
  · intro x j op res hmem
    obtain ⟨g', k, hb, hk⟩ := h.told.exec x j op res hmem
    exact ⟨g', k, (hp.became x j g' k).mpr (.inl hb), hk⟩
  · intro g' p k cmd' i res hlog hk hres
    exact h.answers.asked g' p k cmd' i res hlog (hold g' p k cmd' _ hlog hk) hres
  · intro g' p k cmd' x j res hlog hk hres
    simp only [hp.op]
    exact h.answers.rpc g' p k cmd' x j res hlog (hold g' p k cmd' _ hlog hk) hres

end Post

/-! ## 4. A group executes -/

section Exec

variable {plan : Plan} {gob : Gob Value} {allowed : Req Value → Prop} {u : Users Value}
  {w w' : World Value} {a : Calm Value} {log : Tgid → List (ℕ × Bytes)}
  {hist hist' : List (Ev (Op Value) (Answer Value) (Answer Value))} {g : Tgid} {c : ℕ} {cmd : Bytes}

/-- One more execution, with its answer. -/
theorem Answers.exec (h : Answers gob u w log hist) (hw : w.replies ⊆ w'.replies)
    (hh : hist ⊆ hist') {res : Reply Value}
    (hres : (gob.app g).resultAt ((log g).map Prod.snd ++ [cmd]) (log g).length = some res)
    (hasked : ∀ i, (u.senders g)[c]? = some (.request i) → (i, res) ∈ w'.replies)
    (hrpc : ∀ x j, (u.senders g)[c]? = some (.rpc x j) → ∃ ans, asAnswer res = some ans ∧
      (answerErr ans ≠ .errWrongGroup → ∃ op, HasOp u x op ∧ .exec x j op ans ∈ hist')) :
    Answers gob u w' (Function.update log g (log g ++ [(c, cmd)])) hist' := by
  have hl : Looks u u := ⟨fun _ _ h => h, fun _ _ h => h, fun _ _ _ _ => Iff.rfl, rfl⟩
  have h := h.looks hl hw hh
  -- the answers of before are at the same places
  have hold : ∀ {g' p x r}, (log g')[p]? = some x → (gob.app g').resultAt
      ((Function.update log g (log g ++ [(c, cmd)]) g').map Prod.snd) p = some r →
      (gob.app g').resultAt ((log g').map Prod.snd) p = some r := by
    intro g' p x r hp hr
    by_cases e : g' = g
    · subst e
      rw [Function.update_self, List.map_append, Machine.resultAt_append_left] at hr
      · exact hr
      · rw [List.length_map]
        exact (List.getElem?_eq_some_iff.mp hp).1
    · rwa [Function.update_of_ne e] at hr
  have hnew : ∀ r, (gob.app g).resultAt
      ((Function.update log g (log g ++ [(c, cmd)]) g).map Prod.snd) (log g).length = some r →
      r = res := by
    intro r hr
    rw [Function.update_self, List.map_append] at hr
    exact Option.some.inj (hr.symm.trans hres)
  refine ⟨fun g' p k cmd' i r hp hk hr => ?_, fun g' p k cmd' x j r hp hk hr => ?_⟩
  · rcases getElem?_update_iff.mp hp with hp | ⟨rfl, rfl, e⟩
    · exact h.asked g' p k cmd' i r hp hk (hold hp hr)
    · cases e
      rw [hnew r hr]
      exact hasked i hk
  · rcases getElem?_update_iff.mp hp with hp | ⟨rfl, rfl, e⟩
    · exact h.rpc g' p k cmd' x j r hp hk (hold hp hr)
    · cases e
      rw [hnew r hr]
      exact hrpc x j hk

omit [Inhabited Value] in
theorem mem_update_log {g' : Tgid} {k : ℕ} (h : k ∈ (log g').map Prod.fst) :
    k ∈ (Function.update log g (log g ++ [(c, cmd)]) g').map Prod.fst := by
  by_cases e : g' = g
  · subst e
    rw [Function.update_self, List.map_append]
    exact List.mem_append_left _ h
  · rwa [Function.update_of_ne e]

omit [Inhabited Value] in
theorem Told.more (h : Told u log hist) :
    Told u (Function.update log g (log g ++ [(c, cmd)])) hist :=
  ⟨h.call, fun x j op res hmem => by
    obtain ⟨g', k, hb, hk⟩ := h.exec x j op res hmem
    exact ⟨g', k, hb, mem_update_log hk⟩, h.ret, h.visible⟩

omit [Inhabited Value] in
/-- The execution of an RPC. -/
theorem Told.exec_concat (h : Told u log hist) {x j : ℕ} {op : Op Value} {res : Answer Value}
    (hb : Became u x j g c) : Told u (Function.update log g (log g ++ [(c, cmd)]))
      (hist ++ [.exec x j op res]) where
  call x' op' := by
    rw [List.mem_append, List.mem_singleton, ← h.call]
    exact ⟨fun hmem => hmem.resolve_right (by exact nofun), .inl⟩
  exec x' j' op' res' hmem := by
    rcases List.mem_append.mp hmem with hmem | hmem
    · exact h.more.exec x' j' op' res' hmem
    · cases List.mem_singleton.mp hmem
      refine ⟨g, c, hb, ?_⟩
      rw [Function.update_self, List.map_append]
      exact List.mem_append_right _ (List.mem_singleton_self c)
  ret x' j' out hmem := by
    rcases List.mem_append.mp hmem with hmem | hmem
    · exact h.ret x' j' out hmem
    · cases List.mem_singleton.mp hmem
  visible := by
    rw [Lib.visible, List.filterMap_append, ← Lib.visible, h.visible]
    exact List.append_nil _

omit [Inhabited Value] in
theorem logged_exec (h : ∀ g, ∀ x ∈ a.log g, (a.calls g)[x.1]? = some x.2)
    (hc : (a.calls g)[c]? = some cmd) (g' : Tgid) :
    ∀ x ∈ Function.update a.log g (a.log g ++ [(c, cmd)]) g', (a.calls g')[x.1]? = some x.2 := by
  intro x hx
  obtain ⟨p, hp⟩ := List.getElem?_of_mem hx
  rcases getElem?_update_iff.mp hp with hp | ⟨rfl, rfl, rfl⟩
  · exact h g' x (List.mem_of_getElem? hp)
  · exact hc

/-- The state of a group, and the answer, after one more request. -/
theorem Shadow.exec_grp (h : Shadow plan gob allowed a w hist) (hgob : gob.Sound allowed)
    (g : Tgid) (c : ℕ) {req : Req Value} (hreq : allowed req) :
    (Atomic.obj (fun g => (gob.app g).toMachine) { a with
      log := Function.update a.log g (a.log g ++ [(c, gob.encodeOp req)]) } =
        Function.update w.grp g ((w.grp g).doOp req).1) ∧
      (gob.app g).resultAt ((a.log g).map Prod.snd ++ [gob.encodeOp req]) (a.log g).length =
        some ((w.grp g).doOp req).2 := by
  have hstep : ∀ k, (gob.app g).step k (w.grp g) (gob.encodeOp req) = (w.grp g).doOp req :=
    fun _ => congrArg (w.grp g).doOp (hgob.op req hreq)
  have hresult := Atomic.resultAt_exec (m := fun g => (gob.app g).toMachine) a g (gob.encodeOp req)
  rw [← h.grp, hstep] at hresult
  refine ⟨?_, hresult⟩
  rw [Atomic.obj_exec, ← h.grp, hstep]

/-- The group executes the request of a controller: so does the world. -/
theorem Shadow.execRequest (h : Shadow plan gob allowed a w hist) (hgob : gob.Sound allowed)
    (hc : (a.calls g)[c]? = some cmd) {i : ℕ} (hs : (a.env.senders g)[c]? = some (.request i)) :
    ∃ w', Shadow plan gob allowed
      { a with log := Function.update a.log g (a.log g ++ [(c, cmd)]) } w' hist := by
  obtain ⟨req, hreq, hcmd⟩ := h.arrived.asked g c i hs
  cases hcmd.symm.trans hc
  obtain ⟨hobj, hres⟩ :=
    h.exec_grp hgob g c (h.allows.net _ (List.mem_of_getElem? hreq))
  have hreach := h.reach.tail ⟨.execute i, Option.bind_eq_some_iff.mpr ⟨_, h.net ▸ hreq, rfl⟩⟩
  refine ⟨_, hreach, hobj.symm, h.ctrl, h.planned, h.net, logged_exec h.logged hc, h.arrived, h.allows,
    h.told.more, h.answers.exec (fun _ hx => List.mem_append_left _ hx) (fun _ hx => hx) hres
      (fun i' hi' => ?_) fun x j hx => ?_, h.table, h.just⟩
  · rw [hs] at hi'
    cases hi'
    exact List.mem_append_right _ (List.mem_singleton_self _)
  · rw [hs] at hx
    cases hx

omit [Inhabited Value] in
theorem Became.unique {x j : ℕ} {g' : Tgid} {k : ℕ} (h : Became u x j g c)
    (h' : Became u x j g' k) : g' = g ∧ k = c := by
  obtain ⟨y, hy, hr⟩ := h
  obtain ⟨y', hy', hr'⟩ := h'
  cases hy.symm.trans hy'
  cases hr.symm.trans hr'
  exact ⟨rfl, rfl⟩

/-- The group executes an RPC of a clerk: it refuses it, or the history has one more execution. -/
theorem Shadow.execRpc (h : Shadow plan gob allowed a w hist) (hgob : gob.Sound allowed)
    (hc : (a.calls g)[c]? = some cmd) (hnew : c ∉ (a.log g).map Prod.fst) {x j : ℕ}
    (hs : (a.env.senders g)[c]? = some (.rpc x j)) :
    ∃ w' hist', Shadow plan gob allowed
      { a with log := Function.update a.log g (a.log g ++ [(c, cmd)]) } w' hist' := by
  obtain ⟨hb, op, hop, hcmd⟩ := h.arrived.rpc g c x j hs
  cases hcmd.symm.trans hc
  obtain ⟨hobj, hres⟩ := h.exec_grp hgob g c (h.allows.call x op hop)
  obtain ⟨w', ans, hreach, hgrp, hctrl, hnet, hreplies, hans, hcase⟩ := rpc_executed h.reach g op
  have hasked : ∀ i, (a.env.senders g)[c]? = some (.request i) →
      (i, ((w.grp g).doOp (request op)).2) ∈ w'.replies := by
    intro i hi
    rw [hs] at hi
    cases hi
  -- the answer, and what the history has of it
  have hanswers : ∀ hist', hist ⊆ hist' →
      (answerErr ans ≠ .errWrongGroup → .exec x j op ans ∈ hist') →
      Answers gob a.env w' (Function.update a.log g (a.log g ++ [(c, gob.encodeOp (request op))]))
        hist' := by
    intro hist' hh hex
    refine h.answers.exec (by rw [hreplies]; exact fun _ hx => hx) hh hres hasked ?_
    intro x' j' hx'
    rw [hs] at hx'
    cases hx'
    exact ⟨ans, hans, fun hne => ⟨op, hop, hex hne⟩⟩
  rcases hcase with ⟨hwrong, hacked⟩ | ⟨hne, hkv, hacked⟩
  · exact ⟨w', hist, hreach, hgrp.trans hobj.symm, hctrl.trans h.ctrl, h.planned,
      hnet.trans h.net, logged_exec h.logged hc, h.arrived, h.allows, h.told.more,
      hanswers hist (fun _ hx => hx) fun hne => absurd hwrong hne, h.table.trans hacked.symm, h.just⟩
  · have hloose : Loose (kvObject Bytes Value) Honest hist (.exec x j op ans) := by
      refine ⟨(h.told.call x op).mpr hop, ?_, fun op' res' hmem => ?_⟩
      · rw [h.table]
        exact hkv
      · obtain ⟨g', k, hb', hk⟩ := h.told.exec x j op' res' hmem
        obtain ⟨rfl, rfl⟩ := hb.unique hb'
        exact hnew hk
    refine ⟨w', hist ++ [.exec x j op ans], hreach, hgrp.trans hobj.symm, hctrl.trans h.ctrl,
      h.planned, hnet.trans h.net, logged_exec h.logged hc, h.arrived, h.allows, h.told.exec_concat hb,
      hanswers _ (fun _ hx => List.mem_append_left _ hx) fun _ =>
        List.mem_append_right _ (List.mem_singleton_self _), ?_, h.just.concat hloose⟩
    rw [(kvObject Bytes Value).after_exec, h.table, hacked]
    rfl

end Exec

/-! ## 5. A clerk gets its answer -/

section Take

variable {plan : Plan} {gob : Gob Value} {allowed : Req Value → Prop} {u u' : Users Value}
  {w : World Value} {a : Calm Value} {log : Tgid → List (ℕ × Bytes)}
  {hist : List (Ev (Op Value) (Answer Value) (Answer Value))} {g : Tgid} {x j : ℕ}
  {y y' : Call Value} {ans : Answer Value} {out : Option (Answer Value)}

omit [Inhabited Value] in
/-- **What a clerk makes of an answer**: it sends again, it asks for another configuration, or it
    returns. -/
theorem answer_cases (h : y.answer ans = some (y', out)) :
    GoesOn y y' ∧ (∀ out', y.pc ≠ .returned out') ∧ (out = none ∨
      ∃ resend, out = some (clerkReply resend ans) ∧ y'.pc = .returned (clerkReply resend ans) ∧
        answerErr ans ≠ .errWrongGroup) := by
  simp only [Call.answer] at h
  split at h
  next hpc =>
    have hret : ∀ out', y.pc ≠ .returned out' := by
      rw [hpc]
      exact nofun
    split at h
    next =>
      cases h
      exact ⟨⟨rfl, fun _ _ _ => Iff.rfl⟩, hret, .inl rfl⟩
    next =>
      split at h
      next =>
        cases h
        exact ⟨⟨rfl, fun _ _ _ => Iff.rfl⟩, hret, .inl rfl⟩
      next hne =>
        cases h
        refine ⟨⟨rfl, fun _ _ _ => Iff.rfl⟩, hret, .inr ⟨_, rfl, rfl, fun hwrong => hne ?_⟩⟩
        -- `ErrWrongGroup` is handed on as it is
        cases ans with
        | get reply => exact hwrong
        | put reply =>
            obtain ⟨err⟩ := reply
            cases hwrong
            cases decide (1 < y.tries) <;> rfl
  next => cases h

omit [Inhabited Value] in
theorem Told.ret_concat (h : Told u log hist) (hy : u.calls[x]? = some y) (hgo : GoesOn y y')
    (hpc : ∀ out, y.pc ≠ .returned out) {out : Answer Value} (hret : y'.pc = .returned out) :
    Told { u with calls := u.calls.set x y', hist := u.hist ++ [.ret x out] } log
      (hist ++ [.ret x j out]) where
  call x' op := by
    rw [List.mem_append, List.mem_singleton]
    refine Iff.trans ?_ ((h.set hy hgo hpc).call x' op)
    exact ⟨fun hmem => hmem.resolve_right (by exact nofun), .inl⟩
  exec x' j' op res hmem := by
    rcases List.mem_append.mp hmem with hmem | hmem
    · exact (h.set hy hgo hpc).exec x' j' op res hmem
    · cases List.mem_singleton.mp hmem
  ret x' j' out' hmem := by
    rcases List.mem_append.mp hmem with hmem | hmem
    · exact (h.set hy hgo hpc).ret x' j' out' hmem
    · cases List.mem_singleton.mp hmem
      exact ⟨y', List.getElem?_set_self (List.getElem?_eq_some_iff.mp hy).1, hret⟩
  visible := by
    rw [Lib.visible, List.filterMap_append, ← Lib.visible, h.visible]
    rfl

/-- A clerk gets an answer. -/
theorem Shadow.takeClerk (h : Shadow plan gob allowed a w hist) {p k : ℕ} {cmd : Bytes}
    {res : Reply Value} (hp : (a.log g)[p]? = some (k, cmd))
    (hres : (gob.app g).resultAt ((a.log g).map Prod.snd) p = some res)
    (hu : a.env.take g k res (.clerk x) = some u') :
    ∃ hist', Shadow plan gob allowed { a with env := u' } w hist' := by
  obtain ⟨y, hy, hu⟩ := Option.bind_eq_some_iff.mp hu
  obtain ⟨r, hr, hu⟩ := Option.bind_eq_some_iff.mp hu
  split at hu
  next e =>
    subst e
    obtain ⟨reply, hreply, hu⟩ := Option.bind_eq_some_iff.mp hu
    cases serve_ok hreply
    obtain ⟨ans, hans, hu⟩ := Option.bind_eq_some_iff.mp hu
    obtain ⟨⟨y', out⟩, hy', hu⟩ := Option.bind_eq_some_iff.mp hu
    cases hu
    obtain ⟨hgo, hpc, hout⟩ := answer_cases hy'
    rcases hout with rfl | ⟨resend, rfl, hret, hne⟩
    · refine ⟨hist, ?_⟩
      rw [Option.map_none, Option.toList_none, List.append_nil]
      exact h.goOn hy hgo hpc
    · -- the RPC that is answered is the last one
      rw [List.getLast?_eq_getElem?] at hr
      have hs := h.arrived.sub x _ g k ⟨y, hy, hr⟩
      obtain ⟨ans', hans', hex⟩ := h.answers.rpc g p k cmd x _ res hp hs hres
      cases hans.symm.trans hans'
      obtain ⟨op, hop, hmem⟩ := hex hne
      have hlooks := looks_of_set hy hgo (a.env.hist ++ [.ret x (clerkReply resend ans)])
      have hloose : Loose (kvObject Bytes Value) Honest hist
          (.ret x (y.rpcs.length - 1) (clerkReply resend ans)) := by
        refine ⟨⟨op, ans, hmem, resend, rfl⟩, fun j' out' hmem => ?_⟩
        obtain ⟨z, hz, hret'⟩ := h.told.ret x j' out' hmem
        cases hy.symm.trans hz
        exact hpc out' hret'
      refine ⟨_, h.reach, h.grp, h.ctrl, h.planned, h.net, h.logged, h.arrived.looks hlooks,
        ⟨h.allows.net, fun x' op hop => h.allows.call x' op ((hasOp_set hy hgo _ x' op).mp hop)⟩,
        h.told.ret_concat hy hgo hpc hret,
        h.answers.looks hlooks (fun _ hx => hx) fun _ hx => List.mem_append_left _ hx, ?_,
        h.just.concat hloose⟩
      rw [(kvObject Bytes Value).after_ret]
      exact h.table
  next => cases hu

end Take

/-! ## 6. Runs -/

section Runs

variable {plan : Plan} {gob : Gob Value} {allowed : Req Value → Prop}

theorem shadow_init : Shadow plan gob allowed (Atomic.init (usersEnv plan gob allowed)) .init [] where
  reach := .refl
  grp := rfl
  ctrl := rfl
  planned := by exact nofun
  net := rfl
  logged := by exact nofun
  arrived := ⟨fun _ => rfl, by exact nofun, by exact nofun, by
    rintro x j g k ⟨y, hy, _⟩
    cases hy⟩
  allows := ⟨by exact nofun, by
    rintro x op ⟨y, hy, _⟩
    cases hy⟩
  told := ⟨fun x op => ⟨by exact nofun, by
    rintro ⟨y, hy, _⟩
    cases hy⟩, by exact nofun, by exact nofun, rfl⟩
  answers := ⟨by exact nofun, by exact nofun⟩
  table := rfl
  just := .nil

/-- **Controllers and clerks with atomic groups go through a run of Migration.lean.** -/
theorem shadow_reachable (hc : Closed allowed) (hgob : gob.Sound allowed) {a : Calm Value}
    (h : a.Reachable plan gob allowed) : ∃ w hist, Shadow plan gob allowed a w hist := by
  induction h with
  | refl => exact ⟨_, _, shadow_init⟩
  | tail _ hstep ih =>
      obtain ⟨w, hist, h⟩ := ih
      cases hstep with
      | tau he =>
          obtain ⟨act, hact, hgov, hu⟩ := he
          exact h.own hc hact hgov hu
      | send g cmd he =>
          obtain ⟨s, users, hp, rfl⟩ := he
          rw [← h.arrived.length]
          exact ⟨w, hist, h.post (posts hp)⟩
      | exec g c cmd hcall hnew =>
          obtain ⟨s, _, hs, _⟩ := h.sent hcall
          cases s with
          | request i =>
              obtain ⟨w', h'⟩ := h.execRequest hgob hcall hs
              exact ⟨w', hist, h'⟩
          | rpc x j => exact h.execRpc hgob hcall hnew hs
      | recv g c cmd res k hk hres he =>
          obtain ⟨t, hu⟩ := he
          cases t with
          | ctrl c' =>
              obtain ⟨w', h'⟩ := h.takeCtrl hc hgob hk hres hu
              exact ⟨w', hist, h'⟩
          | clerk x =>
              obtain ⟨hist', h'⟩ := h.takeClerk hk hres hu
              exact ⟨w, hist', h'⟩

end Runs

end RaftLab.Shardkv1.Fleet

/-
  File:      RaftLab/Shardkv1/MigrationSafety.lean
  Subject:   Migration is safe: every shard of the system is a handover (Lib/Handover.lean).

  `abs plan w sh` is the system seen from shard `sh`: the slots of all groups, the number of the
  last migration begun, what the acknowledged Puts say of the shard, and the answers `Freeze`
  requests got. An action of the system is a step of the handover of each shard, or leaves it as
  it is (`Grows`); `Inv` adds what requests, answers and controllers say.

  * `migration_safe` -- at most one group serves a shard, it has all acknowledged Puts and nothing
    else, and after the last migration the owners of its configuration serve.
-/
import RaftLab.Lib.Runs
import RaftLab.Shardkv1.Migration

namespace RaftLab.Shardkv1

open RaftLab.Lib RaftLab.Lib.Handover RaftLab.Kvsrv1
open RaftLab.Raft1 (Bytes)

variable {Value : Type}

/-! ## 1. The system seen from a shard -/

/-- The `Freeze` request of shard `sh` for number `N`. -/
def freezeReq (plan : Plan) (sh : Tshid) (N : ℕ) : Tgid × Req Value :=
  (plan.own sh (N - 1), .freezeShard ⟨sh, N⟩)

def abs (plan : Plan) (w : World Value) (sh : Tshid) : Handover Tgid Bytes (KvEntry Value) where
  slot g := (w.grp g).slot sh
  top := w.top
  truth := restrict sh (applyPuts w.acked)
  sent N st := ∃ i reply, w.net[i]? = some (freezeReq plan sh N) ∧
    (i, .freezeShard reply) ∈ w.replies ∧ reply.state = st

/-- From `w` to `w'` the system has taken a step of the handover of each shard, or none. -/
structure Grows (plan : Plan) (w w' : World Value) : Prop where
  step : ∀ sh, abs plan w' sh = abs plan w sh ∨ Step (plan.own sh) (abs plan w sh) (abs plan w' sh)
  net : ∀ (i : ℕ) (x : Tgid × Req Value), w.net[i]? = some x → w'.net[i]? = some x
  sent : ∀ sh N st, (abs plan w sh).sent N st → (abs plan w' sh).sent N st
  top : w.top ≤ w'.top

/-- Move `N` of the shard is installed. -/
def Installed (plan : Plan) (w : World Value) (sh : Tshid) (N : ℕ) : Prop :=
  N ≤ ((abs plan w sh).slot (plan.own sh N)).num

/-- `N` is the number of a migration begun that moves the shard. -/
structure Moves (plan : Plan) (w : World Value) (sh : Tshid) (N : ℕ) : Prop where
  pos : 1 < N
  le : N ≤ w.top
  ne : plan.own sh (N - 1) ≠ plan.own sh N

/-- What a request in the network says. -/
def ReqOk (plan : Plan) (w : World Value) : Tgid × Req Value → Prop
  | (g, .freezeShard args) => Moves plan w args.shard args.num ∧
      g = plan.own args.shard (args.num - 1)
  | (g, .installShard args) => Moves plan w args.shard args.num ∧
      g = plan.own args.shard args.num ∧ (abs plan w args.shard).sent args.num args.state
  | (g, .deleteShard args) => Moves plan w args.shard args.num ∧
      g = plan.own args.shard (args.num - 1) ∧ Installed plan w args.shard args.num
  | _ => False

/-- What an answer to a request says. -/
def ReplyOk (plan : Plan) (w : World Value) : Req Value → Reply Value → Prop
  | .freezeShard args, .freezeShard reply =>
      ∀ sub, reply.state = some sub → KVServer.Within args.shard sub
  | .installShard args, .installShard _ => Installed plan w args.shard args.num
  | .deleteShard args, .deleteShard _ => Settled (plan.own args.shard) (abs plan w args.shard) args.num
  | _, _ => False

/-- The migration to `N` is done with every shard outside `todo`. -/
def DoneBut (plan : Plan) (w : World Value) (N : ℕ) (todo : List Tshid) : Prop :=
  ∀ sh, sh ∉ todo → Settled (plan.own sh) (abs plan w sh) N

/-- What the place of a controller says. -/
def PcOk (plan : Plan) (w : World Value) (N : ℕ) : Pc → Prop
  | .loop todo => DoneBut plan w N todo
  | .freezing i sh todo => DoneBut plan w N (sh :: todo) ∧ Moves plan w sh N ∧
      w.net[i]? = some (freezeReq plan sh N)
  | .installing i sh todo => DoneBut plan w N (sh :: todo) ∧ Moves plan w sh N ∧
      ∃ st, w.net[i]? = some (plan.own sh N, .installShard ⟨sh, st, N⟩)
  | .deleting i sh todo => DoneBut plan w N (sh :: todo) ∧
      w.net[i]? = some (plan.own sh (N - 1), .deleteShard ⟨sh, N⟩)

structure Inv (plan : Plan) (w : World Value) : Prop where
  holds : ∀ sh, ∃ H, Holds (plan.own sh) (abs plan w sh) H
  net : ∀ (i : ℕ) (x : Tgid × Req Value), w.net[i]? = some x → ReqOk plan w x
  replies : ∀ x ∈ w.replies, ∃ g req, w.net[x.1]? = some (g, req) ∧ ReplyOk plan w req x.2
  ctrl : ∀ x ∈ w.ctrl, 1 < x.num ∧ x.num ≤ w.top ∧ PcOk plan w x.num x.pc

/-! ## 2. What growth keeps -/

section Grows

variable {plan : Plan} {w w' : World Value} {sh : Tshid} {N : ℕ}

theorem Grows.installed (hg : Grows plan w w') (h : Installed plan w sh N) :
    Installed plan w' sh N := by
  rcases hg.step sh with e | hs
  · unfold Installed
    rw [e]
    exact h
  · exact Nat.le_trans h (hs.num_le _)

theorem Grows.settled (hg : Grows plan w w') (hi : Inv plan w) (hN : N ≤ w.top)
    (h : Settled (plan.own sh) (abs plan w sh) N) :
    Settled (plan.own sh) (abs plan w' sh) N := by
  obtain ⟨H, hH⟩ := hi.holds sh
  rcases hg.step sh with e | hs
  · rw [e]
    exact h
  · exact h.step hH hs hN

theorem Grows.holds (hg : Grows plan w w') (hi : Inv plan w) (sh : Tshid) :
    ∃ H, Holds (plan.own sh) (abs plan w' sh) H := by
  obtain ⟨H, hH⟩ := hi.holds sh
  rcases hg.step sh with e | hs
  · rw [e]
    exact ⟨H, hH⟩
  · exact hH.step hs

theorem Grows.moves (hg : Grows plan w w') (h : Moves plan w sh N) : Moves plan w' sh N :=
  ⟨h.pos, Nat.le_trans h.le hg.top, h.ne⟩

theorem Grows.reqOk (hg : Grows plan w w') {x : Tgid × Req Value} (h : ReqOk plan w x) :
    ReqOk plan w' x := by
  obtain ⟨g, req⟩ := x
  cases req with
  | get => exact h
  | put => exact h
  | freezeShard args => exact ⟨hg.moves h.1, h.2⟩
  | installShard args => exact ⟨hg.moves h.1, h.2.1, hg.sent _ _ _ h.2.2⟩
  | deleteShard args => exact ⟨hg.moves h.1, h.2.1, hg.installed h.2.2⟩

theorem Grows.doneBut (hg : Grows plan w w') (hi : Inv plan w) (hN : N ≤ w.top)
    {todo : List Tshid} (h : DoneBut plan w N todo) : DoneBut plan w' N todo :=
  fun sh hsh => hg.settled hi hN (h sh hsh)

theorem Grows.pcOk (hg : Grows plan w w') (hi : Inv plan w) (hN : N ≤ w.top) {pc : Pc}
    (h : PcOk plan w N pc) : PcOk plan w' N pc := by
  cases pc with
  | loop todo => exact hg.doneBut hi hN h
  | freezing i sh todo => exact ⟨hg.doneBut hi hN h.1, hg.moves h.2.1, hg.net _ _ h.2.2⟩
  | installing i sh todo =>
      obtain ⟨hd, hm, st, hst⟩ := h
      exact ⟨hg.doneBut hi hN hd, hg.moves hm, st, hg.net _ _ hst⟩
  | deleting i sh todo => exact ⟨hg.doneBut hi hN h.1, hg.net _ _ h.2⟩

theorem Grows.replyOk (hg : Grows plan w w') (hi : Inv plan w) {g : Tgid} {req : Req Value}
    {reply : Reply Value} (hreq : ReqOk plan w (g, req)) (h : ReplyOk plan w req reply) :
    ReplyOk plan w' req reply := by
  cases req with
  | get => exact hreq.elim
  | put => exact hreq.elim
  | freezeShard args =>
      cases reply with
      | freezeShard reply => exact h
      | get | put | installShard | deleteShard => exact h.elim
  | installShard args =>
      cases reply with
      | installShard reply => exact hg.installed h
      | get | put | freezeShard | deleteShard => exact h.elim
  | deleteShard args =>
      cases reply with
      | deleteShard reply => exact hg.settled hi hreq.1.le h
      | get | put | freezeShard | installShard => exact h.elim

/-- **New states**: what the old entries say stays, the new ones are to be shown. -/
theorem Inv.grow (hi : Inv plan w) (hg : Grows plan w w')
    (hnet : ∀ (i : ℕ) (x : Tgid × Req Value), w'.net[i]? = some x →
      w.net[i]? = some x ∨ ReqOk plan w' x)
    (hrep : ∀ x ∈ w'.replies, x ∈ w.replies ∨
      ∃ g req, w'.net[x.1]? = some (g, req) ∧ ReplyOk plan w' req x.2)
    (hctrl : ∀ x ∈ w'.ctrl, x ∈ w.ctrl ∨ (1 < x.num ∧ x.num ≤ w'.top ∧ PcOk plan w' x.num x.pc)) :
    Inv plan w' where
  holds := hg.holds hi
  net i x hx := (hnet i x hx).elim (fun h => hg.reqOk (hi.net i x h)) id
  replies x hx := by
    rcases hrep x hx with h | h
    · obtain ⟨g, req, hn, hr⟩ := hi.replies x h
      exact ⟨g, req, hg.net _ _ hn, hg.replyOk hi (hi.net _ _ hn) hr⟩
    · exact h
  ctrl x hx := by
    rcases hctrl x hx with h | h
    · obtain ⟨h1, h2, h3⟩ := hi.ctrl x h
      exact ⟨h1, Nat.le_trans h2 hg.top, hg.pcOk hi h2 h3⟩
    · exact h

end Grows

/-! ## 3. Controllers -/

section Controllers

variable {plan : Plan} {w w' : World Value} {c N : ℕ}

/-- Only the network and the controllers change: no shard sees it. -/
theorem grows_of_net (hi : Inv plan w) {l : List (Tgid × Req Value)} (hgrp : w'.grp = w.grp)
    (hack : w'.acked = w.acked) (hrep : w'.replies = w.replies) (htop : w'.top = w.top)
    (hnet : w'.net = w.net ++ l) : Grows plan w w' := by
  have hold : ∀ (i : ℕ) (x : Tgid × Req Value), w.net[i]? = some x → w'.net[i]? = some x := by
    intro i x hx
    rw [hnet, List.getElem?_append_left (List.getElem?_eq_some_iff.mp hx).1]
    exact hx
  have habs : ∀ sh, abs plan w' sh = abs plan w sh := by
    intro sh
    unfold abs
    rw [hgrp, hack, hrep, htop]
    congr
    funext M st
    refine propext ⟨fun h => ?_, fun h => ?_⟩
    · obtain ⟨i, reply, hn, hr, e⟩ := h
      obtain ⟨g, req, hn', _⟩ := hi.replies _ hr
      have := hold _ _ hn'
      rw [hn] at this
      exact ⟨i, reply, by rw [hn', this], hr, e⟩
    · obtain ⟨i, reply, hn, hr, e⟩ := h
      exact ⟨i, reply, hold i _ hn, hr, e⟩
  exact ⟨fun sh => Or.inl (habs sh), hold, fun sh M st h => by rw [habs]; exact h, htop.ge⟩

/-- A controller leaves a call or passes a shard. -/
theorem Inv.setCtrl (hi : Inv plan w) {x : Ctrl} (h1 : 1 < x.num) (h2 : x.num ≤ w.top)
    (h3 : PcOk plan w x.num x.pc) : Inv plan { w with ctrl := w.ctrl.set c x } := by
  have hg : Grows plan w { w with ctrl := w.ctrl.set c x } :=
    grows_of_net hi (l := []) rfl rfl rfl rfl (List.append_nil _).symm
  refine hi.grow hg (fun _ _ h => Or.inl h) (fun _ h => Or.inl h) fun y hy => ?_
  rcases List.mem_or_eq_of_mem_set hy with h | rfl
  · exact Or.inl h
  · exact Or.inr ⟨h1, h2, hg.pcOk hi h2 h3⟩

/-- A controller makes a call. -/
theorem Inv.call (hi : Inv plan w) {g : Tgid} {req : Req Value} {pc : ℕ → Pc} (h1 : 1 < N)
    (h2 : N ≤ w.top) (hreq : ReqOk plan w (g, req))
    (hpc : ∀ w', Grows plan w w' → w'.net[w.net.length]? = some (g, req) →
      PcOk plan w' N (pc w.net.length)) : Inv plan (w.call c N g req pc) := by
  have hg : Grows plan w (w.call c N g req pc) := grows_of_net hi rfl rfl rfl rfl rfl
  have hlast : (w.call c N g req pc).net[w.net.length]? = some (g, req) := by simp [World.call]
  refine hi.grow hg (fun i x hx => ?_) (fun _ h => Or.inl h) fun y hy => ?_
  · by_cases hlt : i < w.net.length
    · left
      rwa [World.call, List.getElem?_append_left hlt] at hx
    · right
      have hi' : i = w.net.length := by
        have := (List.getElem?_eq_some_iff.mp hx).1
        simp only [World.call, List.length_append, List.length_singleton] at this
        omega
      subst hi'
      cases hlast.symm.trans hx
      exact hg.reqOk hreq
  · rcases List.mem_or_eq_of_mem_set hy with h | rfl
    · exact Or.inl h
    · exact Or.inr ⟨h1, h2, hpc _ hg hlast⟩

/-- A shard that needs no migration, or whose migration is done. -/
theorem DoneBut.cons {sh : Tshid} {todo : List Tshid} (h : DoneBut plan w N (sh :: todo))
    (hsh : Settled (plan.own sh) (abs plan w sh) N) : DoneBut plan w N todo := by
  intro sh' hsh'
  by_cases e : sh' = sh
  · rw [e]
    exact hsh
  · exact h sh' fun hm => (List.mem_cons.mp hm).elim e hsh'

/-- An answer a controller gets belongs to a request of the network. -/
theorem Inv.reply_at (hi : Inv plan w) {r i : ℕ} {reply : Reply Value} {x : Tgid × Req Value}
    (hr : w.replies[r]? = some (i, reply)) (hn : w.net[i]? = some x) : ReplyOk plan w x.2 reply := by
  obtain ⟨g, req, hn', hok⟩ := hi.replies _ (List.mem_of_getElem? hr)
  cases hn.symm.trans hn'
  exact hok

/-- **A turn of a controller.** -/
theorem Inv.turn (hi : Inv plan w) {r : ℕ} {x : Ctrl} (hx : x ∈ w.ctrl)
    (h : w.turn plan c r x = some w') : Inv plan w' := by
  obtain ⟨h1, h2, hpc⟩ := hi.ctrl x hx
  cases World.turned h with
  | keep hown => exact hi.setCtrl h1 h2 (DoneBut.cons hpc (Or.inl hown))
  | @freeze N sh todo hown =>
      have hm : Moves plan w sh N := ⟨h1, h2, hown⟩
      rw [plan.num]
      exact hi.call h1 h2 ⟨hm, rfl⟩ fun w' hg hn =>
        ⟨hg.doneBut hi h2 hpc, hg.moves hm, hn⟩
  | @install N i sh todo reply hr =>
      obtain ⟨hdone, hm, hn⟩ := hpc
      have hsent : (abs plan w sh).sent N reply.state :=
        ⟨i, reply, hn, List.mem_of_getElem? hr, rfl⟩
      rw [plan.num]
      exact hi.call h1 h2 ⟨hm, rfl, hsent⟩ fun w' hg hn' =>
        ⟨hg.doneBut hi h2 hdone, hg.moves hm, _, hn'⟩
  | @delete N i sh todo reply hr =>
      obtain ⟨hdone, hm, st, hn⟩ := hpc
      have hinst : Installed plan w sh N := hi.reply_at hr hn
      rw [plan.num]
      exact hi.call h1 h2 ⟨hm, rfl, hinst⟩ fun w' hg hn' => ⟨hg.doneBut hi h2 hdone, hn'⟩
  | @done N i sh todo reply hr =>
      obtain ⟨hdone, hn⟩ := hpc
      have hset : Settled (plan.own sh) (abs plan w sh) N := hi.reply_at hr hn
      exact hi.setCtrl h1 h2 (hdone.cons hset)

/-- **A controller begins.** The migration to N is the last one, or the one before it has been
    settled at every shard by the controller that ended it. -/
theorem Inv.begin (hi : Inv plan w) (h1 : 1 < N) (hprev : N = 2 ∨ w.Ended (N - 1)) :
    Inv plan { w with ctrl := w.ctrl ++ [⟨N, .loop (List.finRange nShards)⟩], top := max w.top N } := by
  have htop : 1 ≤ w.top := by
    obtain ⟨H, hH⟩ := hi.holds ⟨0, by decide⟩
    exact Nat.le_trans hH.pos hH.le
  have hle : N ≤ w.top + 1 := by
    rcases hprev with rfl | he
    · omega
    · have : N - 1 ≤ w.top := (hi.ctrl _ he).2.1
      omega
  have hg : Grows plan w
      { w with ctrl := w.ctrl ++ [⟨N, .loop (List.finRange nShards)⟩], top := max w.top N } := by
    refine ⟨fun sh => ?_, fun _ _ h => h, fun _ _ _ h => h, Nat.le_max_left _ _⟩
    by_cases hN : N ≤ w.top
    · left
      simp [abs, Nat.max_eq_left hN]
    · right
      have hN' : N = w.top + 1 := by omega
      have hset : 1 < w.top → Settled (plan.own sh) (abs plan w sh) w.top := by
        intro hlt
        have he : w.Ended w.top := by
          rcases hprev with e | he
          · omega
          · rwa [hN', Nat.add_sub_cancel] at he
        exact (hi.ctrl _ he).2.2 sh List.not_mem_nil
      have hstep : Step (plan.own sh) (abs plan w sh) _ := .raise hset
      rw [show max w.top N = w.top + 1 by omega]
      exact hstep
  refine hi.grow hg (fun _ _ h => Or.inl h) (fun _ h => Or.inl h) fun y hy => ?_
  rcases List.mem_append.mp hy with h | h
  · exact Or.inl h
  · rw [List.mem_singleton.mp h]
    exact Or.inr ⟨h1, Nat.le_max_right _ _, fun sh hsh => absurd (List.mem_finRange sh) hsh⟩

end Controllers

/-! ## 4. Groups -/

section Groups

variable {plan : Plan} {w : World Value} {g : Tgid} {sh : Tshid}

/-- The slots of one shard after a group has changed. -/
theorem slot_update (grp : Tgid → KVServer Value) (g : Tgid) (kv : KVServer Value) (sh : Tshid) :
    (fun g' => (Function.update grp g kv g').slot sh) =
      Function.update (fun g' => (grp g').slot sh) g (kv.slot sh) := by
  funext g'
  by_cases e : g' = g
  · subst e
    rw [Function.update_self, Function.update_self]
  · rw [Function.update_of_ne e, Function.update_of_ne e]

theorem freezeReq_inj {sh' : Tshid} {N M : ℕ}
    (h : (freezeReq plan sh N : Tgid × Req Value) = freezeReq plan sh' M) : sh = sh' ∧ N = M := by
  have h2 := congrArg Prod.snd h
  simp only [freezeReq, Req.freezeShard.injEq, FreezeShardArgs.mk.injEq] at h2
  exact h2

/-- The system after group `g` executed request `i`. -/
def executed (w : World Value) (g : Tgid) (kv : KVServer Value) (i : ℕ) (reply : Reply Value) :
    World Value :=
  { w with grp := Function.update w.grp g kv, replies := w.replies ++ [(i, reply)] }

/-- An answer that is no `Freeze` answer of the shard. -/
theorem sent_executed_of_ne {kv : KVServer Value} {i : ℕ} {reply : Reply Value} {x : Tgid × Req Value}
    (hn : w.net[i]? = some x)
    (hne : ∀ N rep, x = freezeReq plan sh N → reply ≠ .freezeShard rep) :
    (abs plan (executed w g kv i reply) sh).sent = (abs plan w sh).sent := by
  funext N st
  refine propext ⟨fun h => ?_, fun h => ?_⟩
  · obtain ⟨j, rep, hj, hr, e⟩ := h
    rcases List.mem_append.mp hr with hr | hr
    · exact ⟨j, rep, hj, hr, e⟩
    · obtain ⟨rfl, rfl⟩ := Prod.mk.inj (List.mem_singleton.mp hr)
      exact absurd rfl (hne N rep (Option.some.inj (hn.symm.trans hj)))
  · obtain ⟨j, rep, hj, hr, e⟩ := h
    exact ⟨j, rep, hj, List.mem_append_left _ hr, e⟩

/-- A `Freeze` answer of the shard. -/
theorem sent_executed {kv : KVServer Value} {i N : ℕ} {reply : FreezeShardReply Value}
    (hn : w.net[i]? = some (freezeReq plan sh N)) :
    (abs plan (executed w g kv i (.freezeShard reply)) sh).sent =
      fun M st => (abs plan w sh).sent M st ∨ (M = N ∧ st = reply.state) := by
  funext M st
  refine propext ⟨fun h => ?_, fun h => ?_⟩
  · obtain ⟨j, rep, hj, hr, e⟩ := h
    rcases List.mem_append.mp hr with hr | hr
    · exact Or.inl ⟨j, rep, hj, hr, e⟩
    · obtain ⟨rfl, hrep⟩ := Prod.mk.inj (List.mem_singleton.mp hr)
      cases hrep
      obtain ⟨_, rfl⟩ := freezeReq_inj (Option.some.inj (hn.symm.trans hj))
      exact Or.inr ⟨rfl, e.symm⟩
  · rcases h with ⟨j, rep, hj, hr, e⟩ | ⟨rfl, rfl⟩
    · exact ⟨j, rep, hj, List.mem_append_left _ hr, e⟩
    · exact ⟨i, reply, hn, List.mem_append_right _ List.mem_cons_self, rfl⟩

/-- Seen from a shard, an execution changes the group's slot, and perhaps the answers. -/
theorem abs_executed (kv : KVServer Value) (i : ℕ) (reply : Reply Value) :
    abs plan (executed w g kv i reply) sh =
      { (abs plan w sh).put g (kv.slot sh) with
        sent := (abs plan (executed w g kv i reply) sh).sent } := by
  have h := slot_update w.grp g kv sh
  simp only [abs, executed, Handover.put, h]

/-- A shard the request does not concern sees nothing. -/
theorem abs_executed_same {kv : KVServer Value} {i : ℕ} {reply : Reply Value}
    (hslot : kv.slot sh = (w.grp g).slot sh)
    (hsent : (abs plan (executed w g kv i reply) sh).sent = (abs plan w sh).sent) :
    abs plan (executed w g kv i reply) sh = abs plan w sh := by
  rw [abs_executed, hsent, hslot, show (w.grp g).slot sh = (abs plan w sh).slot g from rfl,
    put_slot_self]

/-- What an execution leaves to be shown. -/
theorem Inv.of_executed (hi : Inv plan w) {kv : KVServer Value} {i : ℕ} {reply : Reply Value}
    {req : Req Value} (hn : w.net[i]? = some (g, req))
    (hstep : ∀ sh, abs plan (executed w g kv i reply) sh = abs plan w sh ∨
      Step (plan.own sh) (abs plan w sh) (abs plan (executed w g kv i reply) sh))
    (hreply : ReplyOk plan (executed w g kv i reply) req reply) :
    Inv plan (executed w g kv i reply) := by
  have hg : Grows plan w (executed w g kv i reply) := by
    refine ⟨hstep, fun _ _ h => h, fun sh N st h => ?_, Nat.le_refl _⟩
    obtain ⟨j, rep, hj, hr, e⟩ := h
    exact ⟨j, rep, hj, List.mem_append_left _ hr, e⟩
  refine hi.grow hg (fun _ _ h => Or.inl h) (fun x hx => ?_) (fun _ h => Or.inl h)
  rcases List.mem_append.mp hx with h | h
  · exact Or.inl h
  · rw [List.mem_singleton.mp h]
    exact Or.inr ⟨g, req, hn, hreply⟩

/-- `Freeze` is executed. -/
theorem Inv.executeFreeze (hi : Inv plan w) {i : ℕ} {args : FreezeShardArgs}
    (hn : w.net[i]? = some (g, .freezeShard args)) :
    Inv plan (executed w g ((w.grp g).doFreezeShard args).1 i
      (.freezeShard ((w.grp g).doFreezeShard args).2)) := by
  obtain ⟨sh0, N⟩ := args
  obtain ⟨hm, rfl⟩ := hi.net i _ hn
  have hslot : ∀ sh, ((w.grp (plan.own sh0 (N - 1))).doFreezeShard ⟨sh0, N⟩).1.slot sh = _ :=
    fun sh => KVServer.slot_doFreezeShard ⟨sh0, N⟩
  have hstate : ((w.grp (plan.own sh0 (N - 1))).doFreezeShard ⟨sh0, N⟩).2.state = _ :=
    KVServer.state_doFreezeShard ⟨sh0, N⟩
  refine hi.of_executed hn (fun sh => ?_) ?_
  · by_cases e : sh = sh0
    · subst e
      right
      have hn' : w.net[i]? = some (freezeReq plan sh N) := hn
      rw [abs_executed, sent_executed hn', hslot, if_pos rfl, hstate]
      exact .freeze N hm.pos hm.le hm.ne
    · left
      have hs := hslot sh
      rw [if_neg e] at hs
      refine abs_executed_same hs (sent_executed_of_ne hn fun M rep hx => ?_)
      exact absurd (freezeReq_inj hx).1.symm e
  · intro sub hsub
    rw [hstate, Slot.answer] at hsub
    split at hsub
    · cases hsub
    · cases hsub
      exact KVServer.within_restrict _ _

/-- `Install` is executed. -/
theorem Inv.executeInstall (hi : Inv plan w) {i : ℕ} {args : InstallShardArgs Value}
    (hn : w.net[i]? = some (g, .installShard args)) :
    Inv plan (executed w g ((w.grp g).doInstallShard args).1 i
      (.installShard ((w.grp g).doInstallShard args).2)) := by
  obtain ⟨sh0, state, N⟩ := args
  obtain ⟨hm, rfl, hsent⟩ := hi.net i _ hn
  have hw : ∀ sub, state = some sub → KVServer.Within sh0 sub := by
    obtain ⟨j, rep, hj, hr, rfl⟩ := hsent
    obtain ⟨g', req', hj', hok⟩ := hi.replies _ hr
    cases hj.symm.trans hj'
    exact hok
  have hslot : ∀ sh, ((w.grp (plan.own sh0 N)).doInstallShard ⟨sh0, state, N⟩).1.slot sh = _ :=
    fun sh => KVServer.slot_doInstallShard hw
  have hquiet : ∀ sh kv rep, (abs plan (executed w (plan.own sh0 N) kv i
      (.installShard rep)) sh).sent = (abs plan w sh).sent :=
    fun sh kv rep => sent_executed_of_ne hn fun M rep' hx => (by cases congrArg Prod.snd hx)
  have habs : abs plan (executed w (plan.own sh0 N)
      ((w.grp (plan.own sh0 N)).doInstallShard ⟨sh0, state, N⟩).1 i
      (.installShard ((w.grp (plan.own sh0 N)).doInstallShard ⟨sh0, state, N⟩).2)) sh0 =
      (abs plan w sh0).put (plan.own sh0 N)
        (((abs plan w sh0).slot (plan.own sh0 N)).install N state) := by
    rw [abs_executed, hquiet, hslot, if_pos rfl]
    rfl
  refine hi.of_executed hn (fun sh => ?_) ?_
  · by_cases e : sh = sh0
    · subst e
      right
      rw [habs]
      exact .install N state hsent
    · left
      have hs := hslot sh
      rw [if_neg e] at hs
      exact abs_executed_same hs (hquiet _ _ _)
  · show N ≤ ((abs plan _ sh0).slot (plan.own sh0 N)).num
    rw [habs]
    exact installed_of_install state

/-- `Delete` is executed. -/
theorem Inv.executeDelete (hi : Inv plan w) {i : ℕ} {args : DeleteShardArgs}
    (hn : w.net[i]? = some (g, .deleteShard args)) :
    Inv plan (executed w g ((w.grp g).doDeleteShard args).1 i
      (.deleteShard ((w.grp g).doDeleteShard args).2)) := by
  obtain ⟨sh0, N⟩ := args
  obtain ⟨hm, rfl, hinst⟩ := hi.net i _ hn
  have hslot : ∀ sh, ((w.grp (plan.own sh0 (N - 1))).doDeleteShard ⟨sh0, N⟩).1.slot sh = _ :=
    fun sh => KVServer.slot_doDeleteShard ⟨sh0, N⟩
  have hquiet : ∀ sh kv rep, (abs plan (executed w (plan.own sh0 (N - 1)) kv i
      (.deleteShard rep)) sh).sent = (abs plan w sh).sent :=
    fun sh kv rep => sent_executed_of_ne hn fun M rep' hx => (by cases congrArg Prod.snd hx)
  have habs : abs plan (executed w (plan.own sh0 (N - 1))
      ((w.grp (plan.own sh0 (N - 1))).doDeleteShard ⟨sh0, N⟩).1 i
      (.deleteShard ((w.grp (plan.own sh0 (N - 1))).doDeleteShard ⟨sh0, N⟩).2)) sh0 =
      (abs plan w sh0).put (plan.own sh0 (N - 1))
        (((abs plan w sh0).slot (plan.own sh0 (N - 1))).delete N) := by
    rw [abs_executed, hquiet, hslot, if_pos rfl]
    rfl
  refine hi.of_executed hn (fun sh => ?_) ?_
  · by_cases e : sh = sh0
    · subst e
      right
      rw [habs]
      exact .delete N hm.pos hm.le hm.ne hinst
    · left
      have hs := hslot sh
      rw [if_neg e] at hs
      exact abs_executed_same hs (hquiet _ _ _)
  · show Settled (plan.own sh0) (abs plan _ sh0) N
    rw [habs]
    obtain ⟨H, hH⟩ := hi.holds sh0
    exact settled_of_delete hH hm.ne hinst

/-- **A request is executed**, for the first time or again. -/
theorem Inv.execute [Inhabited Value] (hi : Inv plan w) {i : ℕ} {req : Req Value}
    (hn : w.net[i]? = some (g, req)) :
    Inv plan (executed w g ((w.grp g).doOp req).1 i ((w.grp g).doOp req).2) := by
  cases req with
  | get => exact (hi.net i _ hn).elim
  | put => exact (hi.net i _ hn).elim
  | freezeShard args => exact hi.executeFreeze hn
  | installShard args => exact hi.executeInstall hn
  | deleteShard args => exact hi.executeDelete hn

/-- **A client's `Put`** is a write of the handover of its key's shard, if it is answered `OK`. -/
theorem Inv.put (hi : Inv plan w) (g : Tgid) (args : PutArgs Bytes Value) :
    Inv plan { w with
      grp := Function.update w.grp g ((w.grp g).doPut args).1
      acked := if ((w.grp g).doPut args).2.err = .ok then w.acked ++ [args] else w.acked } := by
  by_cases hok : ((w.grp g).doPut args).2.err = .ok
  · have hr := KVServer.ready_of_doPut_ok hok
    have htruth : ∀ sh, restrict sh (putEntry (applyPuts w.acked) args).1 = _ :=
      fun sh => KVServer.restrict_putEntry (applyPuts w.acked) args
    rw [if_pos hok]
    have hg : Grows plan w { w with
        grp := Function.update w.grp g ((w.grp g).doPut args).1, acked := w.acked ++ [args] } := by
      refine ⟨fun sh => ?_, fun _ _ h => h, fun _ _ _ h => h, Nat.le_refl _⟩
      have hslot := slot_update w.grp g ((w.grp g).doPut args).1 sh
      rw [KVServer.slot_doPut hr] at hslot
      by_cases e : sh = key2Shard args.key
      · right
        have habs : abs plan { w with
            grp := Function.update w.grp g ((w.grp g).doPut args).1
            acked := w.acked ++ [args] } sh =
            { (abs plan w sh).put g (((abs plan w sh).slot g).write
                fun m => (putEntry m args).1) with
              truth := (putEntry (abs plan w sh).truth args).1 } := by
          rw [if_pos e] at hslot
          simp only [abs, Handover.put, hslot, applyPuts_concat, htruth, if_pos e]
        rw [habs]
        exact .write g (fun m => (putEntry m args).1) (by rw [e]; exact hr)
      · left
        rw [if_neg e] at hslot
        simp only [abs, hslot, applyPuts_concat, htruth, if_neg e]
        congr
        exact Function.update_eq_self _ _
    exact hi.grow hg (fun _ _ h => Or.inl h) (fun _ h => Or.inl h) (fun _ h => Or.inl h)
  · rw [if_neg hok, KVServer.doPut_of_not_ok hok, Function.update_eq_self]
    exact hi

end Groups

/-! ## 5. Runs -/

section Runs

variable [Inhabited Value] {plan : Plan} {w w' : World Value}

/-- **Every action keeps the invariant.** -/
theorem inv_next (hi : Inv plan w) {act : Action Value} (h : w.next plan act = some w') :
    Inv plan w' := by
  cases act with
  | begin N =>
      by_cases hN : 1 < N ∧ (N = 2 ∨ w.Ended (N - 1))
      · simp only [World.next, if_pos hN] at h
        cases h
        exact hi.begin hN.1 hN.2
      · simp [World.next, if_neg hN] at h
  | advance c r =>
      obtain ⟨x, hx, h⟩ := Option.bind_eq_some_iff.mp h
      exact hi.turn (List.mem_of_getElem? hx) h
  | execute i =>
      obtain ⟨⟨g, req⟩, hn, h⟩ := Option.bind_eq_some_iff.mp h
      cases h
      exact hi.execute hn
  | get g args =>
      cases h
      exact hi
  | put g args =>
      cases h
      exact hi.put g args

omit [Inhabited Value] in
theorem inv_init : Inv plan (World.init : World Value) where
  holds sh := by
    have hgid : ∀ g, g ≠ plan.own sh 1 → g ≠ gid1 := fun g hg e => hg (e.trans (plan.first sh).symm)
    have hempty : restrict sh (Table.empty : Table Bytes Value) = Slot.nothing := by
      funext key
      by_cases hk : key2Shard key = sh
      · rw [restrict_of_eq _ hk]
        rfl
      · rw [restrict_of_ne _ hk]
        rfl
    refine ⟨1, Nat.le_refl _, Nat.le_refl _, fun N h1 h2 => ?_, fun g hg => ⟨?_, Nat.le_refl _⟩,
      fun N h1 h2 => absurd h2 (by omega), fun g _ => Or.inl hempty, rfl, Or.inl ⟨?_, rfl⟩,
      fun N st h => ?_⟩
    · have h2' : N < 1 := h2
      omega
    · simp [abs, World.init, startServerShardGrp, KVServer.slot, hgid g hg]
    · simp [abs, World.init, startServerShardGrp, KVServer.slot, Plan.own, plan.first]
    · obtain ⟨i, reply, hn, _⟩ := h
      simp [World.init] at hn
  net i x hx := by simp [World.init] at hx
  replies x hx := absurd hx List.not_mem_nil
  ctrl x hx := absurd hx List.not_mem_nil

theorem inv_reachable (h : w.Reachable plan) : Inv plan w :=
  run_inv (I := Inv plan) (fun _ _ ⟨_, hn⟩ hi => inv_next hi hn) h inv_init

omit [Inhabited Value] in
/-- The group that has a shard Ready holds what the acknowledged Puts lead to. -/
theorem Inv.data_of_ready (hi : Inv plan w) {sh : Tshid} {g : Tgid}
    (hg : (w.grp g).shardState sh = .ready) :
    (w.grp g).dumpShard sh = restrict sh (applyPuts w.acked) := by
  obtain ⟨H, hH⟩ := hi.holds sh
  have e : g = plan.own sh H := hH.eq_of_ready hg
  rw [e]
  exact hH.data

omit [Inhabited Value] in
/-- A Put answered OK has found the version that the acknowledged Puts lead to. -/
theorem Inv.version_of_put (hi : Inv plan w) {g : Tgid} {args : PutArgs Bytes Value}
    (hok : ((w.grp g).doPut args).2.err = .ok) :
    (applyPuts w.acked).version args.key = args.version ∧
      (applyPuts (w.acked ++ [args])).version args.key = args.version + 1 := by
  have hr := KVServer.ready_of_doPut_ok hok
  have hkey : (w.grp g).kvMap args.key = applyPuts w.acked args.key := by
    have := congrFun (hi.data_of_ready hr) args.key
    rwa [KVServer.dumpShard, restrict_of_eq _ rfl, restrict_of_eq _ rfl] at this
  rw [KVServer.reply_doPut hr, (putEntry_congr hkey).1] at hok
  rw [applyPuts_concat]
  exact ⟨(putEntry_ok hok).1, version_putEntry_ok hok⟩

/-- **Migration is safe**, in every reachable state:
    at most one group has a shard Ready; what it holds of the shard is what the acknowledged Puts
    lead to; if no group has the shard Ready, its last owner has it Frozen for the migration under
    way, with that data; and once a migration to N has ended and none to a later configuration has
    begun, every shard is Ready at its owner in `cfg N`. -/
theorem migration_safe (plan : Plan) (h : w.Reachable plan) :
    (∀ sh g g', (w.grp g).shardState sh = .ready → (w.grp g').shardState sh = .ready → g = g') ∧
    (∀ sh g, (w.grp g).shardState sh = .ready →
      (w.grp g).dumpShard sh = restrict sh (applyPuts w.acked)) ∧
    (∀ sh, (∀ g, (w.grp g).shardState sh ≠ .ready) →
      plan.own sh (w.top - 1) ≠ plan.own sh w.top ∧
      (w.grp (plan.own sh (w.top - 1))).shardState sh = .frozen ∧
      (w.grp (plan.own sh (w.top - 1))).cfgNum sh = w.top ∧
      (w.grp (plan.own sh w.top)).cfgNum sh < w.top ∧
      (w.grp (plan.own sh (w.top - 1))).dumpShard sh = restrict sh (applyPuts w.acked)) ∧
    (∀ N, w.Ended N → w.top ≤ N → ∀ sh, (w.grp (plan.own sh N)).shardState sh = .ready) := by
  have hi := inv_reachable h
  refine ⟨fun sh g g' hg hg' => ?_, fun sh g hg => ?_, fun sh hno => ?_, fun N hend htop sh => ?_⟩
  · obtain ⟨H, hH⟩ := hi.holds sh
    exact (hH.eq_of_ready hg).trans (hH.eq_of_ready hg').symm
  · exact hi.data_of_ready hg
  · obtain ⟨H, hH⟩ := hi.holds sh
    exact hH.frozen_source hno
  · obtain ⟨H, hH⟩ := hi.holds sh
    obtain ⟨_, hle, hdone⟩ := hi.ctrl _ hend
    obtain rfl : N = w.top := Nat.le_antisymm hle htop
    exact hH.ready_of_settled fun _ => hdone sh List.not_mem_nil

end Runs

/-! ### Two controllers move one shard -/

section Sample

/-- The shard of the key `a` moves to group 2, the others stay. -/
def moveOne : Plan where
  cfg N := ⟨N, fun sh => if 1 < N ∧ sh = key2Shard [97] then 2 else gid1, []⟩
  num _ := rfl
  first _ := rfl

/-- Controller `c` passes `k` shards. -/
def passShards (c k : ℕ) : List (Action ℕ) := List.replicate k (.advance c 0)

/-- A migration from its beginning to its end. -/
def migrateOnce : List (Action ℕ) :=
  [.begin 2] ++ passShards 0 (key2Shard [97]).val ++
  [.advance 0 0, .execute 0, .advance 0 0, .execute 1, .advance 0 1, .execute 2, .advance 0 2] ++
  passShards 0 (11 - (key2Shard [97]).val)

/-- A Put; a whole migration; a second controller freezes the source again and installs what it
    got; a Put at the new owner; the first `Freeze` is executed once more. -/
def sampleActions : List (Action ℕ) :=
  [.put 1 ⟨[97], 7, 0⟩] ++ migrateOnce ++ [.begin 2] ++ passShards 1 (key2Shard [97]).val ++
  [.advance 1 0, .execute 3, .advance 1 3, .execute 4, .put 2 ⟨[97], 8, 1⟩, .execute 0]

theorem migration_safe_sample :
    ∃ w : World ℕ, w.Reachable moveOne ∧ w.Ended 2 ∧ w.top = 2 ∧
      (w.grp 1).shardState (key2Shard [97]) = .frozen ∧
      (w.grp 2).shardState (key2Shard [97]) = .ready ∧
      (w.grp 2).dumpShard (key2Shard [97]) [97] = some ⟨8, 2⟩ := by
  have hplay : ((play (World.next moveOne) .init sampleActions).map fun w =>
      (decide (w.Ended 2), w.top, (w.grp 1).shardState (key2Shard [97]), applyPuts w.acked [97])) =
      some (true, 2, .frozen, some ⟨8, 2⟩) := by decide +kernel
  obtain ⟨w, hw, hv⟩ := Option.map_eq_some_iff.mp hplay
  obtain ⟨hend, htop, hfro, hput⟩ : _ ∧ _ ∧ _ ∧ _ := by simpa [Prod.ext_iff] using hv
  obtain ⟨_, hdata, _, hready⟩ := migration_safe moveOne (play_run hw)
  have hown : moveOne.own (key2Shard [97]) 2 = 2 := by decide
  have hr := hready 2 hend htop.le (key2Shard [97])
  rw [hown] at hr
  refine ⟨w, play_run hw, hend, htop, hfro, hr, ?_⟩
  rw [hdata _ _ hr, restrict_of_eq _ rfl, hput]

end Sample

end RaftLab.Shardkv1

/-
  File:      RaftLab/Shardkv1/Registers.lean
  Subject:   The registers `cfg` and `next` stay coherent, whatever the controllers and the network
             do.

  Controller.lean executes a `Put` RPC before its sender goes on, or never. Here the network may
  also keep one: an RPC that was given up on can arrive at any later time, once, also when the call
  it belongs to has long returned (`Net`). Nothing new is stored that way, since what warrants a `Put`
  warrants it for ever, and the invariant of ControllerSafety.lean carries over (`inv_netRun`).

  **`registers_coherent`** says what the registers hold, without a condition on the run. The numbers
  of a migration need one (`skipped_configuration`), those of the registers do not.
-/
import RaftLab.Shardkv1.ControllerSafety

namespace RaftLab.Shardkv1.Shardctrler

open RaftLab.Lib RaftLab.Kvsrv1 Relation

variable {first : ShardConfig} {fresh : Prop} {s s' : System} {hist hist' : List Ev} {key : Key}

/-! ## 1. RPCs that arrive late -/

/-- The controllers, and the Put RPCs that were given up on and have not arrived. -/
structure Net where
  sys : System
  late : List (PutArgs Key ShardConfig)

/-- The RPC that is on its way after an action, and that nobody waits for. -/
def Action.leaves (s : System) : Action → List (PutArgs Key ShardConfig)
  | .lose c false => (s.ctrl[c]?.bind Pc.put).toList
  | _ => []

namespace Net

inductive Action where
  | act (act : Shardctrler.Action)
  /-- The `i`-th RPC that was left arrives; nobody gets the answer. -/
  | arrive (i : ℕ)

def init (first : ShardConfig) : Net := ⟨.init first, []⟩

def next (n : Net) : Action → Option Net
  | .act act => (n.sys.next act).map fun s => ⟨s, n.late ++ act.leaves n.sys⟩
  | .arrive i => n.late[i]?.map fun args => ⟨(n.sys.exec args).1, n.late.eraseIdx i⟩

def Run : Net → Net → Prop := ReflTransGen fun n n' => ∃ act, n.next act = some n'

/-- The condition of `consecutive_migrations` on a step. -/
def NoSkip (n : Net) : Action → Prop
  | .act act => Shardctrler.NoSkip n.sys act
  | .arrive _ => True

instance (n : Net) (act : Action) : Decidable (n.NoSkip act) := by
  cases act with
  | act act => exact inferInstanceAs (Decidable (Shardctrler.NoSkip n.sys act))
  | arrive i => exact inferInstanceAs (Decidable True)

end Net

/-! ## 2. What a step does -/

theorem exec_hist (s : System) (args : PutArgs Key ShardConfig) :
    s.hist <+: (s.exec args).1.hist ∧ (s.exec args).1.ctrl = s.ctrl := by
  simp only [System.exec]
  split
  · exact ⟨List.prefix_append _ _, rfl⟩
  · exact ⟨List.prefix_rfl, rfl⟩

/-- A turn moves one controller, and adds to the history. -/
theorem turn_hist {c : ℕ} {pc : Pc} (ht : s.turn c pc = some s') :
    s.hist <+: s'.hist ∧ ∃ pc', s'.ctrl = s.ctrl.set c pc' := by
  have hexec : ∀ args pc', s.hist <+: ((s.exec args).1.goto c pc').hist ∧
      ∃ pc'', ((s.exec args).1.goto c pc').ctrl = s.ctrl.set c pc'' := by
    intro args pc'
    obtain ⟨hh, hc⟩ := exec_hist s args
    exact ⟨hh, pc', by simp only [System.goto, hc]⟩
  have hgoto : ∀ pc', s.hist <+: (s.goto c pc').hist ∧
      ∃ pc'', (s.goto c pc').ctrl = s.ctrl.set c pc'' :=
    fun pc' => ⟨List.prefix_rfl, pc', rfl⟩
  have hcall : ∀ cur new, s.hist <+: (s.callMigrate c cur new).hist ∧
      ∃ pc', (s.callMigrate c cur new).ctrl = s.ctrl.set c pc' :=
    fun cur new => ⟨List.prefix_append _ _, _, rfl⟩
  cases turned ht with
  | seedCfg | seedNext | unsure | publish => exact hexec _ _
  | look | giveUp => exact hgoto _
  | recover | found => exact hcall _ _
  | late | propose | migrated => exact ⟨List.prefix_append _ _, _, rfl⟩
  | won cur new =>
      obtain ⟨hh, hc⟩ := exec_hist s ⟨.next, new, new.num - 1⟩
      exact ⟨hh.trans (List.prefix_append _ _), _, by
        simp only [System.callMigrate, System.record, System.goto, hc]; rfl⟩

theorem next_hist {act : Action} (hn : s.next act = some s') : s.hist <+: s'.hist := by
  cases act with
  | query =>
      obtain ⟨cfg, _, rfl⟩ := Option.map_eq_some_iff.mp hn
      exact List.prefix_append _ _
  | initController =>
      cases hn
      exact List.prefix_rfl
  | changeConfigTo cfg change =>
      simp only [System.next] at hn
      split at hn
      · obtain ⟨new, _, rfl⟩ := Option.map_eq_some_iff.mp hn
        exact List.prefix_rfl
      · cases hn
  | step c =>
      obtain ⟨pc, _, ht⟩ := Option.bind_eq_some_iff.mp hn
      exact (turn_hist ht).1
  | lose c executed =>
      obtain ⟨pc, _, ht⟩ := Option.bind_eq_some_iff.mp hn
      obtain ⟨args, _, ht⟩ := Option.bind_eq_some_iff.mp ht
      cases ht
      cases executed with
      | true => exact (exec_hist s args).1
      | false => exact List.prefix_rfl

/-- What an action does with the controllers. -/
inductive Moved (s : System) : Action → List Pc → Prop where
  | same {act} : Moved s act s.ctrl
  | joins {act pc} (hpc : pc = .initCfg ∨ ∃ new, pc = .changeQuery new) : Moved s act (s.ctrl ++ [pc])
  | goes {c pc} : Moved s (.step c) (s.ctrl.set c pc)
  | resends {c executed pc args} (hpc : s.ctrl[c]? = some pc) (hput : pc.put = some args) :
      Moved s (.lose c executed) (s.ctrl.set c pc.resent)

theorem moved {act : Action} (hn : s.next act = some s') : Moved s act s'.ctrl := by
  cases act with
  | query =>
      obtain ⟨cfg, _, rfl⟩ := Option.map_eq_some_iff.mp hn
      exact .same
  | initController =>
      cases hn
      exact .joins (.inl rfl)
  | changeConfigTo cfg change =>
      simp only [System.next] at hn
      split at hn
      · obtain ⟨new, _, rfl⟩ := Option.map_eq_some_iff.mp hn
        exact .joins (.inr ⟨new, rfl⟩)
      · cases hn
  | step c =>
      obtain ⟨pc, _, ht⟩ := Option.bind_eq_some_iff.mp hn
      obtain ⟨_, pc', hctrl⟩ := turn_hist ht
      rw [hctrl]
      exact .goes
  | lose c executed =>
      obtain ⟨pc, hpc, ht⟩ := Option.bind_eq_some_iff.mp hn
      obtain ⟨args, hput, ht⟩ := Option.bind_eq_some_iff.mp ht
      cases ht
      have hctrl : ((if executed then (s.exec args).1 else s).goto c pc.resent).ctrl =
          s.ctrl.set c pc.resent := by
        cases executed with
        | true => simp [System.goto, (exec_hist s args).2]
        | false => rfl
      rw [hctrl]
      exact .resends hpc hput

namespace Net

variable {n n' : Net}

theorem hist_next {act : Action} (hn : n.next act = some n') : n.sys.hist <+: n'.sys.hist := by
  cases act with
  | act act =>
      obtain ⟨s, hs, rfl⟩ := Option.map_eq_some_iff.mp hn
      exact next_hist hs
  | arrive i =>
      obtain ⟨args, _, rfl⟩ := Option.map_eq_some_iff.mp hn
      exact (exec_hist n.sys args).1

theorem hist_run (h : Run n n') : n.sys.hist <+: n'.sys.hist := by
  induction h with
  | refl => exact List.prefix_rfl
  | tail _ hs ih =>
      obtain ⟨act, hn⟩ := hs
      exact ih.trans (hist_next hn)

end Net

/-! ## 3. The invariant with late RPCs -/

/-- A `Put` that may be executed at any time. -/
structure LateOk (first : ShardConfig) (fresh : Prop) (hist : List Ev)
    (args : PutArgs Key ShardConfig) : Prop where
  put : PutOk first hist args
  warranted : Warranted first fresh hist (.stored args.key args.value)

theorem PutOk.mono {args : PutArgs Key ShardConfig} (h : PutOk first hist args)
    (hsub : hist ⊆ hist') : PutOk first hist' args := by
  cases h with
  | seedCfg => exact .seedCfg
  | seedNext hc => exact .seedNext (hsub hc)
  | propose hc hn => exact .propose (hsub hc) hn
  | publish hc => exact .publish (hsub hc)

theorem LateOk.mono {args : PutArgs Key ShardConfig} (h : LateOk first fresh hist args)
    (hsub : hist ⊆ hist') : LateOk first fresh hist' args := by
  refine ⟨h.put.mono hsub, ?_⟩
  have hw := h.warranted
  obtain ⟨key, cfg, ver⟩ := args
  cases key with
  | next => trivial
  | cfg =>
      rcases hw with hf | ⟨cur, hc, hm⟩
      · exact .inl hf
      · exact .inr ⟨cur, hc.mono hsub, hsub hm⟩

/-- How far `InitConfig` has come, and what it has left in the history. -/
def Seeded (first : ShardConfig) (hist : List Ev) : Pc → Prop
  | .initConfigCfg _ _ => True
  | .initConfigNext _ _ => .stored .cfg first ∈ hist
  | .done => ∀ key, .stored key first ∈ hist
  | _ => False

theorem Seeded.mono {pc : Pc} (h : Seeded first hist pc) (hsub : hist ⊆ hist') :
    Seeded first hist' pc := by
  cases pc with
  | initConfigCfg | initCfg | initNext | changeQuery | putNext | rereadNext | migrate | putCfg =>
      exact h
  | initConfigNext => exact hsub h
  | done => exact fun key => hsub (h key)

structure NetInv (first : ShardConfig) (fresh : Prop) (n : Net) : Prop where
  sys : Inv first fresh n.sys
  late : ∀ args ∈ n.late, LateOk first fresh n.sys.hist args
  /-- The first controller is the one that runs `InitConfig`. -/
  seeded : ∃ pc, n.sys.ctrl[0]? = some pc ∧ Seeded first n.sys.hist pc

/-- A turn of the controller that runs `InitConfig`. -/
theorem Inv.seeded_turn (h : Inv first fresh s) (h1 : first.num = 1) {pc : Pc}
    (hlt : 0 < s.ctrl.length) (hpc : PcOk first fresh s.hist pc) (hs : Seeded first s.hist pc)
    (ht : s.turn 0 pc = some s') : ∃ pc', s'.ctrl[0]? = some pc' ∧ Seeded first s'.hist pc' := by
  have hset : ∀ args pc', ((s.exec args).1.goto 0 pc').ctrl[0]? = some pc' := by
    intro args pc'
    simp only [System.goto, (exec_hist s args).2]
    exact List.getElem?_set_self hlt
  -- the `Put` of version 0 has stored the first configuration, or it was there
  have hput : ∀ key, pc.put = some ⟨key, first, 0⟩ →
      .stored key first ∈ (s.exec ⟨key, first, 0⟩).1.hist := by
    intro key hput
    obtain ⟨_, hsub, hst⟩ := h.exec h1 hpc hput
    by_cases hok : (putEntry s.kv ⟨key, first, 0⟩).2.err = .ok
    · exact hst hok
    · exact hsub (h.regs.seeded hok)
  cases pc with
  | initConfigCfg cfg r =>
      cases ht
      cases hpc
      exact ⟨_, hset _ _, hput .cfg rfl⟩
  | initConfigNext cfg r =>
      cases ht
      obtain ⟨rfl, hc⟩ := hpc
      refine ⟨_, hset _ _, fun key => ?_⟩
      cases key with
      | cfg => exact (exec_hist s _).1.subset hc
      | next => exact hput .next rfl
  | done => cases ht
  | initCfg | initNext | changeQuery | putNext | rereadNext | migrate | putCfg => cases hs

theorem NetInv.seeded_next {n : Net} (h : NetInv first fresh n) (h1 : first.num = 1) {act : Action}
    (hn : n.sys.next act = some s') : ∃ pc, s'.ctrl[0]? = some pc ∧ Seeded first s'.hist pc := by
  obtain ⟨pc, hpc, hs⟩ := h.seeded
  have hlt : 0 < n.sys.ctrl.length := (List.getElem?_eq_some_iff.mp hpc).1
  have hs' := hs.mono (next_hist hn).subset
  generalize hctrl : s'.ctrl = ctrl
  cases hctrl ▸ moved hn with
  | same => exact ⟨pc, hpc, hs'⟩
  | joins => exact ⟨pc, by rw [List.getElem?_append_left hlt, hpc], hs'⟩
  | @goes c =>
      by_cases hc : c = 0
      · subst hc
        obtain ⟨pc₁, hpc₁, ht⟩ := Option.bind_eq_some_iff.mp hn
        cases hpc.symm.trans hpc₁
        rw [← hctrl]
        exact h.sys.seeded_turn h1 hlt (h.sys.ctrl pc (List.mem_of_getElem? hpc)) hs ht
      · exact ⟨pc, by rw [List.getElem?_set_ne hc, hpc], hs'⟩
  | @resends c _ pc₁ args hpc₁ hput =>
      by_cases hc : c = 0
      · subst hc
        cases hpc.symm.trans hpc₁
        refine ⟨pc.resent, List.getElem?_set_self hlt, ?_⟩
        cases pc with
        | initConfigCfg | initConfigNext | putNext | putCfg => exact hs'
        | initCfg | initNext | changeQuery | rereadNext | migrate | done => cases hput
      · exact ⟨pc, by rw [List.getElem?_set_ne hc, hpc], hs'⟩

/-- What an action leaves on its way is a `Put` of a controller. -/
theorem NetInv.leaves {n : Net} (h : NetInv first fresh n) {act : Action}
    {args : PutArgs Key ShardConfig} (hargs : args ∈ act.leaves n.sys) :
    LateOk first fresh n.sys.hist args := by
  unfold Action.leaves at hargs
  split at hargs
  next c =>
    obtain ⟨pc, hpc, hput⟩ := Option.bind_eq_some_iff.mp (Option.mem_toList.mp hargs)
    obtain ⟨hp, hw⟩ := Inv.putOk (h.sys.ctrl pc (List.mem_of_getElem? hpc)) hput
    exact ⟨hp, hw⟩
  next => cases hargs

theorem netInv_init (first : ShardConfig) : NetInv first fresh (.init first) :=
  ⟨inv_init first, fun _ h => (by cases h), _, rfl, trivial⟩

theorem netInv_next (h1 : first.num = 1) {n n' : Net} {act : Net.Action} (h : NetInv first fresh n)
    (hfresh : fresh → n.NoSkip act) (hn : n.next act = some n') : NetInv first fresh n' := by
  have hsub : n.sys.hist ⊆ n'.sys.hist := (Net.hist_next hn).subset
  cases act with
  | act act =>
      obtain ⟨s, hs, rfl⟩ := Option.map_eq_some_iff.mp hn
      refine ⟨inv_next h1 h.sys hfresh hs, fun args hargs => ?_, h.seeded_next h1 hs⟩
      rcases List.mem_append.mp hargs with hold | hnew
      · exact (h.late args hold).mono hsub
      · exact (h.leaves hnew).mono hsub
  | arrive i =>
      obtain ⟨args, hargs, rfl⟩ := Option.map_eq_some_iff.mp hn
      have hok := h.late args (List.mem_of_getElem? hargs)
      obtain ⟨pc, hpc, hs⟩ := h.seeded
      refine ⟨(h.sys.execWarranted h1 hok.put hok.warranted).1, fun args' hmem => ?_, pc, ?_,
        hs.mono hsub⟩
      · exact (h.late args' (List.mem_of_mem_eraseIdx hmem)).mono hsub
      · rw [(exec_hist n.sys args).2, hpc]

theorem inv_netRun (h1 : first.num = 1) {n : Net} (h : Net.Run (.init first) n) :
    NetInv first False n := by
  refine run_inv (fun n n' hs hi => ?_) h (netInv_init first)
  obtain ⟨act, hn⟩ := hs
  exact netInv_next h1 hi False.elim hn

/-! ## 4. The registers -/

/-- What a register holds was stored last, and its version is its number. -/
theorem Regs.entry {kv : Registers} (h : Regs first kv hist) {e : KvEntry ShardConfig}
    (he : kv key = some e) :
    (stored key hist).getLast? = some e.value ∧ e.version = (stored key hist).length ∧
      e.version = e.value.num := by
  rw [h.value key] at he
  obtain ⟨c, hc, rfl⟩ := Option.map_eq_some_iff.mp he
  exact ⟨hc, rfl, (h.num_of_last hc).symm⟩

theorem Regs.holds {kv : Registers} (h : Regs first kv hist) {cfg : ShardConfig}
    (hc : .stored key cfg ∈ hist) : ∃ e, kv key = some e := by
  cases hl : (stored key hist).getLast? with
  | none =>
      have := mem_stored.mpr hc
      rw [List.getLast?_eq_none_iff.mp hl] at this
      cases this
  | some c => exact ⟨_, by rw [h.value key, hl]; rfl⟩

/-- The number in a register only grows. -/
theorem Regs.grows {kv kv' : Registers} (h : Regs first kv hist) (h' : Regs first kv' hist')
    (hpre : hist <+: hist') {e : KvEntry ShardConfig} (he : kv key = some e) :
    ∃ e', kv' key = some e' ∧ e.value.num ≤ e'.value.num := by
  obtain ⟨hlast, hlen, hnum⟩ := h.entry he
  have hc : .stored key e.value ∈ hist := mem_stored.mp (List.mem_of_getLast? hlast)
  obtain ⟨e', he'⟩ := h'.holds (hpre.subset hc)
  obtain ⟨_, hlen', hnum'⟩ := h'.entry he'
  have hle : (stored key hist).length ≤ (stored key hist').length :=
    (hpre.filterMap _).length_le
  exact ⟨e', he', by omega⟩

/-- **The configuration registers stay coherent**, in every state that controllers and network
    reach. The version of a register is the number of the configuration in it. Once `InitConfig` has
    returned, both hold one, and the number of `next` is that of `cfg` or the one after it. Both
    numbers only grow. Two configurations that were ever stored under one number are equal. And who
    gets as far as `migrate` with a new configuration finds it stored in `next` before, so it is the
    one configuration under its number. -/
theorem registers_coherent (h1 : first.num = 1) {n : Net} (h : Net.Run (.init first) n) :
    (∀ key e, n.sys.kv key = some e →
      e.version = e.value.num ∧ .stored key e.value ∈ n.sys.hist) ∧
    (n.sys.ctrl[0]? = some .done → ∀ key, ∃ e, n.sys.kv key = some e) ∧
    (∀ cur nx, n.sys.kv .cfg = some cur → n.sys.kv .next = some nx →
      cur.value.num ≤ nx.value.num ∧ nx.value.num ≤ cur.value.num + 1) ∧
    (∀ n', Net.Run n n' → ∀ key e, n.sys.kv key = some e →
      ∃ e', n'.sys.kv key = some e' ∧ e.value.num ≤ e'.value.num) ∧
    (∀ key key' cfg cfg', .stored key cfg ∈ n.sys.hist → .stored key' cfg' ∈ n.sys.hist →
      cfg.num = cfg'.num → cfg = cfg') ∧
    (∀ pre post cur new, n.sys.hist = pre ++ .migrating cur new :: post →
      .stored .next new ∈ pre ∧
        ∀ key cfg, .stored key cfg ∈ n.sys.hist → cfg.num = new.num → cfg = new) := by
  have hi := inv_netRun h1 h
  have hregs := hi.sys.regs
  refine ⟨fun key e he => ?_, fun hdone key => ?_, fun cur nx hc hn => ?_,
    fun n' hrun key e he => ?_, fun key key' cfg cfg' hc hc' hn => hregs.eq_of_num hc hc' hn,
    fun pre post cur new e => ?_⟩
  · obtain ⟨hlast, _, hnum⟩ := hregs.entry he
    exact ⟨hnum, mem_stored.mp (List.mem_of_getLast? hlast)⟩
  · obtain ⟨pc, hpc, hs⟩ := hi.seeded
    cases hdone.symm.trans hpc
    exact hregs.holds (hs key)
  · exact hregs.next_le (hregs.entry hc).1 (hregs.entry hn).1
  · exact hregs.grows (inv_netRun h1 (h.trans hrun)).sys.regs (Net.hist_run hrun) he
  · have hw : Called False pre cur new := hi.sys.hist pre _ post e
    have hmem : .stored .next new ∈ n.sys.hist := by
      rw [e]
      exact List.mem_append_left _ hw.proposed
    exact ⟨hw.proposed, fun key cfg hc hn => hregs.eq_of_num hc hmem hn⟩

section Sample

/-- Two controllers propose a second configuration each. The first one's RPC is given up on, the
    second one's is executed; the first sends again, is told `ErrMaybe`, reads the other's
    configuration and stops; then the RPC it gave up on arrives, and changes nothing. -/
def race : List Net.Action :=
  [.act (.step 0), .act (.step 0), .act .query,
    .act (.changeConfigTo cfg1 (.join [(2, [[50]])])),
    .act (.changeConfigTo cfg1 (.join [(3, [[51]])])), .act (.step 1), .act (.step 2),
    .act (.lose 1 false), .act (.step 2), .act (.step 1), .act (.step 1), .arrive 0, .act (.step 2)]

theorem registers_coherent_sample :
    ∃ n, Net.Run (.init cfg1) n ∧ cfg1.num = 1 ∧ n.sys.ctrl[0]? = some .done ∧
      .stored .next (joined cfg1 3 51) ∈ n.sys.hist ∧ .stored .next cfg2 ∉ n.sys.hist ∧
      ∃ e, n.sys.kv .next = some e ∧ e.version = e.value.num := by
  have h1 : cfg1.num = 1 := by decide +kernel
  have hplay : ((play Net.next (.init cfg1) race).map fun n =>
      decide (n.sys.ctrl[0]? = some .done ∧ .stored .next (joined cfg1 3 51) ∈ n.sys.hist ∧
        .stored .next cfg2 ∉ n.sys.hist)) = some true := by decide +kernel
  obtain ⟨n, hn, hv⟩ := Option.map_eq_some_iff.mp hplay
  obtain ⟨hdone, hst, hno⟩ := of_decide_eq_true hv
  obtain ⟨hver, hholds, _⟩ := registers_coherent h1 (play_run hn)
  obtain ⟨e, he⟩ := hholds hdone .next
  exact ⟨n, play_run hn, h1, hdone, hst, hno, e, he, (hver .next e he).1⟩

end Sample

end RaftLab.Shardkv1.Shardctrler

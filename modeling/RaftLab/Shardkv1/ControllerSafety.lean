/-
  File:      RaftLab/Shardkv1/ControllerSafety.lean
  Subject:   Which configurations the controllers of Controller.lean migrate between.

  The configurations stored in a register are numbered from 1 without a gap, and those of `cfg` are
  the first ones of `next` (`Regs`). Every event of the history is warranted by earlier ones
  (`Warranted`): a migration is called from a published configuration to a proposed one, and a
  configuration is published after a migration to it has ended.

  That the two numbers of a migration are consecutive holds when `InitController` reads `next`
  before its `cfg` is two steps behind (`NoSkip`): **`consecutive_migrations`**. Its two reads are
  two steps, and without the condition it fails (`skipped_configuration`).
-/
import RaftLab.Shardkv1.Controller

namespace RaftLab.Shardkv1.Shardctrler

open RaftLab.Lib RaftLab.Kvsrv1 Relation

variable {first cfg cur new : ShardConfig} {kv : Registers} {hist hist' : List Ev} {key : Key}

theorem Change.num {change : Change} (h : change.apply cfg = some new) :
    new.num = cfg.num + 1 := by
  cases change with
  | join servers =>
      unfold Change.apply at h
      dsimp only at h
      split at h
      next new' hj =>
        cases h
        exact ShardConfig.joinBalance_num hj
      next => cases h
  | leave gids =>
      unfold Change.apply at h
      dsimp only at h
      split at h
      next new' hj =>
        cases h
        exact ShardConfig.leaveBalance_num hj
      next => cases h

/-! ## 1. The registers and their history -/

/-- The configurations stored in a register, in order. -/
def stored (key : Key) (hist : List Ev) : List ShardConfig :=
  hist.filterMap fun ev =>
    match ev with
    | .stored k cfg => if k = key then some cfg else none
    | _ => none

theorem mem_stored : cfg ∈ stored key hist ↔ .stored key cfg ∈ hist := by
  simp only [stored, List.mem_filterMap]
  refine ⟨fun h => ?_, fun h => ⟨_, h, by simp⟩⟩
  obtain ⟨ev, hev, he⟩ := h
  cases ev with
  | stored k c =>
      by_cases hk : k = key
      · simp only [hk, if_true, Option.some.injEq] at he
        rwa [hk, he] at hev
      · simp [hk] at he
  | queried | migrating | migrated => cases he

theorem stored_concat_self : stored key (hist ++ [.stored key cfg]) = stored key hist ++ [cfg] := by
  simp [stored]

theorem stored_concat_of_ne {ev : Ev} (h : ∀ cfg, ev ≠ .stored key cfg) :
    stored key (hist ++ [ev]) = stored key hist := by
  cases ev with
  | stored k c =>
      have hk : k ≠ key := fun e => h c (by rw [e])
      simp [stored, hk]
  | queried | migrating | migrated => simp [stored]

/-- What the registers hold, by what was stored in them. -/
structure Regs (first : ShardConfig) (kv : Registers) (hist : List Ev) : Prop where
  value : ∀ key, kv key = (stored key hist).getLast?.map fun c => ⟨c, (stored key hist).length⟩
  num : ∀ key (i : ℕ) (c : ShardConfig), (stored key hist)[i]? = some c → c.num = i + 1
  head : ∀ key c, (stored key hist)[0]? = some c → c = first
  /-- `next` is written before `cfg`, but for the first configuration. -/
  chain : stored .cfg hist <+: stored .next hist ∨
    (stored .next hist = [] ∧ stored .cfg hist = [first])
  near : (stored .next hist).length ≤ (stored .cfg hist).length + 1

namespace Regs

theorem version (h : Regs first kv hist) (key : Key) :
    Table.version kv key = (stored key hist).length := by
  unfold Table.version
  rw [h.value key]
  cases hl : (stored key hist).getLast? with
  | none => rw [List.getLast?_eq_none_iff.mp hl]; rfl
  | some c => rfl

theorem read (h : Regs first kv hist) (key : Key) :
    (readCfg kv key).1 = (stored key hist).getLast? := by
  unfold readCfg getEntry
  rw [h.value key]
  cases (stored key hist).getLast? with
  | none => rfl
  | some c => rfl

theorem query (h : Regs first kv hist) : query kv = (stored .cfg hist).getLast? := by
  unfold Shardctrler.query getEntry
  rw [h.value .cfg]
  cases (stored .cfg hist).getLast? with
  | none => rfl
  | some c => rfl

theorem num_of_last (h : Regs first kv hist) (hl : (stored key hist).getLast? = some cfg) :
    cfg.num = (stored key hist).length := by
  have hne : stored key hist ≠ [] := fun e => by simp [e] at hl
  have hpos := List.length_pos_iff.mpr hne
  rw [List.getLast?_eq_getElem?] at hl
  have := h.num key _ _ hl
  omega

/-- A stored configuration sits at its number. -/
theorem at_num (h : Regs first kv hist) (hc : .stored key cfg ∈ hist) :
    1 ≤ cfg.num ∧ cfg.num ≤ (stored key hist).length ∧
      (stored key hist)[cfg.num - 1]? = some cfg := by
  obtain ⟨i, hi, e⟩ := List.mem_iff_getElem.mp (mem_stored.mpr hc)
  have hget : (stored key hist)[i]? = some cfg := by rw [List.getElem?_eq_getElem hi, e]
  have hnum := h.num key i cfg hget
  refine ⟨by omega, by omega, ?_⟩
  rw [hnum]
  exact hget

/-- What is published was proposed, or is the first configuration. -/
theorem cfg_getElem? (h : Regs first kv hist) {i : ℕ} {c c' : ShardConfig}
    (hc : (stored .cfg hist)[i]? = some c) (hc' : (stored .next hist)[i]? = some c') : c = c' := by
  rcases h.chain with hp | ⟨he, _⟩
  · obtain ⟨r, hr⟩ := hp
    have hi : i < (stored .cfg hist).length := (List.getElem?_eq_some_iff.mp hc).1
    rw [← hr, List.getElem?_append_left hi, hc] at hc'
    exact Option.some.inj hc'
  · rw [he] at hc'
    cases hc'

/-- **One configuration for each number.** -/
theorem eq_of_num (h : Regs first kv hist) {key' : Key} {cfg' : ShardConfig}
    (hc : .stored key cfg ∈ hist) (hc' : .stored key' cfg' ∈ hist) (hn : cfg.num = cfg'.num) :
    cfg = cfg' := by
  obtain ⟨_, _, h1⟩ := h.at_num hc
  obtain ⟨_, _, h2⟩ := h.at_num hc'
  rw [hn] at h1
  cases key with
  | cfg =>
      cases key' with
      | cfg => exact Option.some.inj (h1.symm.trans h2)
      | next => exact h.cfg_getElem? h1 h2
  | next =>
      cases key' with
      | cfg => exact (h.cfg_getElem? h2 h1).symm
      | next => exact Option.some.inj (h1.symm.trans h2)

/-- The number proposed is the published one or the one after it. -/
theorem next_le (h : Regs first kv hist) {nx : ShardConfig}
    (hc : (stored .cfg hist).getLast? = some cfg) (hn : (stored .next hist).getLast? = some nx) :
    cfg.num ≤ nx.num ∧ nx.num ≤ cfg.num + 1 := by
  rw [h.num_of_last hc, h.num_of_last hn]
  refine ⟨?_, h.near⟩
  rcases h.chain with hp | ⟨he, _⟩
  · exact hp.length_le
  · rw [he] at hn
    cases hn

/-- A `Put` of version 0 fails only where something is stored. -/
theorem seeded (h : Regs first kv hist)
    (hno : (putEntry kv ⟨key, cfg, 0⟩).2.err ≠ .ok) : .stored key first ∈ hist := by
  cases hs : stored key hist with
  | nil =>
      have hkv : kv key = none := by rw [h.value key, hs]; rfl
      simp [putEntry, hkv] at hno
  | cons c l =>
      have hc : c = first := h.head key c (by rw [hs]; rfl)
      rw [hc] at hs
      exact mem_stored.mp (by rw [hs]; exact List.mem_cons_self)

theorem quiet (h : Regs first kv hist) {ev : Ev} (hev : ∀ key cfg, ev ≠ .stored key cfg) :
    Regs first kv (hist ++ [ev]) := by
  have e : ∀ key, stored key (hist ++ [ev]) = stored key hist :=
    fun key => stored_concat_of_ne (hev key)
  constructor
  · simpa only [e] using h.value
  · simpa only [e] using h.num
  · simpa only [e] using h.head
  · simpa only [e] using h.chain
  · simpa only [e] using h.near

end Regs

/-- The Puts that controllers send. -/
inductive PutOk (first : ShardConfig) (hist : List Ev) : PutArgs Key ShardConfig → Prop where
  | seedCfg : PutOk first hist ⟨.cfg, first, 0⟩
  | seedNext (hc : .stored .cfg first ∈ hist) : PutOk first hist ⟨.next, first, 0⟩
  | propose {cur new : ShardConfig} (hc : .stored .cfg cur ∈ hist) (hn : cur.num + 1 = new.num) :
      PutOk first hist ⟨.next, new, new.num - 1⟩
  | publish {new : ShardConfig} (hc : .stored .next new ∈ hist) :
      PutOk first hist ⟨.cfg, new, new.num - 1⟩

namespace Regs

variable {args : PutArgs Key ShardConfig}

/-- A `Put` that finds its version stores the next number. -/
theorem put_num (h : Regs first kv hist) (h1 : first.num = 1) (hp : PutOk first hist args)
    (hver : (stored args.key hist).length = args.version) :
    args.value.num = args.version + 1 ∧ (args.version = 0 → args.value = first) := by
  cases hp with
  | seedCfg => exact ⟨h1, fun _ => rfl⟩
  | seedNext hc => exact ⟨h1, fun _ => rfl⟩
  | propose hc hn =>
      have hpos := (h.at_num hc).1
      dsimp only
      exact ⟨by omega, fun h0 => by omega⟩
  | publish hc =>
      obtain ⟨hpos, _, hat⟩ := h.at_num hc
      refine ⟨by dsimp only; omega, fun h0 => ?_⟩
      dsimp only at h0
      rw [h0] at hat
      exact h.head _ _ hat

theorem put_chain (h : Regs first kv hist) (hp : PutOk first hist args)
    (hver : (stored args.key hist).length = args.version) :
    (stored .cfg (hist ++ [.stored args.key args.value]) <+:
        stored .next (hist ++ [.stored args.key args.value]) ∨
      (stored .next (hist ++ [.stored args.key args.value]) = [] ∧
        stored .cfg (hist ++ [.stored args.key args.value]) = [first])) ∧
    (stored .next (hist ++ [.stored args.key args.value])).length ≤
      (stored .cfg (hist ++ [.stored args.key args.value])).length + 1 := by
  have hcfg : ∀ c, stored .next (hist ++ [.stored .cfg c]) = stored .next hist :=
    fun c => stored_concat_of_ne fun _ e => by cases e
  have hnext : ∀ c, stored .cfg (hist ++ [.stored .next c]) = stored .cfg hist :=
    fun c => stored_concat_of_ne fun _ e => by cases e
  have hnear := h.near
  cases hp with
  | seedCfg =>
      simp only [hcfg, stored_concat_self, List.length_append, List.length_singleton] at hver ⊢
      refine ⟨?_, by omega⟩
      rw [List.eq_nil_of_length_eq_zero hver]
      cases hs : stored .next hist with
      | nil => exact .inr ⟨rfl, rfl⟩
      | cons c l =>
          have hc : c = first := h.head .next c (by rw [hs]; rfl)
          exact .inl ⟨l, by rw [hc]; rfl⟩
  | seedNext hc =>
      simp only [hnext, stored_concat_self, List.length_append, List.length_singleton] at hver ⊢
      have hnil := List.eq_nil_of_length_eq_zero hver
      refine ⟨.inl ?_, by omega⟩
      rcases h.chain with hpre | ⟨_, he⟩
      · rw [hnil, List.prefix_nil] at hpre
        have := mem_stored.mpr hc
        rw [hpre] at this
        cases this
      · rw [hnil, he]
        exact List.prefix_rfl
  | propose hc hn =>
      simp only [hnext, stored_concat_self, List.length_append, List.length_singleton] at hver ⊢
      obtain ⟨hpos, hle, _⟩ := h.at_num hc
      refine ⟨.inl ?_, by omega⟩
      rcases h.chain with hpre | ⟨he, _⟩
      · exact hpre.trans (List.prefix_append _ _)
      · rw [he] at hver
        simp at hver
        omega
  | publish hc =>
      simp only [hcfg, stored_concat_self, List.length_append, List.length_singleton] at hver ⊢
      refine ⟨.inl ?_, by omega⟩
      rcases h.chain with hpre | ⟨he, _⟩
      · obtain ⟨r, hr⟩ := hpre
        have hat := (h.at_num hc).2.2
        rw [← hver, ← hr, List.getElem?_append_right (Nat.le_refl _), Nat.sub_self] at hat
        cases r with
        | nil => cases hat
        | cons c r =>
            cases hat
            exact ⟨r, by rw [← hr]; simp⟩
      · have := mem_stored.mpr hc
        rw [he] at this
        cases this

/-- **A successful `Put` of a controller keeps the registers in order.** -/
theorem put (h : Regs first kv hist) (h1 : first.num = 1) (hp : PutOk first hist args)
    (hok : (putEntry kv args).2.err = .ok) :
    Regs first (putEntry kv args).1 (hist ++ [.stored args.key args.value]) := by
  obtain ⟨hver, hkv⟩ := putEntry_ok hok
  rw [h.version] at hver
  obtain ⟨hnum, hhead⟩ := h.put_num h1 hp hver
  obtain ⟨hchain, hnear⟩ := h.put_chain hp hver
  have hother : ∀ key, key ≠ args.key →
      stored key (hist ++ [.stored args.key args.value]) = stored key hist := by
    intro key hk
    refine stored_concat_of_ne fun _ e => ?_
    cases e
    exact hk rfl
  -- what an index of the longer list holds is old, or the value at the end
  have hget : ∀ (i : ℕ) (c : ShardConfig), (stored args.key hist ++ [args.value])[i]? = some c →
      (stored args.key hist)[i]? = some c ∨ (i = args.version ∧ c = args.value) := by
    intro i c hc
    by_cases hi : i < (stored args.key hist).length
    · rw [List.getElem?_append_left hi] at hc
      exact .inl hc
    · rw [List.getElem?_append_right (by omega)] at hc
      obtain ⟨hlt, he⟩ := List.getElem?_eq_some_iff.mp hc
      simp only [List.length_singleton] at hlt
      exact .inr ⟨by omega, by simp at he; exact he.symm⟩
  refine ⟨fun key => ?_, fun key i c hc => ?_, fun key c hc => ?_, hchain, hnear⟩
  · rw [hkv]
    by_cases hk : key = args.key
    · subst hk
      rw [Function.update_self, stored_concat_self]
      simp [hver]
    · rw [Function.update_of_ne hk, hother key hk]
      exact h.value key
  · by_cases hk : key = args.key
    · subst hk
      rw [stored_concat_self] at hc
      rcases hget i c hc with hold | ⟨rfl, rfl⟩
      · exact h.num _ i c hold
      · exact hnum
    · rw [hother key hk] at hc
      exact h.num key i c hc
  · by_cases hk : key = args.key
    · subst hk
      rw [stored_concat_self] at hc
      rcases hget 0 c hc with hold | ⟨h0, rfl⟩
      · exact h.head _ c hold
      · exact hhead h0.symm
    · rw [hother key hk] at hc
      exact h.head key c hc

end Regs

/-! ## 2. The invariant -/

variable {fresh : Prop} {s s' : System}

/-- What is known of a migration that was called. With `fresh` no number is skipped. -/
structure Called (fresh : Prop) (hist : List Ev) (cur new : ShardConfig) : Prop where
  published : .stored .cfg cur ∈ hist
  proposed : .stored .next new ∈ hist
  num : fresh → cur.num + 1 = new.num

/-- What comes before an event. -/
def Warranted (first : ShardConfig) (fresh : Prop) (pre : List Ev) : Ev → Prop
  | .queried cfg => .stored .cfg cfg ∈ pre
  | .stored .next _ => True
  | .stored .cfg cfg => cfg = first ∨ ∃ cur, Called fresh pre cur cfg ∧ .migrated cur cfg ∈ pre
  | .migrating cur new => Called fresh pre cur new
  | .migrated cur new => .migrating cur new ∈ pre

/-- What a controller has seen. -/
def PcOk (first : ShardConfig) (fresh : Prop) (hist : List Ev) : Pc → Prop
  | .initConfigCfg cfg _ => cfg = first
  | .initConfigNext cfg _ => cfg = first ∧ .stored .cfg first ∈ hist
  | .initCfg => True
  | .initNext cur => ∀ c, cur = some c → .stored .cfg c ∈ hist
  | .changeQuery new => ∃ cfg, .stored .cfg cfg ∈ hist ∧ cfg.num + 1 = new.num
  | .putNext cur new _ => .stored .cfg cur ∈ hist ∧ cur.num + 1 = new.num
  | .rereadNext cur new => .stored .cfg cur ∈ hist ∧ cur.num + 1 = new.num
  | .migrate cur new => Called fresh hist cur new ∧ .migrating cur new ∈ hist
  | .putCfg new _ => ∃ cur, Called fresh hist cur new ∧ .migrated cur new ∈ hist
  | .done => True

theorem Called.mono (h : Called fresh hist cur new) (hsub : hist ⊆ hist') :
    Called fresh hist' cur new := ⟨hsub h.published, hsub h.proposed, h.num⟩

theorem PcOk.mono {pc : Pc} (h : PcOk first fresh hist pc) (hsub : hist ⊆ hist') :
    PcOk first fresh hist' pc := by
  cases pc with
  | initConfigCfg cfg r => exact h
  | initConfigNext cfg r => exact ⟨h.1, hsub h.2⟩
  | initCfg => trivial
  | initNext cur => exact fun c hc => hsub (h c hc)
  | changeQuery new =>
      obtain ⟨cfg, hc, hn⟩ := h
      exact ⟨cfg, hsub hc, hn⟩
  | putNext cur new r => exact ⟨hsub h.1, h.2⟩
  | rereadNext cur new => exact ⟨hsub h.1, h.2⟩
  | migrate cur new => exact ⟨h.1.mono hsub, hsub h.2⟩
  | putCfg new r =>
      obtain ⟨cur, hc, hm⟩ := h
      exact ⟨cur, hc.mono hsub, hsub hm⟩
  | done => trivial

structure Inv (first : ShardConfig) (fresh : Prop) (s : System) : Prop where
  regs : Regs first s.kv s.hist
  ctrl : ∀ pc ∈ s.ctrl, PcOk first fresh s.hist pc
  hist : Justified (Warranted first fresh) s.hist

namespace Inv

theorem goto (h : Inv first fresh s) (c : ℕ) {pc : Pc} (hpc : PcOk first fresh s.hist pc) :
    Inv first fresh (s.goto c pc) := by
  refine ⟨h.regs, fun pc' hmem => ?_, h.hist⟩
  rcases List.mem_or_eq_of_mem_set hmem with hold | rfl
  · exact h.ctrl pc' hold
  · exact hpc

theorem record (h : Inv first fresh s) {ev : Ev} (hev : ∀ key cfg, ev ≠ .stored key cfg)
    (hw : Warranted first fresh s.hist ev) : Inv first fresh (s.record ev) :=
  ⟨h.regs.quiet hev, fun pc hmem => (h.ctrl pc hmem).mono (List.subset_append_left _ _),
    h.hist.concat hw⟩

/-- The Put of a controller may be executed at any time. -/
theorem putOk {pc : Pc} (hpc : PcOk first fresh hist pc) {args : PutArgs Key ShardConfig}
    (hput : pc.put = some args) :
    PutOk first hist args ∧ Warranted first fresh hist (.stored args.key args.value) := by
  cases pc with
  | initConfigCfg cfg r =>
      cases hput
      cases hpc
      exact ⟨.seedCfg, .inl rfl⟩
  | initConfigNext cfg r =>
      cases hput
      obtain ⟨rfl, hc⟩ := hpc
      exact ⟨.seedNext hc, trivial⟩
  | putNext cur new r =>
      cases hput
      exact ⟨.propose hpc.1 hpc.2, trivial⟩
  | putCfg new r =>
      cases hput
      obtain ⟨cur, hc, hm⟩ := hpc
      exact ⟨.publish hc.proposed, .inr ⟨cur, hc, hm⟩⟩
  | initCfg | initNext | changeQuery | rereadNext | migrate | done => cases hput

/-- **The kvsrv executes a Put that is warranted**, whoever has sent it. The history only grows, and
    an `OK` records what was stored. -/
theorem execWarranted (h : Inv first fresh s) (h1 : first.num = 1)
    {args : PutArgs Key ShardConfig} (hp : PutOk first s.hist args)
    (hw : Warranted first fresh s.hist (.stored args.key args.value)) :
    Inv first fresh (s.exec args).1 ∧ s.hist ⊆ (s.exec args).1.hist ∧
      ((s.exec args).2.err = .ok → .stored args.key args.value ∈ (s.exec args).1.hist) := by
  by_cases hok : (putEntry s.kv args).2.err = .ok
  · have e : (s.exec args).1 =
        ⟨(putEntry s.kv args).1, s.ctrl, s.hist ++ [.stored args.key args.value]⟩ := by
      simp [System.exec, hok, System.record]
    rw [e]
    refine ⟨⟨h.regs.put h1 hp hok, fun pc' hmem => ?_, h.hist.concat hw⟩,
      List.subset_append_left _ _, fun _ => by simp⟩
    exact (h.ctrl pc' hmem).mono (List.subset_append_left _ _)
  · have e : (s.exec args).1 = s := by
      simp [System.exec, hok, putEntry_of_not_ok hok]
    rw [e]
    exact ⟨h, fun _ hx => hx, fun hx => absurd hx hok⟩

/-- **The kvsrv executes the Put of a controller.** -/
theorem exec (h : Inv first fresh s) (h1 : first.num = 1) {pc : Pc}
    (hpc : PcOk first fresh s.hist pc) {args : PutArgs Key ShardConfig}
    (hput : pc.put = some args) :
    Inv first fresh (s.exec args).1 ∧ s.hist ⊆ (s.exec args).1.hist ∧
      ((s.exec args).2.err = .ok → .stored args.key args.value ∈ (s.exec args).1.hist) := by
  obtain ⟨hp, hw⟩ := putOk hpc hput
  exact h.execWarranted h1 hp hw

theorem callMigrate (h : Inv first fresh s) (hc : Called fresh s.hist cur new) (c : ℕ) :
    Inv first fresh (s.callMigrate c cur new) := by
  have h' : Inv first fresh (s.record (.migrating cur new)) :=
    h.record (fun _ _ e => by cases e) hc
  have hpc : PcOk first fresh (s.record (.migrating cur new)).hist (.migrate cur new) :=
    ⟨hc.mono (List.subset_append_left _ _), by simp [System.record]⟩
  exact h'.goto c hpc

/-- **One turn of a controller.** -/
theorem turn (h : Inv first fresh s) (h1 : first.num = 1) {c : ℕ} {pc : Pc}
    (hpc : PcOk first fresh s.hist pc)
    (hfresh : fresh → ∀ cur next, pc = .initNext (some cur) → (readCfg s.kv .next).1 = some next →
      next.num ≤ cur.num + 1)
    (ht : s.turn c pc = some s') : Inv first fresh s' := by
  have hread : ∀ {key x}, (readCfg s.kv key).1 = some x → .stored key x ∈ s.hist := by
    intro key x hx
    rw [h.regs.read] at hx
    exact mem_stored.mp (List.mem_of_getLast? hx)
  have hqueried : ∀ {cur}, query s.kv = some cur →
      .stored .cfg cur ∈ s.hist ∧ Inv first fresh (s.record (.queried cur)) := by
    intro cur hq
    rw [h.regs.query] at hq
    have hcur : .stored .cfg cur ∈ s.hist := mem_stored.mp (List.mem_of_getLast? hq)
    exact ⟨hcur, h.record (fun _ _ e => by cases e) hcur⟩
  cases turned ht with
  | seedCfg cfg =>
      obtain ⟨h', hsub, hst⟩ := h.exec h1 hpc rfl
      refine h'.goto c ⟨hpc, ?_⟩
      by_cases hok : (putEntry s.kv ⟨.cfg, cfg, 0⟩).2.err = .ok
      · cases hpc
        exact hst hok
      · exact hsub (h.regs.seeded hok)
  | seedNext | publish => exact (h.exec h1 hpc rfl).1.goto c trivial
  | look => exact h.goto c fun x hx => hread hx
  | recover cur next hnext =>
      refine h.callMigrate ⟨hpc cur rfl, hread hnext, fun hf => ?_⟩ c
      have := hfresh hf cur next rfl hnext
      omega
  | giveUp => exact h.goto c trivial
  | late new cur hq => exact (hqueried hq).2.goto c trivial
  | propose new cur hq hlt =>
      obtain ⟨cfg, hcfg, hn⟩ := hpc
      obtain ⟨hcur, h'⟩ := hqueried hq
      refine h'.goto c ⟨List.subset_append_left _ _ hcur, ?_⟩
      -- the configuration `new` comes from was published when `cur` was, or before
      rw [h.regs.query] at hq
      have hle := (h.regs.at_num hcfg).2.1
      have hlast := h.regs.num_of_last hq
      omega
  | unsure =>
      obtain ⟨h', hsub, _⟩ := h.exec h1 hpc rfl
      exact h'.goto c ⟨hsub hpc.1, hpc.2⟩
  | won cur new resend hok =>
      obtain ⟨h', hsub, hst⟩ := h.exec h1 hpc rfl
      exact h'.callMigrate ⟨hsub hpc.1, hst (putResult_ok hok), fun _ => hpc.2⟩ c
  | found cur new hnext => exact h.callMigrate ⟨hpc.1, hread hnext, fun _ => hpc.2⟩ c
  | migrated cur new =>
      have h' : Inv first fresh (s.record (.migrated cur new)) :=
        h.record (fun _ _ e => by cases e) hpc.2
      have hpc' : PcOk first fresh (s.record (.migrated cur new)).hist (.putCfg new false) :=
        ⟨cur, hpc.1.mono (List.subset_append_left _ _), by simp [System.record]⟩
      exact h'.goto c hpc'

end Inv

/-! ## 3. Runs -/

/-- The condition on a step: the number that `InitController` reads from `next` is at most one above
    the number it has read from `cfg`. -/
def NoSkip (s : System) : Action → Prop
  | .step c =>
      match s.ctrl[c]?, (readCfg s.kv .next).1 with
      | some (.initNext (some cur)), some next => next.num ≤ cur.num + 1
      | _, _ => True
  | _ => True

instance (s : System) (act : Action) : Decidable (NoSkip s act) := by
  unfold NoSkip
  split
  · split
    · infer_instance
    · infer_instance
  · infer_instance

theorem inv_init (first : ShardConfig) : Inv first fresh (.init first) := by
  have hregs : Regs first (System.init first).kv (System.init first).hist :=
    ⟨fun _ => rfl, fun _ _ _ h => (by cases h), fun _ _ h => (by cases h), .inl List.prefix_rfl,
      Nat.zero_le _⟩
  refine ⟨hregs, fun pc hpc => ?_, .nil⟩
  rw [List.mem_singleton.mp hpc]
  rfl

theorem inv_next (h1 : first.num = 1) {act : Action} (h : Inv first fresh s)
    (hfresh : fresh → NoSkip s act) (hn : s.next act = some s') : Inv first fresh s' := by
  cases act with
  | query =>
      obtain ⟨cfg, hq, rfl⟩ := Option.map_eq_some_iff.mp hn
      rw [h.regs.query] at hq
      have hw : .stored .cfg cfg ∈ s.hist := mem_stored.mp (List.mem_of_getLast? hq)
      exact h.record (fun _ _ e => by cases e) hw
  | initController =>
      cases hn
      refine ⟨h.regs, fun pc hpc => ?_, h.hist⟩
      rcases List.mem_append.mp hpc with hold | hnew
      · exact h.ctrl pc hold
      · rw [List.mem_singleton.mp hnew]
        trivial
  | changeConfigTo cfg change =>
      simp only [System.next] at hn
      split at hn
      next hmem =>
        obtain ⟨new, hnew, rfl⟩ := Option.map_eq_some_iff.mp hn
        refine ⟨h.regs, fun pc hpc => ?_, h.hist⟩
        rcases List.mem_append.mp hpc with hold | hlast
        · exact h.ctrl pc hold
        · rw [List.mem_singleton.mp hlast]
          obtain ⟨pre, post, e⟩ := List.append_of_mem hmem
          have hw : .stored .cfg cfg ∈ pre := h.hist pre _ post e
          exact ⟨cfg, by rw [e]; exact List.mem_append_left _ hw, (Change.num hnew).symm⟩
      next => cases hn
  | step c =>
      obtain ⟨pc, hpc, ht⟩ := Option.bind_eq_some_iff.mp hn
      refine h.turn h1 (h.ctrl pc (List.mem_of_getElem? hpc)) (fun hf cur next e hr => ?_) ht
      have hns := hfresh hf
      simp only [NoSkip, hpc, e, hr] at hns
      exact hns
  | lose c executed =>
      obtain ⟨pc, hpc, ht⟩ := Option.bind_eq_some_iff.mp hn
      obtain ⟨args, hargs, ht⟩ := Option.bind_eq_some_iff.mp ht
      cases ht
      have hok := h.ctrl pc (List.mem_of_getElem? hpc)
      have hres : ∀ {hist'}, PcOk first fresh hist' pc → PcOk first fresh hist' pc.resent := by
        intro hist' hx
        cases pc with
        | initConfigCfg | initConfigNext | putNext | putCfg => exact hx
        | initCfg | initNext | changeQuery | rereadNext | migrate | done => cases hargs
      cases executed with
      | true =>
          obtain ⟨h', hsub, _⟩ := h.exec h1 hok hargs
          exact h'.goto c (hres (hok.mono hsub))
      | false => exact h.goto c (hres hok)

theorem inv_run (h1 : first.num = 1) {cond : System → Action → Prop}
    (hfresh : fresh → ∀ s act, cond s act → NoSkip s act)
    (h : System.Run cond (.init first) s) : Inv first fresh s := by
  refine run_inv (fun s s' hs hi => ?_) h (inv_init first)
  obtain ⟨act, hc, hn⟩ := hs
  exact inv_next h1 hi (fun hf => hfresh hf s act hc) hn

/-- **Controllers migrate between consecutive, completed configurations**, in every run in which no
    `InitController` finds a number in `next` two above its `cfg`. A migration is called from a
    configuration that was published to the one after it; there is one published configuration for a
    number; and a configuration is published only after a migration to it, from the one before it,
    has run to its end. The registers are never more than one number apart, so the condition is met
    whenever `cfg` has not been written between the two reads. -/
theorem consecutive_migrations (h1 : first.num = 1)
    (h : System.Run NoSkip (.init first) s) :
    (∀ pre post cur new, s.hist = pre ++ .migrating cur new :: post →
      cur.num + 1 = new.num ∧ .stored .cfg cur ∈ pre) ∧
    (∀ cfg cfg', .stored .cfg cfg ∈ s.hist → .stored .cfg cfg' ∈ s.hist →
      cfg.num = cfg'.num → cfg = cfg') ∧
    (∀ pre post new, s.hist = pre ++ .stored .cfg new :: post →
      new = first ∨ ∃ cur, .stored .cfg cur ∈ pre ∧ cur.num + 1 = new.num ∧
        .migrated cur new ∈ pre) ∧
    (∀ cur next, (readCfg s.kv .cfg).1 = some cur → (readCfg s.kv .next).1 = some next →
      next.num ≤ cur.num + 1) := by
  have hi : Inv first True s := inv_run h1 (fun _ _ _ hc => hc) h
  refine ⟨fun pre post cur new e => ?_, fun cfg cfg' hc hc' hn => ?_, fun pre post new e => ?_,
    fun cur next hc hn => ?_⟩
  · have hw : Called True pre cur new := hi.hist pre _ post e
    exact ⟨hw.num trivial, hw.published⟩
  · exact hi.regs.eq_of_num hc hc' hn
  · have hw : Warranted first True pre (.stored .cfg new) := hi.hist pre _ post e
    rcases hw with hf | ⟨cur, hc, hm⟩
    · exact .inl hf
    · exact .inr ⟨cur, hc.published, hc.num trivial, hm⟩
  · rw [hi.regs.read] at hc hn
    exact (hi.regs.next_le hc hn).2

/-! ### Groups 1, 2 and 3 join one after the other -/

section Sample

/-- `(JoinBalance(gid), ...)` from a configuration; the names of the servers do not matter here. -/
def joined (cfg : ShardConfig) (gid : Tgid) (name : UInt8) : ShardConfig :=
  ((Change.join [(gid, [[name]])]).apply cfg).getD cfg

def cfg1 : ShardConfig := joined makeShardConfig gid1 49
def cfg2 : ShardConfig := joined cfg1 2 50
def cfg3 : ShardConfig := joined cfg2 3 51

/-- `InitConfig`; a controller that joins group 2 stops in `migrate`; `InitController` completes the
    change, with the answer to its Put lost; group 3 joins. -/
def recovery : List Action :=
  [.step 0, .step 0, .query, .changeConfigTo cfg1 (.join [(2, [[50]])]), .step 1, .step 1,
    .initController, .step 2, .step 2, .step 2, .lose 2 true, .step 2,
    .query, .changeConfigTo cfg2 (.join [(3, [[51]])]), .step 3, .step 3, .step 3, .step 3]

theorem consecutive_migrations_sample :
    ∃ s pre post, System.Run NoSkip (.init cfg1) s ∧ cfg1.num = 1 ∧
      s.hist = pre ++ .stored .cfg cfg3 :: post ∧
      ∃ cur, .stored .cfg cur ∈ pre ∧ cur.num + 1 = cfg3.num ∧ .migrated cur cfg3 ∈ pre := by
  have h1 : cfg1.num = 1 := by decide +kernel
  have hplay : ((play (guarded NoSkip System.next) (.init cfg1) recovery).map fun s =>
      decide (.stored .cfg cfg3 ∈ s.hist)) = some true := by decide +kernel
  obtain ⟨s, hs, hv⟩ := Option.map_eq_some_iff.mp hplay
  obtain ⟨pre, post, e⟩ := List.append_of_mem (of_decide_eq_true hv)
  have hrun := play_guarded_run hs
  have hne : cfg3 ≠ cfg1 := by decide +kernel
  rcases (consecutive_migrations h1 hrun).2.2.1 pre post cfg3 e with hf | hcur
  · exact absurd hf hne
  · exact ⟨s, pre, post, hrun, h1, e, hcur⟩

/-- `InitController` reads `cfg`; group 2 joins; another controller proposes that group 3 joins; then
    `InitController` reads `next`, migrates and publishes. -/
def lateRead : List Action :=
  [.step 0, .step 0, .initController, .step 1,
    .query, .changeConfigTo cfg1 (.join [(2, [[50]])]), .step 2, .step 2, .step 2, .step 2,
    .query, .changeConfigTo cfg2 (.join [(3, [[51]])]), .step 3, .step 3, .step 1, .step 1, .step 1]

/-- **A configuration is skipped.** `InitController` calls `migrate` from configuration 1 to 3, and
    publishes 3 although no migration from 2 to 3 has ended. -/
theorem skipped_configuration :
    ∃ s, System.Run (fun _ _ => True) (.init cfg1) s ∧
      .migrating cfg1 cfg3 ∈ s.hist ∧ cfg1.num = 1 ∧ cfg3.num = 3 ∧
      .stored .cfg cfg2 ∈ s.hist ∧ .stored .cfg cfg3 ∈ s.hist ∧
      ∀ cur, cur.num + 1 = cfg3.num → .migrated cur cfg3 ∉ s.hist := by
  have hplay : ((play (guarded (fun _ _ => True) System.next) (.init cfg1) lateRead).map fun s =>
      (decide (.migrating cfg1 cfg3 ∈ s.hist ∧ cfg1.num = 1 ∧ cfg3.num = 3 ∧
        .stored .cfg cfg2 ∈ s.hist ∧ .stored .cfg cfg3 ∈ s.hist),
      s.hist.all fun ev =>
        match ev with
        | .migrated cur new => new ≠ cfg3 ∨ cur.num + 1 ≠ cfg3.num
        | _ => true)) = some (true, true) := by decide +kernel
  obtain ⟨s, hs, hv⟩ := Option.map_eq_some_iff.mp hplay
  obtain ⟨hd, hall⟩ := Prod.mk.inj hv
  obtain ⟨hm, hn1, hn3, hc2, hc3⟩ := of_decide_eq_true hd
  refine ⟨s, play_guarded_run hs, hm, hn1, hn3, hc2, hc3, fun cur hcur hmem => ?_⟩
  have := List.all_eq_true.mp hall _ hmem
  simp [hcur] at this

end Sample

end RaftLab.Shardkv1.Shardctrler

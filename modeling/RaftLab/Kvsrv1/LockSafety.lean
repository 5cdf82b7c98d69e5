/-
  File:      RaftLab/Kvsrv1/LockSafety.lean
  Subject:   The lock of Lock.lean excludes.

  What the lock rests on is the version. A value read at a version is the value as long as the
  version stands (`Reads`); a Put names the version that its object has read (`PutOk`), so it takes
  effect only on what the object has seen; and when the call has returned, the version has been
  passed, so what is left of it never takes effect. From this follows for each object where the key
  holds its id (`LockOk`).

  **`lock_excludes`** is the result, for every run.
-/
import RaftLab.Kvsrv1.Lock

namespace RaftLab.Kvsrv1

open RaftLab.Lib RaftLab.Kvraft1 Relation

namespace Lock

variable {Key Value : Type}

/-! ## 1. What is known of the key and of the calls -/

abbrev Calls (Key Value : Type) := List (Retry.Call (Req Key Value) (Reply Value) (Reply Value))

section Key

variable [Inhabited Value] (L : Locks Key Value)

/-- The key holds the id of object `i`. -/
def Holds (m : Table Key Value) (i : ℕ) : Prop := ∃ v, m L.lockname = some ⟨L.id i, v⟩

def Free (m : Table Key Value) : Prop := ∀ e, m L.lockname = some e → e.value = default

/-- What was read at the version of the key is what the key holds. -/
def Reads (m : Table Key Value) (calls : Calls Key Value) : Prop :=
  ∀ c reply, Retry.HasOp calls c (.get ⟨L.lockname⟩) → Retry.Answered calls c (.get reply) →
    reply.version ≤ m.version L.lockname ∧
      (m.version L.lockname = reply.version → getEntry m ⟨L.lockname⟩ = reply)

/-- A `Put` on the key names a version that was read; once an RPC of it has been executed the
    version has been passed. Before that it is the current call of an object, on what that object
    has read. -/
structure PutOk (m : Table Key Value) (calls : Calls Key Value) (pc : ℕ → Pc) (c : ℕ)
    (args : PutArgs Key Value) : Prop where
  seen : args.version ≤ m.version L.lockname
  executed : ∀ res, Retry.Answered calls c res → args.version < m.version L.lockname ∧
    (res = .put ⟨.ok⟩ ∨ res = .put ⟨.errVersion⟩)
  owner : args.version < m.version L.lockname ∨
    (∃ i, pc i = .acquirePut c ∧ args.value = L.id i ∧ Free L m) ∨
    (∃ i, pc i = .releasePut c ∧ args.value = default ∧ Holds L m i)

/-- Where the key holds the id of object `i`, by where the object stands. -/
def LockOk (m : Table Key Value) (calls : Calls Key Value) (i : ℕ) : Pc → Prop
  | .idle => ¬ Holds L m i
  | .acquireGet c => Retry.HasOp calls c (.get ⟨L.lockname⟩) ∧ ¬ Holds L m i
  | .acquirePut c => ∃ v, Retry.HasOp calls c (.put ⟨L.lockname, L.id i, v⟩) ∧
      (Holds L m i ↔ Retry.Answered calls c (.put ⟨.ok⟩))
  | .acquireReread c => Retry.HasOp calls c (.get ⟨L.lockname⟩) ∧
      ∀ reply, Retry.Answered calls c (.get reply) →
        (reply.err = .ok ∧ reply.value = L.id i ↔ Holds L m i)
  | .held => Holds L m i
  | .releaseGet c => Retry.HasOp calls c (.get ⟨L.lockname⟩) ∧ Holds L m i ∧
      ∀ reply, Retry.Answered calls c (.get reply) → reply = getEntry m ⟨L.lockname⟩
  | .releasePut c => ∃ v, Retry.HasOp calls c (.put ⟨L.lockname, default, v⟩) ∧
      (v < m.version L.lockname → ¬ Holds L m i)

structure View (m : Table Key Value) (calls : Calls Key Value) (pc : ℕ → Pc) : Prop where
  reads : Reads L m calls
  puts : ∀ c args, Retry.HasOp calls c (.put args) → args.key = L.lockname →
    PutOk L m calls pc c args
  lock : ∀ i, LockOk L m calls i (pc i)

variable {L} {m m' : Table Key Value} {calls calls' : Calls Key Value} {pc : ℕ → Pc}

theorem Holds.unique {i j : ℕ} (h : Holds L m i) (h' : Holds L m j) : i = j := by
  obtain ⟨v, e⟩ := h
  obtain ⟨v', e'⟩ := h'
  rw [e] at e'
  exact L.distinct (KvEntry.mk.inj (Option.some.inj e')).1

theorem Free.not_holds (h : Free L m) (i : ℕ) : ¬ Holds L m i := by
  intro hi
  obtain ⟨v, e⟩ := hi
  exact L.nonempty i (h _ e)

theorem holds_congr (h : m' L.lockname = m L.lockname) (i : ℕ) : Holds L m' i ↔ Holds L m i := by
  unfold Holds
  rw [h]

omit [Inhabited Value] in
theorem version_congr {key : Key} (h : m' key = m key) : m'.version key = m.version key := by
  unfold Table.version
  rw [h]

theorem getEntry_congr {key : Key} (h : m' key = m key) : getEntry m' ⟨key⟩ = getEntry m ⟨key⟩ := by
  unfold getEntry
  rw [h]

theorem getEntry_version (m : Table Key Value) (key : Key) :
    (getEntry m ⟨key⟩).version = m.version key := by
  unfold getEntry Table.version
  cases m key with
  | none => rfl
  | some e => rfl

theorem read_own_iff (i : ℕ) : (getEntry m ⟨L.lockname⟩).err = .ok ∧
    (getEntry m ⟨L.lockname⟩).value = L.id i ↔ Holds L m i := by
  unfold getEntry Holds
  cases hm : m L.lockname with
  | none => simp
  | some e =>
      obtain ⟨value, version⟩ := e
      simp

theorem free_of_read (h : (getEntry m ⟨L.lockname⟩).err = .errNoKey ∨
    ((getEntry m ⟨L.lockname⟩).err = .ok ∧ (getEntry m ⟨L.lockname⟩).value = default)) :
    Free L m := by
  intro e he
  unfold getEntry at h
  rw [he] at h
  rcases h with h | ⟨_, h⟩
  · cases h
  · exact h

end Key

/-! ## 2. Steps of the server -/

section Steps

variable [Inhabited Value] {L : Locks Key Value} {m m' : Table Key Value}
  {calls calls' : Calls Key Value} {pc : ℕ → Pc}

/-- **An RPC is executed that leaves the key alone**: a `Get`, a request for another key, or a `Put`
    whose version has been passed. -/
theorem View.answer (h : View L m calls pc) {c : ℕ} {req : Req Key Value} {res : Reply Value}
    (hg : Retry.Gains calls calls' c res) (hop : Retry.HasOp calls c req)
    (hm : m' L.lockname = m L.lockname)
    (hget : req = .get ⟨L.lockname⟩ → res = .get (getEntry m ⟨L.lockname⟩))
    (hput : ∀ args, req = .put args → args.key = L.lockname →
      args.version < m.version L.lockname ∧ res = .put ⟨.errVersion⟩) :
    View L m' calls' pc := by
  have hver := version_congr hm
  have hread := getEntry_congr hm
  have hholds := holds_congr (L := L) hm
  have hfree : Free L m' ↔ Free L m := by
    unfold Free
    rw [hm]
  -- a new answer to a read of the key is what the key holds
  have hnew : ∀ d reply, Retry.HasOp calls d (.get ⟨L.lockname⟩) →
      Retry.Answered calls' d (.get reply) →
      Retry.Answered calls d (.get reply) ∨ reply = getEntry m ⟨L.lockname⟩ := by
    intro d reply hd ha
    rcases (hg.answered d _).mp ha with ha | ⟨rfl, hr⟩
    · exact .inl ha
    · rw [hget (hop.unique hd)] at hr
      exact .inr (Reply.get.inj hr)
  refine ⟨fun d reply hd ha => ?_, fun d args hd hk => ?_, fun i => ?_⟩
  · rw [hver, hread]
    have hd := (hg.op d _).mp hd
    rcases hnew d reply hd ha with ha | rfl
    · exact h.reads d reply hd ha
    · exact ⟨Nat.le_of_eq (getEntry_version m _), fun _ => rfl⟩
  · have hd := (hg.op d _).mp hd
    have hp := h.puts d args hd hk
    refine ⟨by rw [hver]; exact hp.seen, fun r hr => ?_, ?_⟩
    · rw [hver]
      rcases (hg.answered d r).mp hr with hr | ⟨rfl, rfl⟩
      · exact hp.executed r hr
      · obtain ⟨hlt, hres⟩ := hput args (hop.unique hd) hk
        exact ⟨hlt, .inr hres⟩
    · simp only [hver, hfree, hholds]
      exact hp.owner
  · have hi := h.lock i
    cases hpc : pc i with
    | idle | held =>
        rw [hpc] at hi
        simpa only [LockOk, hholds] using hi
    | acquireGet d =>
        rw [hpc] at hi
        simpa only [LockOk, hg.op, hholds] using hi
    | acquirePut d =>
        rw [hpc] at hi
        obtain ⟨v, hd, hiff⟩ := hi
        refine ⟨v, (hg.op d _).mpr hd, ?_⟩
        rw [hholds, hiff, hg.answered]
        refine ⟨.inl, fun ha => ha.resolve_right fun hx => ?_⟩
        obtain ⟨rfl, hres⟩ := hx
        rw [(hput _ (hop.unique hd) rfl).2] at hres
        cases hres
    | acquireReread d =>
        rw [hpc] at hi
        obtain ⟨hd, hiff⟩ := hi
        refine ⟨(hg.op d _).mpr hd, fun reply ha => ?_⟩
        rw [hholds]
        rcases hnew d reply hd ha with ha | rfl
        · exact hiff reply ha
        · exact read_own_iff i
    | releaseGet d =>
        rw [hpc] at hi
        obtain ⟨hd, hold, heq⟩ := hi
        refine ⟨(hg.op d _).mpr hd, (hholds i).mpr hold, fun reply ha => ?_⟩
        rw [hread]
        rcases hnew d reply hd ha with ha | he
        · exact heq reply ha
        · exact he
    | releasePut d =>
        rw [hpc] at hi
        obtain ⟨v, hd, hlt⟩ := hi
        refine ⟨v, (hg.op d _).mpr hd, ?_⟩
        rw [hver, hholds]
        exact hlt

/-- An object that does not hold the key, before and after, where its call shows the same. -/
theorem LockOk.without {i : ℕ} (h : LockOk L m calls i (pc i)) (hno : ¬ Holds L m i)
    (hno' : ¬ Holds L m' i) (hop : ∀ d op, Retry.HasOp calls d op → Retry.HasOp calls' d op)
    (hget : ∀ d r, Retry.HasOp calls d (.get ⟨L.lockname⟩) → Retry.Answered calls' d r →
      Retry.Answered calls d r)
    (hput : ∀ d, pc i = .acquirePut d → Retry.Answered calls' d (.put ⟨.ok⟩) →
      Retry.Answered calls d (.put ⟨.ok⟩)) : LockOk L m' calls' i (pc i) := by
  cases hpc : pc i with
  | idle => exact hno'
  | held =>
      rw [hpc] at h
      exact absurd h hno
  | acquireGet d =>
      rw [hpc] at h
      exact ⟨hop _ _ h.1, hno'⟩
  | acquirePut d =>
      rw [hpc] at h
      obtain ⟨v, hd, hiff⟩ := h
      exact ⟨v, hop _ _ hd, fun hx => absurd hx hno', fun hx =>
        absurd (hiff.mpr (hput d hpc hx)) hno⟩
  | acquireReread d =>
      rw [hpc] at h
      obtain ⟨hd, hiff⟩ := h
      refine ⟨hop _ _ hd, fun reply ha => ⟨fun hx => ?_, fun hx => absurd hx hno'⟩⟩
      exact absurd ((hiff reply (hget d _ hd ha)).mp hx) hno
  | releaseGet d =>
      rw [hpc] at h
      exact absurd h.2.1 hno
  | releasePut d =>
      rw [hpc] at h
      obtain ⟨v, hd, _⟩ := h
      exact ⟨v, hop _ _ hd, fun _ => hno'⟩

/-- **A `Put` takes effect**: it is one of an object that found the key free, or of the holder. -/
theorem View.took (h : View L m calls pc) {c : ℕ} {args : PutArgs Key Value}
    (hg : Retry.Gains calls calls' c (.put ⟨.ok⟩)) (hop : Retry.HasOp calls c (.put args))
    (hk : args.key = L.lockname) (hv : m.version L.lockname = args.version)
    (hm : m' L.lockname = some ⟨args.value, args.version + 1⟩) : View L m' calls' pc := by
  have hver : m'.version L.lockname = args.version + 1 := by
    unfold Table.version
    rw [hm]
    rfl
  have hget : ∀ d r, Retry.HasOp calls d (.get ⟨L.lockname⟩) → Retry.Answered calls' d r →
      Retry.Answered calls d r :=
    fun d r hd => (hg.other hop hd (by simp)).mp
  have hops : ∀ d op, Retry.HasOp calls d op → Retry.HasOp calls' d op :=
    fun d op => (hg.op d op).mpr
  refine ⟨fun d reply hd ha => ?_, fun d args' hd hk' => ?_, fun i => ?_⟩
  · have hd := (hg.op d _).mp hd
    have hle := (h.reads d reply hd (hget d _ hd ha)).1
    exact ⟨by omega, fun he => by omega⟩
  · have hp := h.puts d args' ((hg.op d _).mp hd) hk'
    have hlt : args'.version < m'.version L.lockname := by
      have := hp.seen
      omega
    refine ⟨Nat.le_of_lt hlt, fun r hr => ⟨hlt, ?_⟩, .inl hlt⟩
    rcases (hg.answered d r).mp hr with hr | ⟨_, rfl⟩
    · exact (hp.executed r hr).2
    · exact .inl rfl
  · rcases (h.puts c args hop hk).owner with hlt | ⟨j, hj, hval, hfree⟩ | ⟨j, hj, hval, hold⟩
    · exact absurd hv (Nat.ne_of_gt hlt)
    · -- object `j` has acquired the lock
      have hheld : Holds L m' j := ⟨_, by rw [hm, hval]⟩
      by_cases hij : i = j
      · subst hij
        obtain ⟨v, hd, _⟩ := hj ▸ h.lock i
        rw [hj]
        exact ⟨v, hops _ _ hd, fun _ => (hg.answered c _).mpr (.inr ⟨rfl, rfl⟩), fun _ => hheld⟩
      · refine (h.lock i).without (hfree.not_holds i) (fun hi => hij (hi.unique hheld)) hops hget ?_
        intro d hpc ha
        obtain ⟨v, hd, _⟩ := hpc ▸ h.lock i
        refine (hg.other hop hd fun e => hij (L.distinct ?_)).mp ha
        rw [← hval, ← Req.put.inj e]
    · -- object `j` has released it
      have hno' : ∀ i, ¬ Holds L m' i := by
        refine Free.not_holds fun e he => ?_
        rw [hm] at he
        cases he
        exact hval
      by_cases hij : i = j
      · subst hij
        obtain ⟨v, hd, _⟩ := hj ▸ h.lock i
        rw [hj]
        exact ⟨v, hops _ _ hd, fun _ => hno' i⟩
      · refine (h.lock i).without (fun hi => hij (hi.unique hold)) (hno' i) hops hget ?_
        intro d hpc ha
        obtain ⟨v, hd, _⟩ := hpc ▸ h.lock i
        refine (hg.other hop hd fun e => L.nonempty i ?_).mp ha
        rw [← hval, ← Req.put.inj e]

/-- **The server executes an RPC.** -/
theorem View.execute [DecidableEq Key] (h : View L m calls pc) {c : ℕ} {req : Req Key Value}
    (hop : Retry.HasOp calls c req) (hg : Retry.Gains calls calls' c (kvStep m req).2) :
    View L (kvStep m req).1 calls' pc := by
  cases req with
  | get args =>
      refine h.answer hg hop rfl (fun e => ?_) (fun _ e => by cases e)
      rw [← Req.get.inj e]
      rfl
  | put args =>
      by_cases hk : args.key = L.lockname
      · rcases Nat.lt_or_eq_of_le (h.puts c args hop hk).seen with hlt | heq
        · have hlt' : args.version < m.version args.key := by rw [hk]; exact hlt
          have hres := putEntry_passed hlt'
          have hsame : (putEntry m args).1 = m :=
            putEntry_of_not_ok (by rw [hres]; exact fun e => by cases e)
          refine h.answer hg hop (congrFun hsame _) (fun e => by cases e) fun args' e _ => ?_
          cases e
          exact ⟨hlt, congrArg Reply.put hres⟩
        · rcases putEntry_cases m args with ⟨hres, _, hupd⟩ | ⟨_, hne, _⟩ | ⟨_, hnone, hne, _⟩
          · have hg' : Retry.Gains calls calls' c (.put ⟨.ok⟩) := by
              rw [← hres]
              exact hg
            refine h.took hg' hop hk heq.symm ?_
            show (putEntry m args).1 L.lockname = _
            rw [hupd, hk, Function.update_self]
          · rw [hk] at hne
            exact absurd heq.symm hne
          · have : m.version L.lockname = 0 := by
              unfold Table.version
              rw [← hk, hnone]
              rfl
            exact absurd (heq.trans this) hne
      · refine h.answer hg hop (putEntry_of_ne m args (Ne.symm hk)) (fun e => by cases e) ?_
        intro args' e hk'
        cases e
        exact absurd hk' hk

/-! ## 3. Steps of the objects -/

theorem LockOk.mono {i : ℕ} {p : Pc} (h : LockOk L m calls i p)
    (hop : ∀ d op, Retry.HasOp calls d op → Retry.HasOp calls' d op)
    (hans : ∀ d r, Retry.Answered calls' d r ↔ Retry.Answered calls d r) :
    LockOk L m calls' i p := by
  cases p with
  | idle | held => exact h
  | acquireGet d => exact ⟨hop _ _ h.1, h.2⟩
  | acquirePut d =>
      obtain ⟨v, hd, hiff⟩ := h
      exact ⟨v, hop _ _ hd, hiff.trans (hans d _).symm⟩
  | acquireReread d => exact ⟨hop _ _ h.1, fun reply ha => h.2 reply ((hans d _).mp ha)⟩
  | releaseGet d =>
      exact ⟨hop _ _ h.1, h.2.1, fun reply ha => h.2.2 reply ((hans d _).mp ha)⟩
  | releasePut d =>
      obtain ⟨v, hd, hlt⟩ := h
      exact ⟨v, hop _ _ hd, hlt⟩

/-- The version of a `Put` that was answered has been passed. -/
theorem View.passed (h : View L m calls pc) {i c : ℕ} {args : PutArgs Key Value}
    (hpc : pc i = .acquirePut c ∨ pc i = .releasePut c) (hop : Retry.HasOp calls c (.put args))
    (hans : ∃ res, Retry.Answered calls c res) : args.version < m.version L.lockname := by
  have hi := h.lock i
  have hk : args.key = L.lockname := by
    rcases hpc with hpc | hpc
    · rw [hpc] at hi
      obtain ⟨v, hd, _⟩ := hi
      rw [Req.put.inj (hop.unique hd)]
    · rw [hpc] at hi
      obtain ⟨v, hd, _⟩ := hi
      rw [Req.put.inj (hop.unique hd)]
  obtain ⟨res, hres⟩ := hans
  exact ((h.puts c args hop hk).executed res hres).1

theorem PutOk.goto {c i : ℕ} {args : PutArgs Key Value} {p : Pc} (h : PutOk L m calls pc c args)
    (hdone : p ≠ pc i → pc i = .acquirePut c ∨ pc i = .releasePut c →
      args.version < m.version L.lockname) : PutOk L m calls (Function.update pc i p) c args := by
  have hmove : ∀ j q, pc j = q → (q = .acquirePut c ∨ q = .releasePut c) →
      args.version < m.version L.lockname ∨ Function.update pc i p j = q := by
    intro j q hj hq
    by_cases hij : j = i
    · subst hij
      rw [Function.update_self]
      by_cases hpj : p = pc j
      · exact .inr (hpj.trans hj)
      · exact .inl (hdone hpj (by rw [hj]; exact hq))
    · rw [Function.update_of_ne hij]
      exact .inr hj
  refine ⟨h.seen, h.executed, ?_⟩
  rcases h.owner with hlt | ⟨j, hj, hrest⟩ | ⟨j, hj, hrest⟩
  · exact .inl hlt
  · rcases hmove j _ hj (.inl rfl) with hlt | hj'
    · exact .inl hlt
    · exact .inr (.inl ⟨j, hj', hrest⟩)
  · rcases hmove j _ hj (.inr rfl) with hlt | hj'
    · exact .inl hlt
    · exact .inr (.inr ⟨j, hj', hrest⟩)

/-- **An object goes to another place**; a `Put` that it leaves behind was answered. -/
theorem View.goto (h : View L m calls pc) {i : ℕ} {p : Pc}
    (hdone : ∀ c, pc i = .acquirePut c ∨ pc i = .releasePut c → ∃ res, Retry.Answered calls c res)
    (hlock : LockOk L m calls i p) : View L m calls (Function.update pc i p) := by
  refine ⟨h.reads, fun c args hop hk => ?_, fun j => ?_⟩
  · exact (h.puts c args hop hk).goto fun _ hpc => h.passed hpc hop (hdone c hpc)
  · by_cases hij : j = i
    · subst hij
      rw [Function.update_self]
      exact hlock
    · rw [Function.update_of_ne hij]
      exact h.lock j

/-- **There is a new call**, made by the object that now waits for it, or by another client. -/
theorem View.call (h : View L m calls pc) {req : Req Key Value} (hg : Retry.Grows calls calls' req)
    {i : ℕ} {p : Pc}
    (hdone : p ≠ pc i → ∀ c, pc i = .acquirePut c ∨ pc i = .releasePut c →
      ∃ res, Retry.Answered calls c res)
    (hput : ∀ args, req = .put args → args.key = L.lockname →
      args.version ≤ m.version L.lockname ∧ (args.version < m.version L.lockname ∨
        (p = .acquirePut calls.length ∧ args.value = L.id i ∧ Free L m) ∨
        (p = .releasePut calls.length ∧ args.value = default ∧ Holds L m i)))
    (hlock : LockOk L m calls' i p) : View L m calls' (Function.update pc i p) := by
  refine ⟨fun c reply hop ha => ?_, fun c args hop hk => ?_, fun j => ?_⟩
  · rcases (hg.op c _).mp hop with hold | ⟨rfl, _⟩
    · exact h.reads c reply hold ((hg.answered _ _).mp ha)
    · exact absurd ha (hg.not_answered _)
  · rcases (hg.op c _).mp hop with hold | ⟨rfl, hreq⟩
    · obtain ⟨hseen, hexec, howner⟩ := (h.puts c args hold hk).goto
        fun hne hpc => h.passed hpc hold (hdone hne c hpc)
      exact ⟨hseen, fun res ha => hexec res ((hg.answered _ _).mp ha), howner⟩
    · obtain ⟨hseen, howner⟩ := hput args hreq.symm hk
      refine ⟨hseen, fun res ha => absurd ha (hg.not_answered res), ?_⟩
      rcases howner with hlt | ⟨hp, hrest⟩ | ⟨hp, hrest⟩
      · exact .inl hlt
      · exact .inr (.inl ⟨i, by rw [Function.update_self]; exact hp, hrest⟩)
      · exact .inr (.inr ⟨i, by rw [Function.update_self]; exact hp, hrest⟩)
  · by_cases hij : j = i
    · subst hij
      rw [Function.update_self]
      exact hlock
    · rw [Function.update_of_ne hij]
      exact (h.lock j).mono (fun d op hd => (hg.op d op).mpr (.inl hd)) hg.answered

theorem View.same (h : View L m calls pc) (hs : Retry.SameCalls calls calls') :
    View L m calls' pc := by
  refine ⟨fun c reply hop ha => h.reads c reply ((hs.op _ _).mp hop) ((hs.answered _ _).mp ha),
    fun c args hop hk => ?_, fun i => ?_⟩
  · obtain ⟨hseen, hexec, howner⟩ := h.puts c args ((hs.op _ _).mp hop) hk
    exact ⟨hseen, fun res ha => hexec res ((hs.answered _ _).mp ha), howner⟩
  · exact (h.lock i).mono (fun d op => (hs.op d op).mpr) hs.answered

end Steps

/-! ## 4. Runs -/

section Done

variable {s : System Key Value}

/-- No call that object `i` waits for is a `Put` without an answer. -/
def Done (s : System Key Value) (i : ℕ) : Prop :=
  ∀ c, s.pc i = .acquirePut c ∨ s.pc i = .releasePut c → ∃ res, Retry.Answered s.kv.calls c res

theorem done_of_ne {i : ℕ} (h : ∀ c, s.pc i ≠ .acquirePut c) (h' : ∀ c, s.pc i ≠ .releasePut c) :
    Done s i := fun c hc => (hc.elim (h c) (h' c)).elim

theorem done_of_answered {i c : ℕ} {res : Reply Value}
    (hpc : s.pc i = .acquirePut c ∨ s.pc i = .releasePut c)
    (ha : Retry.Answered s.kv.calls c res) : Done s i := by
  intro d hd
  have hcd : c = d := by
    rcases hpc with hpc | hpc
    · rw [hpc] at hd
      rcases hd with hd | hd
      · injection hd
      · cases hd
    · rw [hpc] at hd
      rcases hd with hd | hd
      · cases hd
      · injection hd
  rw [← hcd]
  exact ⟨res, ha⟩

end Done

section Runs

variable [DecidableEq Key] [Inhabited Value] {L : Locks Key Value} {s s' : System Key Value}

variable (L) in
structure Inv (s : System Key Value) : Prop where
  last : ∀ x ∈ s.kv.calls, Retry.LastAnswer (service Key Value) x
  view : View L s.kv.obj s.kv.calls s.pc

theorem handle_some (ck : Unit) (req : Req Key Value) (resend : Bool) (res : Reply Value) :
    ((service Key Value).handle ck req resend (some res)).2 = some (clerkReply resend res) := by
  cases res with
  | get reply => rfl
  | put reply => rfl

namespace Inv

/-- A call returns the answer of an RPC as the clerk reports it. -/
theorem returned (h : Inv L s) {c : ℕ} {out : Reply Value} (hret : s.returned c = some out) :
    ∃ res resend, Retry.Answered s.kv.calls c res ∧ out = clerkReply resend res ∧
      (resend = false → ∀ res', Retry.Answered s.kv.calls c res' → res' = res) := by
  obtain ⟨x, hx, hpc⟩ := Option.bind_eq_some_iff.mp hret
  have hpc : x.pc = .returned out := by
    cases he : x.pc with
    | returned out' =>
        rw [he] at hpc
        cases hpc
        rfl
    | idle | waiting =>
        rw [he] at hpc
        cases hpc
  obtain ⟨res, ck, resend, ha, hout, honly⟩ :=
    (h.last x (List.mem_of_getElem? hx)).answered hx hpc
  rw [handle_some] at hout
  exact ⟨res, resend, ha, (Option.some.inj hout).symm, honly⟩

theorem returned_get (h : Inv L s) {c : ℕ} {reply : GetReply Value}
    (hret : s.returned c = some (.get reply)) : Retry.Answered s.kv.calls c (.get reply) := by
  obtain ⟨res, resend, ha, hout, _⟩ := h.returned hret
  cases res with
  | get r =>
      cases hout
      exact ha
  | put r => cases hout

theorem returned_put (h : Inv L s) {c : ℕ} {reply : PutReply}
    (hret : s.returned c = some (.put reply)) : ∃ r resend,
      Retry.Answered s.kv.calls c (.put r) ∧ reply.err = putResult resend r ∧
      (resend = false → ∀ res', Retry.Answered s.kv.calls c res' → res' = .put r) := by
  obtain ⟨res, resend, ha, hout, honly⟩ := h.returned hret
  cases res with
  | get r => cases hout
  | put r =>
      cases hout
      exact ⟨r, resend, ha, rfl, honly⟩

/-- An object makes a call. -/
theorem call (h : Inv L s) {i : ℕ} {req : Req Key Value} {mk : ℕ → Pc}
    (hc : s.call i req mk = some s')
    (hdone : Done s i)
    (hput : ∀ args, req = .put args → args.key = L.lockname →
      args.version ≤ s.kv.obj.version L.lockname ∧
        (args.version < s.kv.obj.version L.lockname ∨
        (mk = .acquirePut ∧ args.value = L.id i ∧ Free L s.kv.obj) ∨
        (mk = .releasePut ∧ args.value = default ∧ Holds L s.kv.obj i)))
    (hlock : ∀ calls' c, Retry.HasOp calls' c req → (∀ res, ¬ Retry.Answered calls' c res) →
      LockOk L s.kv.obj calls' i (mk c)) : Inv L s' := by
  obtain ⟨kv, hkv, rfl⟩ := Option.map_eq_some_iff.mp hc
  refine ⟨Retry.lastAnswer_next hkv h.last, ?_⟩
  obtain ⟨hobj, hg⟩ := Retry.call_shows hkv
  dsimp only
  rw [hobj]
  refine h.view.call hg (fun _ => hdone) (fun args e hk => ?_) (hlock _ _ hg.new hg.not_answered)
  obtain ⟨hseen, howner⟩ := hput args e hk
  refine ⟨hseen, ?_⟩
  rcases howner with hlt | ⟨rfl, hrest⟩ | ⟨rfl, hrest⟩
  · exact .inl hlt
  · exact .inr (.inl ⟨rfl, hrest⟩)
  · exact .inr (.inr ⟨rfl, hrest⟩)

/-- A `Get` of an object; nothing is asked of it. -/
theorem callGet (h : Inv L s) {i : ℕ} {mk : ℕ → Pc} (hc : s.call i (.get ⟨L.lockname⟩) mk = some s')
    (hdone : Done s i)
    (hlock : ∀ calls' c, Retry.HasOp calls' c (.get ⟨L.lockname⟩) →
      (∀ res, ¬ Retry.Answered calls' c res) → LockOk L s.kv.obj calls' i (mk c)) : Inv L s' :=
  h.call hc hdone (fun _ e => by cases e) hlock

theorem goto (h : Inv L s) {i : ℕ} {p : Pc}
    (hdone : Done s i)
    (hlock : LockOk L s.kv.obj s.kv.calls i p) : Inv L (s.goto i p) :=
  ⟨h.last, h.view.goto hdone hlock⟩

/-- **A step of the clerks, the network or the server.** -/
theorem rpc (h : Inv L s) {act : Retry.Action (Req Key Value)} (hact : System.ByOthers L act)
    {kv : Retry.System Unit (Table Key Value) (Req Key Value) (Reply Value) (Reply Value)}
    (hkv : s.kv.next (service Key Value) act = some kv) : Inv L { s with kv := kv } := by
  refine ⟨Retry.lastAnswer_next hkv h.last, ?_⟩
  dsimp only
  rcases Retry.next_shows hkv with ⟨p, op, rfl, hobj, hg⟩ | ⟨hobj, hs⟩ | ⟨c, op, hop, hobj, hg⟩
  · rw [hobj, ← Function.update_eq_self 0 s.pc]
    refine h.view.call hg (fun hne => absurd rfl hne) (fun args e hk => ?_) ?_
    · subst e
      exact absurd hk hact
    · exact (h.view.lock 0).mono (fun d op hd => (hg.op d op).mpr (.inl hd)) hg.answered
  · rw [hobj]
    exact h.view.same hs
  · rw [hobj]
    exact h.view.execute hop hg

variable [DecidableEq Value]

/-- **An object goes on after a call.** -/
theorem resume (h : Inv L s) {i : ℕ} (hr : s.resume L i (s.pc i) = some s') : Inv L s' := by
  have hi := h.view.lock i
  cases hpc : s.pc i with
  | idle | held =>
      rw [hpc] at hr
      cases hr
  | acquireGet c =>
      have hdone : Done s i := done_of_ne (by simp [hpc]) (by simp [hpc])
      rw [hpc] at hr hi
      obtain ⟨hop, hno⟩ := hi
      simp only [System.resume] at hr
      split at hr
      next reply hret =>
        obtain ⟨hle, hsame⟩ := h.view.reads c reply hop (h.returned_get hret)
        split at hr
        next hfree =>
          refine h.call hr hdone (fun args e _ => ?_) fun calls' d hd hnone => ?_
          · cases e
            refine ⟨hle, ?_⟩
            rcases Nat.lt_or_eq_of_le hle with hlt | heq
            · exact .inl hlt
            · rw [← hsame heq.symm] at hfree
              exact .inr (.inl ⟨rfl, rfl, free_of_read hfree⟩)
          · exact ⟨_, hd, fun hx => absurd hx hno, fun hx => absurd hx (hnone _)⟩
        next => exact h.callGet hr hdone fun calls' d hd _ => ⟨hd, hno⟩
      next => cases hr
  | acquirePut c =>
      rw [hpc] at hr hi
      obtain ⟨v, hop, hiff⟩ := hi
      simp only [System.resume] at hr
      split at hr
      next reply hret =>
        obtain ⟨r, resend, ha, herr, honly⟩ := h.returned_put hret
        have hdone : Done s i := done_of_answered (.inl hpc) ha
        split at hr
        next hok =>
          cases hr
          refine h.goto hdone (hiff.mpr ?_)
          have hr : r = ⟨.ok⟩ := by rw [← putResult_ok (herr.symm.trans hok)]
          rw [← hr]
          exact ha
        next hnok =>
          split at hr
          next hmaybe =>
            exact h.callGet hr hdone fun calls' d hd hnone =>
              ⟨hd, fun reply hx => absurd hx (hnone _)⟩
          next hnmaybe =>
            refine h.callGet hr hdone fun calls' d hd _ => ⟨hd, fun hold => ?_⟩
            -- an RPC that took effect would have been reported, or left open
            rcases ((h.view.puts c _ hop rfl).executed _ ha).2 with hr | hr
            · cases hr
              exact hnok (herr.trans (by simp [putResult]))
            · cases hr
              cases resend with
              | true => exact hnmaybe (herr.trans (by simp [putResult]))
              | false => cases honly rfl _ (hiff.mp hold)
      next => cases hr
  | acquireReread c =>
      have hdone : Done s i := done_of_ne (by simp [hpc]) (by simp [hpc])
      rw [hpc] at hr hi
      simp only [System.resume] at hr
      split at hr
      next reply hret =>
        have hiff := hi.2 reply (h.returned_get hret)
        split at hr
        next hown =>
          cases hr
          exact h.goto hdone (hiff.mp hown)
        next hnot =>
          exact h.callGet hr hdone fun calls' d hd _ => ⟨hd, fun hx => hnot (hiff.mpr hx)⟩
      next => cases hr
  | releaseGet c =>
      have hdone : Done s i := done_of_ne (by simp [hpc]) (by simp [hpc])
      rw [hpc] at hr hi
      obtain ⟨_, hold, hcur⟩ := hi
      simp only [System.resume] at hr
      split at hr
      next reply hret =>
        obtain rfl := hcur reply (h.returned_get hret)
        rw [if_pos ((read_own_iff i).mpr hold), getEntry_version] at hr
        refine h.call hr hdone (fun args e _ => ?_) fun calls' d hd hnone => ?_
        · cases e
          exact ⟨Nat.le_refl _, .inr (.inr ⟨rfl, rfl, hold⟩)⟩
        · exact ⟨_, hd, fun hlt => absurd hlt (Nat.lt_irrefl _)⟩
      next => cases hr
  | releasePut c =>
      rw [hpc] at hr hi
      obtain ⟨v, hop, hno⟩ := hi
      simp only [System.resume] at hr
      split at hr
      next out hret =>
        cases hr
        obtain ⟨res, _, ha, _⟩ := h.returned hret
        exact h.goto (done_of_answered (.inr hpc) ha)
          (hno (h.view.passed (.inr hpc) hop ⟨res, ha⟩))
      next => cases hr

theorem next (h : Inv L s) {act : Action Key Value} (hn : s.next L act = some s') : Inv L s' := by
  cases act with
  | acquire i =>
      simp only [System.next] at hn
      split at hn
      next hpc =>
        have hno : ¬ Holds L s.kv.obj i := by
          have hi := h.view.lock i
          rw [hpc] at hi
          exact hi
        exact h.callGet hn (done_of_ne (by simp [hpc]) (by simp [hpc]))
          fun calls' d hd _ => ⟨hd, hno⟩
      next => cases hn
  | release i =>
      simp only [System.next] at hn
      split at hn
      next hpc =>
        have hold : Holds L s.kv.obj i := by
          have hi := h.view.lock i
          rw [hpc] at hi
          exact hi
        exact h.callGet hn (done_of_ne (by simp [hpc]) (by simp [hpc]))
          fun calls' d hd hnone => ⟨hd, hold, fun reply hx => absurd hx (hnone _)⟩
      next => cases hn
  | resume i => exact h.resume hn
  | rpc act =>
      simp only [System.next] at hn
      split at hn
      next hact =>
        obtain ⟨kv, hkv, rfl⟩ := Option.map_eq_some_iff.mp hn
        exact h.rpc hact hkv
      next => cases hn

end Inv

variable (L) in
theorem inv_init : Inv L System.init := by
  have hcalls : ∀ c : ℕ, (System.init : System Key Value).kv.calls[c]? = none :=
    fun c => List.getElem?_nil
  refine ⟨fun x hx => absurd hx List.not_mem_nil, fun c reply hop => ?_, fun c args hop => ?_,
    fun i hold => ?_⟩
  · obtain ⟨x, hx, _⟩ := hop
    rw [hcalls] at hx
    cases hx
  · obtain ⟨x, hx, _⟩ := hop
    rw [hcalls] at hx
    cases hx
  · obtain ⟨v, e⟩ := hold
    cases e

variable [DecidableEq Value]

theorem inv_run (h : System.Run L .init s) : Inv L s := by
  refine run_inv (fun s s' hs hi => ?_) h (inv_init L)
  obtain ⟨act, hn⟩ := hs
  exact hi.next hn

/-- **The lock excludes.** In every state that objects, clerks, network and server reach, at most
    one object is between the return of `Acquire` and the call of `Release`, and the key holds its
    id; and while an object is between the return of `Release` and the call of `Acquire`, the key
    does not hold its id. -/
theorem lock_excludes (h : System.Run L .init s) :
    (∀ i j, s.pc i = .held → s.pc j = .held → i = j) ∧
    (∀ i, s.pc i = .held → ∃ v, s.kv.obj L.lockname = some ⟨L.id i, v⟩) ∧
    (∀ i, s.pc i = .idle → ∀ e, s.kv.obj L.lockname = some e → e.value ≠ L.id i) := by
  have hlock := (inv_run h).view.lock
  have hheld : ∀ i, s.pc i = .held → Holds L s.kv.obj i := by
    intro i hi
    have := hlock i
    rw [hi] at this
    exact this
  refine ⟨fun i j hi hj => (hheld i hi).unique (hheld j hj), hheld, fun i hi e he hval => ?_⟩
  have hno := hlock i
  rw [hi] at hno
  exact hno ⟨e.version, by rw [he, ← hval]⟩

end Runs

/-! ### Two objects that find the lock free -/

section Sample

/-- Ids are 1, 2, ...; 0 is the empty string. -/
def twoLocks : Locks Unit ℕ where
  lockname := ()
  id i := i + 1
  distinct _ _ h := Nat.succ.inj h
  nonempty i := Nat.succ_ne_zero i

/-- Both read that the key is absent. Object 1 sends its `Put` and gives the RPC up; object 0
    acquires the lock; object 1 sends again, is told `ErrMaybe`, and reads the id of object 0. Then
    the RPC it gave up arrives. -/
def lateArrival : List (Action Unit ℕ) :=
  [.acquire 0, .acquire 1, .rpc (.send 0), .rpc (.execute 0 0), .rpc (.answer 0), .rpc (.send 1),
    .rpc (.execute 1 0), .rpc (.answer 1), .resume 0, .resume 1, .rpc (.send 3), .rpc (.fail 3),
    .rpc (.send 2), .rpc (.execute 2 0), .rpc (.answer 2), .resume 0, .rpc (.send 3),
    .rpc (.execute 3 1), .rpc (.answer 3), .resume 1, .rpc (.send 4), .rpc (.execute 4 0),
    .rpc (.answer 4), .resume 1, .rpc (.execute 3 0)]

theorem lock_excludes_sample :
    ∃ s, System.Run twoLocks .init s ∧ s.pc 0 = .held ∧ s.pc 1 ≠ .held ∧
      Retry.Answered s.kv.calls 3 (.put ⟨.errVersion⟩) ∧ ∃ v, s.kv.obj () = some ⟨1, v⟩ := by
  have hplay : ((play (System.next twoLocks) .init lateArrival).map fun s =>
      decide (s.pc 0 = .held ∧ (s.kv.calls[3]?.map fun x => x.rpcs) =
        some [some (.put ⟨.errVersion⟩), some (.put ⟨.errVersion⟩)])) = some true := by
    decide +kernel
  obtain ⟨s, hs, hv⟩ := Option.map_eq_some_iff.mp hplay
  obtain ⟨hheld, hcall⟩ := of_decide_eq_true hv
  obtain ⟨x, hx, hrpcs⟩ := Option.map_eq_some_iff.mp hcall
  obtain ⟨hone, hkey, _⟩ := lock_excludes (play_run hs)
  refine ⟨s, play_run hs, hheld, fun h1 => ?_, ⟨x, hx, by rw [hrpcs]; simp⟩, hkey 0 hheld⟩
  cases hone 0 1 hheld h1

end Sample

end Lock

end RaftLab.Kvsrv1

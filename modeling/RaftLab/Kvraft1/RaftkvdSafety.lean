/-
  File:      RaftLab/Kvraft1/RaftkvdSafety.lean
  Subject:   No client of raftkvd waits for an entry that `DoOp` skips.

  `DoOp` skips an entry at or below the store's applied index and returns nil; the handlers assert
  the type of what Submit returns, and would panic. The argument: `Start` gives an index above
  everything its node has ever had committed, so above the store's applied index (`Covered`), and
  what is claimed stays clear of the store until its own entry is run (`Clear`).

  * `waiters_answered` -- **in every run in which no node compacts its log at an index that its
    store is ahead of**, what a waiting Submit is sent is the result of its own operation, run by
    `DoOp` on a store with a lower applied index, and no handler panics;
  * `skipped_for_waiter` -- **without it**: a restarted leader replays entry 1 into a store that has
    entry 3 and compacts at 1. A deposed leader installs that snapshot, keeps its own entry 2, which
    then is committed, and skips it: its client, which has waited for it all the time, gets nil.
-/
import RaftLab.Kvraft1.Raftkvd
import RaftLab.Raft1.Safety

namespace RaftLab.Kvraft1.Raftkvd

open RaftLab.Lib RaftLab.Raft1 RaftLab.Kvsrv1 Relation

variable {NodeID Key Value : Type}

/-! ## 1. What the handlers accept -/

/-- The result is of the kind that the request asks for. -/
def Answers (req : Req Key Value) (res : Result Value) : Prop :=
  match req, res with
  | .get _, some (.get _) => True
  | .put _, some (.put _) => True
  | _, _ => False

section Handlers

variable [Inhabited Value]

theorem Answers.replies {req : Req Key Value} {res : Result Value} (h : Answers req res) :
    KVServer.Replies req .ok (some res) := by
  cases res with
  | none => cases req <;> exact h.elim
  | some reply =>
      cases req with
      | get args =>
          cases reply with
          | get reply => simp [KVServer.Replies, KVServer.get]
          | put reply => exact h.elim
      | put args =>
          cases reply with
          | get reply => exact h.elim
          | put reply => simp [KVServer.Replies, KVServer.put]

/-- An error is passed on. -/
theorem replies_of_error {err : Err} (h : err ≠ .ok) (req : Req Key Value)
    (res : Option (Result Value)) : KVServer.Replies req err res := by
  cases req with
  | get args => simp [KVServer.Replies, KVServer.get, h]
  | put args => simp [KVServer.Replies, KVServer.put, h]

variable [DecidableEq Key]

/-- **An entry above the applied index is answered.** -/
theorem doOp_answers {store : Store Key Value} {index : ℕ} (h : store.applied < index)
    (req : Req Key Value) : Answers req (doOp store index req).2 := by
  have hgt : ¬ (index : Int) ≤ KVStore.appliedIndex store := by
    show ¬ (index : Int) ≤ (store.applied : Int)
    omega
  unfold doOp
  rw [if_neg hgt]
  cases req with
  | get args => trivial
  | put args => trivial

end Handlers

/-! ## 2. Claims and the store -/

section Clear

variable [DecidableEq Key] [Inhabited Value]

/-- How the reader of a node stands to an index that is claimed there: before it, with a store that
    is before it too; at it, with the entry just run; or past it. -/
def Clear (r : Rsm.RSM (Store Key Value) (Req Key Value) (Result Value)) (i : ℕ) : Prop :=
  (r.applied < i ∧ r.sm.applied < i) ∨
  (∃ op res store, r.loop = .done i op res ∧ store.applied < i ∧
    doOp store i op.opcommad = (r.sm, res)) ∨
  (i ≤ r.applied ∧ ∀ op res, r.loop ≠ .done i op res)

variable {r r' : Rsm.RSM (Store Key Value) (Req Key Value) (Result Value)} {i : ℕ}

theorem Clear.congr (h : Clear r i) (e : r'.reader = r.reader) : Clear r' i := by
  obtain ⟨e1, e2⟩ := Prod.mk.inj e
  obtain ⟨e2, e3⟩ := Prod.mk.inj e2
  unfold Clear
  rw [e1, e2, e3]
  exact h

/-- The reader goes on from a place that is not `DoOp` of the index. -/
theorem Clear.goOn (h : Clear r i) (h1 : r'.sm = r.sm) (h2 : r'.applied = r.applied)
    (hat : ∀ j op res, r.loop = .done j op res → j ≤ r.applied)
    (hloop : ∀ op res, r'.loop ≠ .done i op res) : Clear r' i := by
  unfold Clear
  rw [h1, h2]
  rcases h with hbefore | ⟨op, res, _, hdone, _⟩ | ⟨hpast, _⟩
  · exact .inl hbefore
  · exact .inr (.inr ⟨hat i op res hdone, hloop⟩)
  · exact .inr (.inr ⟨hpast, hloop⟩)

/-- **A message is taken.** The next entry is run on a store that is not past it, if anybody waits
    for it; a snapshot that is not ahead of its index leaves everything clear. -/
theorem Clear.readMsg {tar : Tar Key Value} {msg : ApplyMsg (Command Key Value)} (h : Clear r i)
    (hloop : r.loop = .reading)
    (hmsg : (msg.commandValid = true ∧ msg.commandIndex = r.applied + 1) ∨
      (msg.commandValid = false ∧ msg.snapshotValid = true ∧ r.applied < msg.snapshotIndex ∧
        (tar.unpack (msg.snapshot.getD [])).applied ≤ msg.snapshotIndex)) :
    Clear (Service.readMsg (app tar) r msg) i := by
  have hnot : ∀ op res, r.loop ≠ .done i op res := by
    intro op res e
    cases hloop.symm.trans e
  rcases hmsg with ⟨hc, hidx⟩ | ⟨hc, hs, hlt, hN⟩
  · rw [Service.readMsg_command hc, hidx]
    rcases h with ⟨h1, h2⟩ | ⟨op, res, _, hdone, _⟩ | ⟨hpast, _⟩
    · rcases Nat.lt_or_ge (r.applied + 1) i with hlt | hge
      · refine .inl ⟨hlt, ?_⟩
        rcases doOp_applied r.sm (r.applied + 1) msg.command.opcommad with e | e
        · exact (congrArg Store.applied e).trans_lt h2
        · exact e.trans_lt hlt
      · have e : i = r.applied + 1 := by omega
        subst e
        exact .inr (.inl ⟨msg.command, _, r.sm, rfl, h2, rfl⟩)
    · exact absurd hdone (hnot op res)
    · refine .inr (.inr ⟨Nat.le_succ_of_le hpast, ?_⟩)
      intro op res e
      cases e
      omega
  · rw [Service.readMsg_snapshot hc hs]
    have hpast : i ≤ msg.snapshotIndex → Clear { r with
        sm := tar.unpack (msg.snapshot.getD []), applied := msg.snapshotIndex } i :=
      fun hle => .inr (.inr ⟨hle, hnot⟩)
    rcases h with ⟨h1, h2⟩ | ⟨op, res, _, hdone, _⟩ | ⟨hle, _⟩
    · rcases Nat.lt_or_ge msg.snapshotIndex i with hlt' | hge
      · exact .inl ⟨hlt', hN.trans_lt hlt'⟩
      · exact hpast hge
    · exact absurd hdone (hnot op res)
    · exact hpast (hle.trans hlt.le)

end Clear

/-! ## 3. The invariant -/

/-- A Submit has drawn the number of the command, for its request. -/
def Submitted (submits : List (Rsm.Submit NodeID (Req Key Value) (Result Value)))
    (op : Command Key Value) : Prop :=
  ∃ (c : ℕ) (x : Rsm.Submit NodeID (Req Key Value) (Result Value)), submits[c]? = some x ∧
    x.hashNum = some op.hashNum ∧ x.req = op.opcommad

/-- What a Submit has been sent, and what it has returned, answers its request. -/
structure Served (x : Rsm.Submit NodeID (Req Key Value) (Result Value)) : Prop where
  sent : ∀ res, x.ch.buf = some res → Answers x.req res
  returned : ∀ res, x.pc = .returned .ok res → ∃ r, res = some r ∧ Answers x.req r

section Invariant

variable [DecidableEq NodeID] [Inhabited Key]

/-- The store has applied nothing that the node has not had committed. -/
def Covered (cfg : Config NodeID) (c : Cluster NodeID (Command Key Value)) (n : NodeID)
    (store : Store Key Value) : Prop :=
  ∃ c₀, Cluster.Reachable cfg c₀ ∧ Cluster.Run cfg c₀ c ∧
    store.applied ≤ (c₀.node n).rf.commitIndex

/-- What the reader of a node says. -/
structure ReaderOk (submits : List (Rsm.Submit NodeID (Req Key Value) (Result Value)))
    (r : Rsm.RSM (Store Key Value) (Req Key Value) (Result Value)) : Prop where
  done : ∀ i op res, r.loop = .done i op res → i = r.applied ∧ Submitted submits op
  notified : ∀ i, r.loop = .notified i → i = r.applied

theorem Covered.step {cfg : Config NodeID} {c c' : Cluster NodeID (Command Key Value)} {n : NodeID}
    {store : Store Key Value} (h : Covered cfg c n store) (hs : Cluster.Step cfg c c') :
    Covered cfg c' n store := by
  obtain ⟨c₀, h0, hr, hle⟩ := h
  exact ⟨c₀, h0, hr.tail hs, hle⟩

variable [DecidableEq Key] [Inhabited Value]

structure Inv (cfg : Config NodeID) (tar : Tar Key Value) (s : System NodeID Key Value) : Prop where
  reach : Cluster.Reachable cfg s.cluster
  sound : Rsm.Sound s.rsms.board
  numbered : Rsm.Numbered s.rsms.board
  stems : Stems (Submitted s.rsms.submits) s.cluster
  /-- No snapshot that was made is ahead of its index. -/
  made : ∀ x ∈ s.cluster.made, (tar.unpack x.2.2).applied ≤ x.2.1
  applied : ∀ n, (s.rsms.rsm n).applied = (s.cluster.node n).delivered
  reader : ∀ n, ReaderOk s.rsms.submits (s.rsms.rsm n)
  covered : ∀ n, Covered cfg s.cluster n (s.rsms.rsm n).sm
  clear : ∀ n i, Rsm.Claimed s.rsms.board n i → Clear (s.rsms.rsm n) i
  served : ∀ (c : ℕ) x, s.rsms.submits[c]? = some x → Served x

variable {cfg : Config NodeID} {tar : Tar Key Value} {s s' : System NodeID Key Value}

theorem inv_init : Inv cfg tar (.init : System NodeID Key Value) where
  reach := .refl
  sound := Rsm.sound_init
  numbered := ⟨fun _ _ hx => (by cases hx), fun _ _ _ _ _ hx => (by cases hx),
    fun _ _ _ _ hc => (by cases hc)⟩
  stems := stems_init
  made _ hx := absurd hx List.not_mem_nil
  applied _ := rfl
  reader _ := ⟨fun _ _ _ e => (by cases e), fun _ e => (by cases e)⟩
  covered _ := ⟨.init, .refl, .refl, Nat.zero_le _⟩
  clear n i hc := by
    rcases hc with ⟨c, hc⟩ | ⟨c, x, term, hx, _⟩
    · cases hc
    · cases hx
  served _ _ hx := by cases hx

/-- **What a waiting Submit is about to be sent** is the result of its own operation, which `DoOp`
    has just run on a store with a lower applied index. -/
theorem Inv.own (h : Inv cfg tar s) {n : NodeID} {i c : ℕ} {op : Command Key Value}
    {res : Result Value} (hloop : (s.rsms.rsm n).loop = .done i op res)
    (hc : (s.rsms.rsm n).chMap i = some c)
    (hown : (s.rsms.rsm n).hashNumMap i = some op.hashNum) :
    ∃ x store, s.rsms.submits[c]? = some x ∧ x.req = op.opcommad ∧ store.applied < i ∧
      doOp store i op.opcommad = ((s.rsms.rsm n).sm, res) := by
  obtain ⟨hidx, c', x', hx', hn', hreq'⟩ := (h.reader n).done i op res hloop
  obtain ⟨x, hx, _⟩ := h.sound.waits n i c hc
  -- the number is the owner's, and the entry's
  have hnum : x.hashNum = some op.hashNum := (h.numbered.owner n i c x hc hx).symm.trans hown
  obtain rfl : c = c' := h.numbered.unique c c' x x' _ hx hx' hnum hn'
  obtain rfl : x = x' := Option.some.inj (hx.symm.trans hx')
  refine ⟨x, ?_⟩
  rcases h.clear n i (.inl ⟨c, hc⟩) with ⟨hlt, _⟩ | ⟨op', res', store, hdone, hlt, hrun⟩ | ⟨_, hno⟩
  · omega
  · cases hloop.symm.trans hdone
    exact ⟨store, hx, hreq', hlt, hrun⟩
  · exact absurd hloop (hno op res)

/-! ## 4. Steps of the Submits -/

section Submits

variable {act : Rsm.Action NodeID (Req Key Value)}
  {b' : Rsm.Board NodeID (Req Key Value) (Result Value)}

omit [DecidableEq Key] [Inhabited Value] [Inhabited Key] in
/-- Nobody forgets what was submitted. -/
theorem submitted_move {loop : NodeID → Rsm.Loop (Req Key Value) (Result Value)}
    {b : Rsm.Board NodeID (Req Key Value) (Result Value)} (hn : Rsm.Numbered b) (hs : Rsm.Sound b)
    (hm : Rsm.Move loop b act b') {op : Command Key Value} (h : Submitted b.submits op) :
    Submitted b'.submits op := by
  obtain ⟨c, x, hx, hnum, hreq⟩ := h
  obtain ⟨y, hy, hpass⟩ := hm.submit_to hs hx
  obtain ⟨_, hreq', hsame | ⟨_, _, _, hlead, _⟩⟩ := hpass.numbers
  · exact ⟨c, y, hy, hsame.trans hnum, hreq'.trans hreq⟩
  · cases hnum.symm.trans (hn.undrawn c x hx (.inr hlead))

/-- What is sent and returned in a step answers the request. -/
theorem Inv.served_move (h : Inv cfg tar s)
    (hm : Rsm.Move (fun n => (s.rsms.rsm n).loop) s.rsms.board act b') {c : ℕ}
    {y : Rsm.Submit NodeID (Req Key Value) (Result Value)} (hy : b'.submits[c]? = some y) :
    Served y := by
  rcases hm.submit_of h.sound hy with ⟨_, n, req, _, rfl⟩ | ⟨x, hx, hpass⟩
  · exact ⟨fun _ e => (by cases e), fun _ e => (by cases e)⟩
  · have hx' := h.served c x hx
    cases hpass with
    | same => exact hx'
    | registers => exact ⟨hx'.sent, fun _ e => (by cases e)⟩
    | cleaned => exact ⟨hx'.sent, fun _ e => (by cases e)⟩
    | closed => exact ⟨fun _ e => (by cases e), hx'.returned⟩
    | gets n i op res hloop hc hown =>
        refine ⟨fun res' e => ?_, hx'.returned⟩
        cases e
        obtain ⟨x', store, hx1, hreq, hlt, hrun⟩ := h.own hloop hc hown
        cases hx.symm.trans hx1
        have hans := doOp_answers hlt op.opcommad
        rw [hrun] at hans
        rw [hreq]
        exact hans
    | goes t y' hact hgo =>
        cases hgo with
        | lead | refused | rejected | start | lost | tickOut | timeOut =>
            exact ⟨hx'.sent, fun _ e => (by cases e)⟩
        | take logId term res hpc hbuf =>
            refine ⟨fun _ e => (by cases e), fun res' e => ?_⟩
            cases e
            exact ⟨res, rfl, hx'.sent res hbuf⟩

omit [DecidableEq NodeID] [Inhabited Key] [DecidableEq Key] [Inhabited Value] in
/-- A reader that has not moved, with more Submits. -/
theorem ReaderOk.congr {submits submits' : List (Rsm.Submit NodeID (Req Key Value) (Result Value))}
    {r r' : Rsm.RSM (Store Key Value) (Req Key Value) (Result Value)} (h : ReaderOk submits r)
    (e : r'.reader = r.reader) (hsub : ∀ op, Submitted submits op → Submitted submits' op) :
    ReaderOk submits' r' := by
  obtain ⟨_, e⟩ := Prod.mk.inj e
  obtain ⟨e2, e3⟩ := Prod.mk.inj e
  refine ⟨fun i op res hl => ?_, fun i hl => ?_⟩
  · obtain ⟨h1, h2⟩ := h.done i op res (e3.symm.trans hl)
    exact ⟨h1.trans e2.symm, hsub op h2⟩
  · exact (h.notified i (e3.symm.trans hl)).trans e2.symm

/-- A step in which Raft has no part. -/
theorem Inv.move (h : Inv cfg tar s) {rsms : Servers NodeID Key Value}
    (hm : Rsm.Move (fun n => (s.rsms.rsm n).loop) s.rsms.board act rsms.board)
    (hstart : ∀ c n answer, act ≠ .turn c (.start n answer))
    (hsm : ∀ n, (rsms.rsm n).sm = (s.rsms.rsm n).sm)
    (happ : ∀ n, (rsms.rsm n).applied = (s.rsms.rsm n).applied)
    (hreader : ∀ n, ReaderOk rsms.submits (rsms.rsm n))
    (hclear : ∀ n i, Clear (s.rsms.rsm n) i → Clear (rsms.rsm n) i) :
    Inv cfg tar { s with rsms := rsms } where
  reach := h.reach
  sound := h.sound.move hm
  numbered := h.numbered.move h.sound hm fun c n answer e => absurd e (hstart c n answer)
  stems := h.stems.imp fun _ hop => submitted_move h.numbered h.sound hm hop
  made := h.made
  applied n := (happ n).trans (h.applied n)
  reader := hreader
  covered n := by
    show Covered cfg s.cluster n (rsms.rsm n).sm
    rw [hsm n]
    exact h.covered n
  clear n i hc := by
    rcases Rsm.claimed_of h.sound hm hc with hold | ⟨c, x, k, term, hact, _⟩
    · exact hclear n i (h.clear n i hold)
    · exact absurd hact (hstart c k _)
  served c x hx := h.served_move hm hx

/-- A step of a Submit, or a new one: no reader moves. -/
theorem Inv.submits (h : Inv cfg tar s) {rsms : Servers NodeID Key Value}
    (hm : Rsm.Move (fun n => (s.rsms.rsm n).loop) s.rsms.board act rsms.board)
    (hstart : ∀ c n answer, act ≠ .turn c (.start n answer))
    (hsame : ∀ n, (rsms.rsm n).reader = (s.rsms.rsm n).reader) :
    Inv cfg tar { s with rsms := rsms } := by
  refine h.move hm hstart (fun n => congrArg Prod.fst (hsame n))
    (fun n => congrArg (fun x => x.2.1) (hsame n)) (fun n => ?_) fun n i hc => hc.congr (hsame n)
  exact (h.reader n).congr (hsame n) fun _ hop => submitted_move h.numbered h.sound hm hop

/-- `readApplyCh` has told who waits. -/
theorem Inv.notify (h : Inv cfg tar s) {n : NodeID} {rsms : Servers NodeID Key Value}
    (hn : s.rsms.notify n = some rsms) : Inv cfg tar { s with rsms := rsms } := by
  have hm := Rsm.notify_move hn
  obtain ⟨j, op, res, hloop, hself, hothers⟩ := Rsm.notify_reader hn
  obtain ⟨e1, e2⟩ := Prod.mk.inj hself
  obtain ⟨e2, e3⟩ := Prod.mk.inj e2
  have hsub : ∀ op, Submitted s.rsms.submits op → Submitted rsms.submits op :=
    fun _ hop => submitted_move h.numbered h.sound hm hop
  have hj := (h.reader n).done j op res hloop
  refine h.move hm (fun _ _ _ e => (by cases e)) ?_ ?_ ?_ ?_
  · intro m
    by_cases hne : m = n
    · subst hne
      exact e1
    · rw [hothers m hne]
  · intro m
    by_cases hne : m = n
    · subst hne
      exact e2
    · rw [hothers m hne]
  · intro m
    by_cases hne : m = n
    · subst hne
      refine ⟨fun i op' res' e => (by cases e3.symm.trans e), fun i e => ?_⟩
      cases e3.symm.trans e
      exact hj.1.trans e2.symm
    · exact (h.reader m).congr (congrArg Rsm.RSM.reader (hothers m hne)) hsub
  · intro m i hc
    by_cases hne : m = n
    · subst hne
      refine hc.goOn e1 e2 (fun k op' res' hl => ((h.reader m).done k op' res' hl).1.le) ?_
      intro op' res' e
      cases e3.symm.trans e
    · exact hc.congr (congrArg Rsm.RSM.reader (hothers m hne))

end Submits

/-! ## 5. Sections of Raft -/

/-- What a section of node `n` has done to the RSMs, Raft not counted. -/
structure Entered (cfg : Config NodeID) (tar : Tar Key Value) (s : System NodeID Key Value)
    (n : NodeID) (ev : Event NodeID (Command Key Value)) (rsms : Servers NodeID Key Value) :
    Prop where
  sound : Rsm.Sound rsms.board
  numbered : Rsm.Numbered rsms.board
  submitted : ∀ op, Submitted s.rsms.submits op → Submitted rsms.submits op
  starts : ∀ op, ev = .start op → Submitted rsms.submits op
  made : ∀ index data, ev = .snapshot index data → (tar.unpack data).applied ≤ index
  others : ∀ m, m ≠ n → (rsms.rsm m).reader = (s.rsms.rsm m).reader
  applied : ev ≠ .apply ∧ (rsms.rsm n).applied = (s.rsms.rsm n).applied ∨
    ev = .apply ∧ ∀ msg rest, (s.cluster.node n).applying = msg :: rest →
      (rsms.rsm n).applied = msg.index
  reader : ReaderOk rsms.submits (rsms.rsm n)
  covered : Covered cfg s.cluster n (rsms.rsm n).sm
  clear : ∀ m i, Rsm.Claimed rsms.board m i → Clear (rsms.rsm m) i
  served : ∀ (c : ℕ) x, rsms.submits[c]? = some x → Served x

section Sections

variable {n : NodeID} {ev : Event NodeID (Command Key Value)} {rsms : Servers NodeID Key Value}

/-- Raft's own sections do not touch the service. -/
theorem Inv.enterOwn (h : Inv cfg tar s) (hown : Service.isOwn ev = true) :
    Entered cfg tar s n ev s.rsms where
  sound := h.sound
  numbered := h.numbered
  submitted _ hop := hop
  starts _ e := by
    rw [e] at hown
    cases hown
  made _ _ e := by
    rw [e] at hown
    cases hown
  others _ _ := rfl
  applied := by
    refine .inl ⟨fun e => ?_, rfl⟩
    rw [e] at hown
    cases hown
  reader := h.reader n
  covered := h.covered n
  clear := h.clear
  served := h.served

/-- **What `Start` gives is clear**: it is above all that the node has ever had committed. -/
theorem Inv.clear_start (h : Inv cfg tar s) {op : Command Key Value} {i term : ℕ}
    (ha : Service.startAnswer (s.cluster.node n).rf op = some (i, term)) : Clear (s.rsms.rsm n) i := by
  obtain ⟨hl, rfl, _⟩ := Service.startAnswer_iff.mp ha
  refine .inl ⟨?_, ?_⟩
  · obtain ⟨a, hsim⟩ := reachable_sim h.reach
    have hdel := (hsim.proc n).delivered
    have hcommit := commitIndex_le_leader h.reach .refl hl
    rw [h.applied n]
    omega
  · obtain ⟨c₀, h0, hr, hle⟩ := h.covered n
    have hcommit := commitIndex_le_leader h0 hr hl
    omega

/-- `Start` is called by a Submit that holds `mu`. -/
theorem Inv.enterStart (h : Inv cfg tar s) {c hashNum : ℕ}
    {x : Rsm.Submit NodeID (Req Key Value) (Result Value)} (hx : s.rsms.submits[c]? = some x)
    (ht : s.rsms.turn c x (.start hashNum
      (Service.startAnswer (s.cluster.node x.srv).rf ⟨x.req, hashNum⟩)) = some rsms) :
    Entered cfg tar s x.srv (.start ⟨x.req, hashNum⟩) rsms := by
  have hm : Rsm.Move (fun n => (s.rsms.rsm n).loop) s.rsms.board _ rsms.board :=
    Rsm.turn_move hx ht
  have hsame := Rsm.turn_reader ht
  have hsub : ∀ op, Submitted s.rsms.submits op → Submitted rsms.submits op :=
    fun _ hop => submitted_move h.numbered h.sound hm hop
  refine ⟨h.sound.move hm, h.numbered.move h.sound hm (Rsm.turn_fresh ht), hsub, ?_,
    fun _ _ e => (by cases e), fun m _ => hsame m, ?_, ?_, ?_, ?_,
    fun c y hy => h.served_move hm hy⟩
  · intro op e
    cases e
    obtain ⟨y, hy, hreq, hn⟩ := Rsm.turn_started hx ht
    exact ⟨c, y, hy, hn, hreq⟩
  · exact .inl ⟨fun e => (by cases e), congrArg (fun r => r.2.1) (hsame x.srv)⟩
  · exact (h.reader x.srv).congr (hsame x.srv) hsub
  · have e : (rsms.rsm x.srv).sm = (s.rsms.rsm x.srv).sm := congrArg Prod.fst (hsame x.srv)
    rw [e]
    exact h.covered x.srv
  · intro m i hc
    refine Clear.congr ?_ (hsame m)
    rcases Rsm.claimed_of h.sound hm hc with hold | ⟨c', x', k, term, hact, hx', rfl⟩
    · exact h.clear m i hold
    · injection hact with hc' hturn
      injection hturn with hk hanswer
      subst hc'
      cases hx.symm.trans hx'
      exact h.clear_start hanswer

/-- The RSM of one node is replaced, with the same maps. -/
theorem Inv.enterReader (h : Inv cfg tar s)
    {r : Rsm.RSM (Store Key Value) (Req Key Value) (Result Value)}
    (hch : r.chMap = (s.rsms.rsm n).chMap) (hhash : r.hashNumMap = (s.rsms.rsm n).hashNumMap)
    (hstart : ∀ op, ev ≠ .start op)
    (hmade : ∀ index data, ev = .snapshot index data → (tar.unpack data).applied ≤ index)
    (happ : ev ≠ .apply ∧ r.applied = (s.rsms.rsm n).applied ∨
      ev = .apply ∧ ∀ msg rest, (s.cluster.node n).applying = msg :: rest → r.applied = msg.index)
    (hr : ReaderOk s.rsms.submits r) (hcov : Covered cfg s.cluster n r.sm)
    (hclear : ∀ i, Clear (s.rsms.rsm n) i → Clear r i) :
    Entered cfg tar s n ev (s.rsms.setRsm n r) := by
  have hself : (s.rsms.setRsm n r).rsm n = r := Function.update_self _ _ _
  have hother : ∀ m, m ≠ n → (s.rsms.setRsm n r).rsm m = s.rsms.rsm m :=
    fun m hm => Function.update_of_ne hm _ _
  have hboard : (s.rsms.setRsm n r).board = s.rsms.board := Rsm.board_of_same rfl hch hhash
  refine ⟨?_, ?_, fun _ hop => hop, fun op e => absurd e (hstart op), hmade,
    fun m hm => congrArg _ (hother m hm), ?_, ?_, ?_, ?_, h.served⟩
  · rw [hboard]
    exact h.sound
  · rw [hboard]
    exact h.numbered
  · rw [hself]
    exact happ
  · rw [hself]
    exact hr
  · rw [hself]
    exact hcov
  · intro m i hc
    rw [hboard] at hc
    by_cases hm : m = n
    · subst hm
      rw [hself]
      exact hclear i (h.clear m i hc)
    · rw [hother m hm]
      exact h.clear m i hc

/-- What `readApplyCh` is about to take. -/
theorem Inv.message (h : Inv cfg tar s) {msg : ApplyMsg (Command Key Value)}
    {rest : List (ApplyMsg (Command Key Value))}
    (happ : (s.cluster.node n).applying = msg :: rest) :
    msg.index ≤ (s.cluster.node n).rf.commitIndex ∧
    ((msg.commandValid = true ∧ msg.commandIndex = (s.rsms.rsm n).applied + 1 ∧
        msg.index = msg.commandIndex ∧ Submitted s.rsms.submits msg.command) ∨
      (msg.commandValid = false ∧ msg.snapshotValid = true ∧
        (s.rsms.rsm n).applied < msg.snapshotIndex ∧ msg.index = msg.snapshotIndex ∧
        (tar.unpack (msg.snapshot.getD [])).applied ≤ msg.snapshotIndex)) := by
  obtain ⟨a, hsim⟩ := reachable_sim h.reach
  have hmem : msg ∈ (s.cluster.node n).applying := by
    rw [happ]
    exact List.mem_cons_self
  refine ⟨((hsim.proc n).applying msg hmem).2, ?_⟩
  have hfeed := pending_reachable h.reach n
  unfold Pending at hfeed
  rw [happ, ← h.applied n] at hfeed
  rcases hfeed with ⟨hc, hs, hidx, _, _⟩ | ⟨hc, hs, hlt, ⟨m, hmade⟩, _⟩
  · exact .inl ⟨hc, hidx, by simp [ApplyMsg.index, hs], h.stems.applying n msg hmem hc⟩
  · exact .inr ⟨hc, hs, hlt, by simp [ApplyMsg.index, hs], h.made _ hmade⟩

/-- **`readApplyCh` takes a message** and runs `DoOp` or `Restore`. -/
theorem Inv.enterHandle (h : Inv cfg tar s) (hloop : (s.rsms.rsm n).loop = .reading)
    {msg : ApplyMsg (Command Key Value)} {rest : List (ApplyMsg (Command Key Value))}
    (happ : (s.cluster.node n).applying = msg :: rest) :
    Entered cfg tar s n .apply (s.rsms.setRsm n (Service.readMsg (app tar) (s.rsms.rsm n) msg)) := by
  obtain ⟨hle, hmsg⟩ := h.message happ
  have hnow : ∀ store : Store Key Value, store.applied ≤ msg.index →
      Covered cfg s.cluster n store :=
    fun store hs => ⟨s.cluster, h.reach, .refl, hs.trans hle⟩
  have hclear : ∀ i, Clear (s.rsms.rsm n) i → Clear (Service.readMsg (app tar) (s.rsms.rsm n) msg) i := by
    intro i hi
    refine hi.readMsg hloop (hmsg.imp ?_ ?_)
    · exact fun ⟨h1, h2, _⟩ => ⟨h1, h2⟩
    · exact fun ⟨h1, h2, h3, _, h5⟩ => ⟨h1, h2, h3, h5⟩
  have happ' : ∀ r : Rsm.RSM (Store Key Value) (Req Key Value) (Result Value),
      r.applied = msg.index → (Event.apply : Event NodeID (Command Key Value)) = .apply ∧
        ∀ msg' rest', (s.cluster.node n).applying = msg' :: rest' → r.applied = msg'.index := by
    intro r hr
    refine ⟨rfl, fun msg' rest' e => ?_⟩
    cases happ.symm.trans e
    exact hr
  rcases hmsg with ⟨hc, _, hi, hsub⟩ | ⟨hc, hs, _, hi, hN⟩
  · rw [Service.readMsg_command hc] at hclear ⊢
    refine h.enterReader rfl rfl (fun _ e => (by cases e)) (fun _ _ e => (by cases e))
      (.inr (happ' _ hi.symm)) ⟨fun i op res e => ?_, fun i e => (by cases e)⟩ ?_ hclear
    · cases e
      exact ⟨rfl, hsub⟩
    · rcases doOp_applied (s.rsms.rsm n).sm msg.commandIndex msg.command.opcommad with e | e
      · show Covered cfg s.cluster n
          (doOp (s.rsms.rsm n).sm msg.commandIndex msg.command.opcommad).1
        rw [e]
        exact h.covered n
      · exact hnow _ (e.trans hi.symm).le
  · rw [Service.readMsg_snapshot hc hs] at hclear ⊢
    refine h.enterReader rfl rfl (fun _ e => (by cases e)) (fun _ _ e => (by cases e))
      (.inr (happ' _ hi.symm)) ⟨fun i op res e => ?_, fun i e => ?_⟩ (hnow _ (hN.trans hi.ge))
      hclear
    · cases hloop.symm.trans e
    · cases hloop.symm.trans e

/-- `readApplyCh` calls `Snapshot` with a store that is not ahead, or reads on without. -/
theorem Inv.enterCompact (h : Inv cfg tar s) {index : ℕ}
    (hloop : (s.rsms.rsm n).loop = .notified index)
    (hstart : ∀ op, ev ≠ .start op) (happly : ev ≠ .apply)
    (hmade : ∀ index data, ev = .snapshot index data → (tar.unpack data).applied ≤ index) :
    Entered cfg tar s n ev (s.rsms.setRsm n { s.rsms.rsm n with loop := .reading }) := by
  refine h.enterReader rfl rfl hstart hmade (.inl ⟨happly, rfl⟩)
    ⟨fun _ _ _ e => (by cases e), fun _ e => (by cases e)⟩ (h.covered n) fun i hi => ?_
  refine hi.goOn rfl rfl (fun j op res e => ?_) fun _ _ e => (by cases e)
  cases hloop.symm.trans e

omit [DecidableEq NodeID] [Inhabited Key] [DecidableEq Key] [Inhabited Value] in
/-- A store that is not ahead of the index. -/
theorem fits_compact {index : ℕ} (hfit : s.Fits (.run (.compact n)))
    (hloop : (s.rsms.rsm n).loop = .notified index) : (s.rsms.rsm n).sm.applied ≤ index := by
  simp only [System.Fits, System.fits, hloop] at hfit
  exact of_decide_eq_true hfit

/-- **What a section does to the RSMs.** -/
theorem Inv.enter (h : Inv cfg tar s) {e : Entry NodeID Key Value} (hfit : s.Fits (.run e))
    (he : Service.Enters (app tar) (place NodeID) s.cluster s.rsms e n ev rsms) :
    Entered cfg tar s n ev rsms := by
  cases he with
  | own hown => exact h.enterOwn hown
  | start hx _ ht => exact h.enterStart hx ht
  | handle hloop happ => exact h.enterHandle hloop happ
  | @compact _ index hloop =>
      refine h.enterCompact hloop (fun _ e => (by cases e)) (fun e => (by cases e)) ?_
      intro index' data e
      cases e
      show (tar.unpack (tar.pack (s.rsms.rsm n).sm)).applied ≤ index
      rw [tar.unpack_pack]
      exact fits_compact hfit hloop

end Sections

/-! ## 6. Raft takes its step -/

section Raft

variable {n : NodeID} {ev : Event NodeID (Command Key Value)} {rsms : Servers NodeID Key Value}

theorem Entered.reader_of (he : Entered cfg tar s n ev rsms) (h : Inv cfg tar s) (m : NodeID) :
    ReaderOk rsms.submits (rsms.rsm m) := by
  by_cases e : m = n
  · subst e
    exact he.reader
  · exact (h.reader m).congr (he.others m e) he.submitted

theorem Entered.covered_of (he : Entered cfg tar s n ev rsms) (h : Inv cfg tar s) (m : NodeID) :
    Covered cfg s.cluster m (rsms.rsm m).sm := by
  by_cases e : m = n
  · subst e
    exact he.covered
  · rw [show (rsms.rsm m).sm = (s.rsms.rsm m).sm from congrArg Prod.fst (he.others m e)]
    exact h.covered m

theorem Entered.applied_others (he : Entered cfg tar s n ev rsms) (h : Inv cfg tar s) {m : NodeID}
    (hm : m ≠ n) : (rsms.rsm m).applied = (s.cluster.node m).delivered :=
  (congrArg (fun r => r.2.1) (he.others m hm)).trans (h.applied m)

/-- The RSMs without a step of Raft. -/
theorem Inv.stay (h : Inv cfg tar s) (he : Entered cfg tar s n ev rsms) (hev : ev ≠ .apply) :
    Inv cfg tar { s with rsms := rsms } where
  reach := h.reach
  sound := he.sound
  numbered := he.numbered
  stems := h.stems.imp he.submitted
  made := h.made
  applied m := by
    by_cases e : m = n
    · subst e
      rcases he.applied with ⟨_, hsame⟩ | ⟨happ, _⟩
      · exact hsame.trans (h.applied m)
      · exact absurd happ hev
    · exact he.applied_others h e
  reader := he.reader_of h
  covered := he.covered_of h
  clear := he.clear
  served := he.served

variable [DecidableEq Value] {cluster : Cluster NodeID (Command Key Value)}
  {act : Cluster.Action NodeID (Command Key Value)}

theorem Entered.stems (he : Entered cfg tar s n ev rsms) (h : Inv cfg tar s)
    (hs : s.cluster.next cfg n act = some cluster) (hev : ∀ ev', act.event = some ev' → ev' = ev) :
    Stems (Submitted rsms.submits) cluster :=
  (h.stems.imp he.submitted).next h.reach (fun op e => he.starts op (hev _ e).symm) hs

theorem Entered.made_of (he : Entered cfg tar s n ev rsms) (h : Inv cfg tar s)
    (hs : s.cluster.next cfg n act = some cluster) (hev : ∀ ev', act.event = some ev' → ev' = ev) :
    ∀ x ∈ cluster.made, (tar.unpack x.2.2).applied ≤ x.2.1 := by
  intro x hx
  rcases next_made hs hx with hold | hnew
  · exact h.made x hold
  · exact he.made _ _ (hev _ hnew).symm

/-- The section is run to its end. -/
theorem Inv.run (h : Inv cfg tar s) (he : Entered cfg tar s n ev rsms)
    (hs : s.cluster.next cfg n (.run ev) = some cluster) : Inv cfg tar ⟨cluster, rsms⟩ where
  reach := h.reach.tail (Cluster.next_step hs)
  sound := he.sound
  numbered := he.numbered
  stems := he.stems h hs fun _ e => (Option.some.inj e).symm
  made := he.made_of h hs fun _ e => (Option.some.inj e).symm
  applied m := by
    show (rsms.rsm m).applied = (cluster.node m).delivered
    by_cases e : m = n
    · subst e
      rcases next_delivered hs with ⟨hev, hd⟩ | ⟨hev, msg, rest, happ, hd⟩
      · rcases he.applied with ⟨_, hsame⟩ | ⟨hev', _⟩
        · rw [hsame, hd]
          exact h.applied m
        · exact absurd hev' hev
      · rcases he.applied with ⟨hev', _⟩ | ⟨_, htaken⟩
        · exact absurd hev hev'
        · rw [htaken msg rest happ, hd]
    · rw [next_others hs e]
      exact he.applied_others h e
  reader := he.reader_of h
  covered m := (he.covered_of h m).step (Cluster.next_step hs)
  clear := he.clear
  served := he.served

omit [Inhabited Key] [DecidableEq Key] [Inhabited Value] [DecidableEq Value] in
theorem reboot_board (rsms : Servers NodeID Key Value) (n : NodeID) (applied : ℕ) :
    (reboot rsms n applied).board = rsms.board.killed n :=
  congrArg₂ (Rsm.Board.mk _)
    (Function.comp_update (fun r : Rsm.RSM (Store Key Value) (Req Key Value) (Result Value) =>
      r.chMap) rsms.rsm n _)
    (Function.comp_update (fun r : Rsm.RSM (Store Key Value) (Req Key Value) (Result Value) =>
      r.hashNumMap) rsms.rsm n _)

omit [Inhabited Key] [DecidableEq Key] [Inhabited Value] [DecidableEq Value] in
/-- What was submitted before the process died was submitted. -/
theorem submitted_reboot {applied : ℕ} {op : Command Key Value}
    (h : Submitted rsms.submits op) : Submitted (reboot rsms n applied).submits op := by
  obtain ⟨c, x, hx, hn, hreq⟩ := h
  have hy : (reboot rsms n applied).submits[c]? = some (x.killed n) := by
    show (rsms.submits.map (·.killed n))[c]? = _
    rw [List.getElem?_map, hx]
    rfl
  refine ⟨c, x.killed n, hy, ?_⟩
  rcases Rsm.killed_cases n x with ⟨e, _⟩ | ⟨e, _⟩
  · rw [e]
    exact ⟨hn, hreq⟩
  · rw [e]
    exact ⟨hn, hreq⟩

/-- **The process of the node has died**, inside a section or at rest, and is started again: its
    store is where it was, and nobody waits there. -/
theorem Inv.reboot (h : Inv cfg tar s) (he : Entered cfg tar s n ev rsms)
    (hs : s.cluster.next cfg n act = some cluster) (hev : ∀ ev', act.event = some ev' → ev' = ev) :
    Inv cfg tar ⟨cluster, reboot rsms n (cluster.node n).delivered⟩ := by
  have hboard := reboot_board rsms n (cluster.node n).delivered
  have hself : (Raftkvd.reboot rsms n (cluster.node n).delivered).rsm n =
      ⟨(rsms.rsm n).sm, (cluster.node n).delivered, fun _ => none, fun _ => none, none, .reading⟩ :=
    Function.update_self _ _ _
  have hother : ∀ m, m ≠ n →
      (Raftkvd.reboot rsms n (cluster.node n).delivered).rsm m = rsms.rsm m :=
    fun m hm => Function.update_of_ne hm _ _
  refine ⟨h.reach.tail (Cluster.next_step hs), ?_, ?_, ?_, he.made_of h hs hev, ?_, ?_, ?_, ?_, ?_⟩
  · dsimp only
    rw [hboard]
    exact he.sound.killed n
  · dsimp only
    rw [hboard]
    exact he.numbered.killed n
  · exact (he.stems h hs hev).imp fun _ hop => submitted_reboot hop
  · intro m
    dsimp only
    by_cases e : m = n
    · subst e
      rw [hself]
    · rw [hother m e, next_others hs e]
      exact he.applied_others h e
  · intro m
    dsimp only
    by_cases e : m = n
    · subst e
      rw [hself]
      exact ⟨fun _ _ _ e => (by cases e), fun _ e => (by cases e)⟩
    · rw [hother m e]
      exact (he.reader_of h m).congr rfl fun _ hop => submitted_reboot hop
  · intro m
    have hcov := (he.covered_of h m).step (Cluster.next_step hs)
    dsimp only
    by_cases e : m = n
    · subst e
      rw [hself]
      exact hcov
    · rw [hother m e]
      exact hcov
  · intro m i hc
    dsimp only at hc ⊢
    rw [hboard] at hc
    obtain ⟨hne, hold⟩ := Rsm.claimed_of_killed hc
    rw [hother m hne]
    exact he.clear m i hold
  · intro c y hy
    replace hy : (rsms.board.killed n).submits[c]? = some y := hy
    obtain ⟨x, hx, _, hreq, _, hch, hpc⟩ := Rsm.of_killed hy
    have hx' := he.served c x hx
    refine ⟨?_, ?_⟩
    · rw [hch, hreq]
      exact hx'.sent
    · rw [hreq]
      intro res e
      rcases hpc with ⟨hsame, _⟩ | hdied
      · exact hx'.returned res (hsame.symm.trans e)
      · cases hdied.symm.trans e

end Raft

/-! ## 7. Every run -/

variable [DecidableEq Value]

omit [DecidableEq NodeID] [Inhabited Key] [DecidableEq Key] [Inhabited Value] [DecidableEq Value] in
theorem fits_crash (s : System NodeID Key Value) (e : Entry NodeID Key Value) (k j : ℕ) :
    s.fits (.crash e k j) = s.fits (.run e) := by
  cases e <;> rfl

/-- **One step.** -/
theorem inv_next {act : Action NodeID Key Value} (h : Inv cfg tar s) (hfit : s.Fits act)
    (hs : s.next tar cfg act = some s') : Inv cfg tar s' := by
  obtain ⟨o, ho, rfl⟩ := System.next_iff.mp hs
  cases ho with
  | submit hsubmit =>
      cases hsubmit
      exact h.submits (.submit _ _) (fun _ _ _ e => (by cases e)) fun _ => rfl
  | turn hx _ htold ht =>
      refine h.submits (Rsm.turn_move hx ht) ?_ (Rsm.turn_reader ht)
      -- `Start` is no turn of its own here
      intro c' k answer e
      cases e
      cases htold
  | run he hc => exact h.run (h.enter hfit he) hc
  | crash he hc =>
      rw [System.Fits, fits_crash] at hfit
      exact h.reboot (h.enter hfit he) hc fun _ e => (Option.some.inj e).symm
  | @restart n _ hc =>
      -- no section has been entered; a heartbeat would have left the RSMs as they are
      have he : Entered cfg tar s n .heartbeat s.rsms := h.enterOwn rfl
      exact h.reboot he hc fun _ e => (by cases e)
  | notify ht => exact h.notify ht
  | @skip n index hloop =>
      have he : Entered cfg tar s n .heartbeat _ := h.enterCompact hloop (fun _ e => (by cases e))
        (fun e => (by cases e)) fun _ _ e => (by cases e)
      exact h.stay he fun e => (by cases e)

theorem inv_reachable (h : s.FitReachable tar cfg) : Inv cfg tar s := by
  refine run_inv ?_ h inv_init
  intro s s' hs hI
  obtain ⟨act, hfit, hs⟩ := hs
  exact inv_next hI hfit hs

/-- **No client waits for an entry that is skipped**, in any run in which no node compacts its log
    at an index that its store is ahead of: what `readApplyCh` is about to send to a channel is what
    `DoOp` has returned for the request of the Submit that made it, at an index above the applied
    index of the store. And whatever Submit returns, its handler gets to its end. -/
theorem waiters_answered (cfg : Config NodeID) (tar : Tar Key Value) {s : System NodeID Key Value}
    (h : s.FitReachable tar cfg) :
    (∀ n i op res c, (s.rsms.rsm n).loop = .done i op res → (s.rsms.rsm n).chMap i = some c →
      (s.rsms.rsm n).hashNumMap i = some op.hashNum →
      ∃ x store, s.rsms.submits[c]? = some x ∧ x.req = op.opcommad ∧ store.applied < i ∧
        doOp store i x.req = ((s.rsms.rsm n).sm, res)) ∧
    ∀ (c : ℕ) x err res, s.rsms.submits[c]? = some x → x.pc = .returned err res →
      KVServer.Replies x.req err res := by
  have hI := inv_reachable h
  refine ⟨?_, ?_⟩
  · intro n i op res c hloop hc hown
    obtain ⟨x, store, hx, hreq, hlt, hrun⟩ := hI.own hloop hc hown
    exact ⟨x, store, hx, hreq, hlt, hreq ▸ hrun⟩
  · intro c x err res hx hpc
    by_cases herr : err = .ok
    · subst herr
      obtain ⟨r, rfl, hans⟩ := (hI.served c x hx).returned res hpc
      exact hans.replies
    · exact replies_of_error herr x.req res

end Invariant

/-! ## 8. A snapshot that is ahead -/

/-- A schedule chooses each action from the state. -/
abbrev Schedule := List (System ℕ ℕ ℕ → Action ℕ ℕ ℕ)

/-- A section of Raft's own. -/
def alone (n : ℕ) (ev : Event ℕ (Command ℕ ℕ)) : System ℕ ℕ ℕ → Action ℕ ℕ ℕ :=
  fun _ => .run (.own n ev)

/-- The `k`-th packet arrives. -/
def hears (k : ℕ) (s : System ℕ ℕ ℕ) : Action ℕ ℕ ℕ :=
  match s.cluster.net[k]? with
  | some pkt => .run (.own pkt.dst (.deliver pkt))
  | none => .notify 0

/-- The `j`-th reply arrives, at the `k`-th open call of the node. -/
def gets (n k j : ℕ) (s : System ℕ ℕ ℕ) : Action ℕ ℕ ℕ :=
  match s.cluster.replies[j]? with
  | some x => .run (.own n (.reply k x.2))
  | none => .notify 0

def does (acts : List (Action ℕ ℕ ℕ)) : Schedule := acts.map fun act _ => act

/-- A client writes a key of its own and waits. -/
def writes (c n hashNum : ℕ) : Schedule := does
  [.submit n (.put ⟨c, 10, 0⟩), .turn c (.getState true), .run (.start c hashNum),
    .turn c .register]

/-- `readApplyCh` takes an entry, and does not compact. -/
def applies (n : ℕ) : Schedule := does [.run (.handle n), .notify n, .skip n]

/-- Node 0 leads term 1. Three clients wait there; node 1 has the first two entries. -/
def termOne : Schedule :=
  [alone 0 .tickerArm, alone 0 .tickerFire, hears 0, gets 0 0 0] ++ writes 0 0 70 ++
    writes 1 0 71 ++ [alone 0 .heartbeat, hears 2] ++ writes 2 0 72

/-- Node 1 leads term 2, puts its own entry at 3, commits it with node 2 and applies all three. -/
def termTwo : Schedule :=
  [alone 1 .tickerArm, alone 1 .tickerFire, hears 5, gets 1 1 2] ++ writes 3 1 73 ++
    [alone 1 .heartbeat, hears 7, gets 1 2 3, alone 1 .heartbeat, hears 9, gets 1 3 4,
      alone 1 .applyBatch] ++ applies 1 ++ applies 1 ++ applies 1 ++ does [.turn 3 .receive]

/-- Node 1 is started again and leads term 3; with node 2 it commits a fourth entry. Its Raft sends
    all four. -/
def termThree : Schedule :=
  does [.restart 1] ++ [alone 1 .tickerArm, alone 1 .tickerFire, hears 11, gets 1 1 5] ++
    writes 4 1 74 ++ [alone 1 .heartbeat, hears 13, gets 1 2 6, hears 12, gets 1 1 7,
      alone 1 .applyBatch]

/-- Node 1 skips three entries and runs the fourth. -/
def replays : Schedule :=
  applies 1 ++ applies 1 ++ applies 1 ++ does [.run (.handle 1)]

/-- Node 1 answers the client of the fourth entry and compacts there; node 0, whose log is shorter,
    installs the snapshot into its database. -/
def installs : Schedule :=
  does [.notify 1, .turn 4 .receive, .run (.compact 1)] ++
    [alone 1 .heartbeat, hears 14, gets 1 1 8, alone 0 .applyBatch] ++ does [.run (.handle 0)]

/-- A fifth entry, committed with node 0; both run it. -/
def goesOn : Schedule :=
  writes 5 1 75 ++ [alone 1 .heartbeat, hears 16, gets 1 2 9, alone 1 .heartbeat, hears 18,
    alone 0 .applyBatch] ++ does [.run (.handle 0)] ++ [alone 1 .applyBatch] ++
    does [.run (.handle 1)]

/-- Node 1 skips one entry and compacts. Node 0 has that entry, installs the snapshot and keeps its
    own second entry, which node 1 has too. -/
def runsAhead : Schedule :=
  does [.run (.handle 1), .notify 1, .run (.compact 1)] ++
    [alone 1 .heartbeat, hears 14, gets 1 1 8, alone 0 .applyBatch] ++ does [.run (.handle 0)] ++
    [alone 1 .heartbeat, hears 16, alone 0 .applyBatch] ++
    does [.run (.handle 0), .notify 0, .turn 1 .receive]

def nextBy (s : System ℕ ℕ ℕ) (f : System ℕ ℕ ℕ → Action ℕ ℕ ℕ) : Option (System ℕ ℕ ℕ) :=
  s.next unaryTar three (f s)

theorem play_reachable {script : Schedule} {s : System ℕ ℕ ℕ}
    (h : Lib.play nextBy .init script = some s) : s.Reachable unaryTar three := by
  refine (Lib.play_run h).lift id ?_
  intro s s' hs
  obtain ⟨f, hf⟩ := hs
  exact ⟨f s, hf⟩

theorem play_fitReachable {script : Schedule} {s : System ℕ ℕ ℕ}
    (h : Lib.play (guarded (fun s f => s.Fits (f s)) nextBy) .init script = some s) :
    s.FitReachable unaryTar three := by
  refine (play_guarded_run h).lift id ?_
  intro s s' hs
  obtain ⟨f, hfit, hf⟩ := hs
  exact ⟨f s, hfit, hf⟩

/-- What a Submit has returned, if it is there and has. -/
def outcome (s : System ℕ ℕ ℕ) (c : ℕ) : Option (Req ℕ ℕ × Err × Option (Result ℕ)) := do
  let x ← s.rsms.submits[c]?
  match x.pc with
  | .returned err res => some (x.req, err, res)
  | _ => none

theorem of_outcome {s : System ℕ ℕ ℕ} {c : ℕ} {req : Req ℕ ℕ} {err : Err}
    {res : Option (Result ℕ)} (h : outcome s c = some (req, err, res)) :
    ∃ x, s.rsms.submits[c]? = some x ∧ x.req = req ∧ x.pc = .returned err res := by
  obtain ⟨x, hx, h⟩ := Option.bind_eq_some_iff.mp h
  split at h
  next hpc =>
    cases h
    exact ⟨x, hx, rfl, hpc⟩
  next => cases h

/-- Node 1 has been started again, has skipped three entries and compacted behind the fourth; node 0
    has installed its snapshot. The client of the fifth entry waits. -/
theorem waiters_answered_replay : ∃ s : System ℕ ℕ ℕ, s.FitReachable unaryTar three ∧
    (s.cluster.node 1).rf.snapshotIndex = 4 ∧ (s.cluster.node 0).rf.snapshotIndex = 4 ∧
    (∃ op res, (s.rsms.rsm 1).loop = .done 5 op res ∧ (s.rsms.rsm 1).chMap 5 = some 5 ∧
      ∃ x store, s.rsms.submits[5]? = some x ∧ x.req = op.opcommad ∧ store.applied < 5 ∧
        doOp store 5 x.req = ((s.rsms.rsm 1).sm, res)) ∧
    ∃ x err res, s.rsms.submits[4]? = some x ∧ x.pc = .returned err res ∧
      KVServer.Replies x.req err res := by
  have hplay : ((Lib.play (guarded (fun s f => s.Fits (f s)) nextBy) .init
      (termOne ++ termTwo ++ termThree ++ replays ++ installs ++ goesOn)).map fun s =>
        decide (((s.cluster.node 1).rf.snapshotIndex = 4 ∧
            (s.cluster.node 0).rf.snapshotIndex = 4) ∧
          (s.rsms.rsm 1).chMap 5 = some 5 ∧ (s.rsms.rsm 1).hashNumMap 5 = some 75 ∧
          (s.rsms.rsm 1).loop.pending = some (5, ⟨.put ⟨5, 10, 0⟩, 75⟩, some (.put ⟨.ok⟩)) ∧
          outcome s 4 = some (.put ⟨4, 10, 0⟩, .ok, some (some (.put ⟨.ok⟩))))) = some true := by
    decide +kernel
  obtain ⟨s, hs, hread⟩ := Option.map_eq_some_iff.mp hplay
  obtain ⟨⟨hsnap1, hsnap0⟩, hc, hown, hloop, hout⟩ := of_decide_eq_true hread
  obtain ⟨x, hx, _, hpc⟩ := of_outcome hout
  have hreach := play_fitReachable hs
  obtain ⟨hwait, hrep⟩ := waiters_answered three unaryTar hreach
  have hdone := Rsm.Loop.eq_done hloop
  exact ⟨s, hreach, hsnap1, hsnap0, ⟨_, _, hdone, hc, hwait 1 5 _ _ 5 hdone hc hown⟩, x, _, _, hx,
    hpc, hrep 4 x _ _ hx hpc⟩

/-- **A client gets nil for its put**: node 0 skips the second entry, for which a client of its
    first term still waits, and the assertion of `Put` fails. -/
theorem skipped_for_waiter : ∃ s : System ℕ ℕ ℕ, s.Reachable unaryTar three ∧
    ∃ x args, s.rsms.submits[1]? = some x ∧ x.req = .put args ∧
      x.pc = .returned .ok (some none) ∧ KVServer.put .ok (some (none : Result ℕ)) = none := by
  have hplay : ((Lib.play nextBy .init (termOne ++ termTwo ++ termThree ++ runsAhead)).map fun s =>
      outcome s 1) = some (some (.put ⟨1, 10, 0⟩, .ok, some none)) := by
    decide +kernel
  obtain ⟨s, hs, hread⟩ := Option.map_eq_some_iff.mp hplay
  obtain ⟨x, hx, hreq, hpc⟩ := of_outcome hread
  exact ⟨s, play_reachable hs, x, _, hx, hreq, hpc, rfl⟩

end RaftLab.Kvraft1.Raftkvd

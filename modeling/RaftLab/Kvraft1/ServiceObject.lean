/-
  File:      RaftLab/Kvraft1/ServiceObject.lean
  Subject:   A service over its own Raft (Service.lean) as an implementation of an object.

  A call is a Submit at the server that it comes to, and its answer is what the Submit returns with
  `OK`; everything else that the servers do is a step (`System.impl`). The order of the calls is the
  committed log of the run that follows (`Tracks`), which only grows: **`service_linearized`**. So
  by Lib/Substitution.lean whatever uses such services, any number of them, may take them for atomic
  state machines.
-/
import RaftLab.Lib.Substitution
import RaftLab.Kvraft1.ServiceSafety

namespace RaftLab.Kvraft1.Rsm

open RaftLab.Lib

variable {σ Srv Req Res : Type} {submits submits' : List (Submit Srv Req Res)}

/-! ## 1. The requests of the Submits -/

/-- A Submit goes on with its request. -/
theorem map_req_set {c : ℕ} {x : Submit Srv Req Res}
    (h : (submits.map Submit.req)[c]? = some x.req) :
    (submits.set c x).map Submit.req = submits.map Submit.req := by
  obtain ⟨hlt, hget⟩ := List.getElem?_eq_some_iff.mp h
  rw [List.map_set, ← hget, List.set_getElem_self]

theorem map_req_onChan {c : ℕ} {f : Chan Res → Option (Chan Res)}
    (h : System.onChan submits c f = some submits') :
    submits'.map Submit.req = submits.map Submit.req := by
  obtain ⟨y, hy, h⟩ := Option.bind_eq_some_iff.mp h
  obtain ⟨ch, _, h⟩ := Option.bind_eq_some_iff.mp h
  cases h
  refine map_req_set ?_
  rw [List.getElem?_map, hy]
  rfl

theorem map_req_closeOld {old : Option ℕ} (h : System.closeOld submits old = some submits') :
    submits'.map Submit.req = submits.map Submit.req := by
  cases old with
  | some c => exact map_req_onChan h
  | none =>
      cases h
      rfl

theorem map_req_wake {own : Bool} {res : Res} {ch : Option ℕ}
    (h : System.wake submits own res ch = some submits') :
    submits'.map Submit.req = submits.map Submit.req := by
  cases ch with
  | some c =>
      simp only [System.wake] at h
      split at h
      · exact map_req_onChan h
      · exact map_req_onChan h
  | none =>
      cases h
      rfl

variable [DecidableEq Srv] {s s' : System σ Srv Req Res}

theorem map_req_turn {c : ℕ} {x : Submit Srv Req Res} {t : Turn} (hx : s.submits[c]? = some x)
    (ht : s.turn c x t = some s') : s'.submits.map Submit.req = s.submits.map Submit.req := by
  have hreq : (s.submits.map Submit.req)[c]? = some x.req := by
    rw [List.getElem?_map, hx]
    rfl
  cases turned ht with
  | lead | refused | rejected | start | take | lost | tickOut | timeOut | cleanup =>
      exact map_req_set hreq
  | tickOn => rfl
  | register logId term submits hpc hold =>
      have hmap := map_req_closeOld hold
      refine Eq.trans (map_req_set ?_) hmap
      rw [hmap]
      exact hreq

theorem map_req_notify {srv : Srv} (ht : s.notify srv = some s') :
    s'.submits.map Submit.req = s.submits.map Submit.req := by
  obtain ⟨index, op, res, submits, _, hwake, rfl⟩ := notified ht
  exact map_req_wake hwake

end RaftLab.Kvraft1.Rsm

namespace RaftLab.Kvraft1.Service

open RaftLab.Lib RaftLab.Raft1

variable {σ NodeID Req Res : Type} [DecidableEq NodeID] [DecidableEq Req] [Inhabited (Rsm.Op Req)]

/-! ## 2. The object -/

def Action.isSubmit : Action NodeID Req → Bool
  | .submit _ _ => true
  | _ => false

/-- The requests that have been submitted. -/
def System.calls (s : System σ NodeID Req Res) : List Req := s.rsms.submits.map Rsm.Submit.req

def System.impl (app : App σ Req Res) (cfg : Config NodeID) :
    Impl (System σ NodeID Req Res) Req Res where
  init := .init app
  calls := System.calls
  Answered s c res := .returned c .ok (some res) ∈ s.rsms.hist
  Call s req s' := ∃ n, s.next app cfg (.submit n req) = some s'
  Step s s' := ∃ act, act.isSubmit = false ∧ s.next app cfg act = some s'

/-- What Submit `c` has returned with `OK`. -/
def System.answerTo (s : System σ NodeID Req Res) (c : ℕ) : Option Res :=
  s.rsms.hist.findSome? fun e =>
    match e with
    | .returned c' .ok res => if c' = c then res else none
    | _ => none

omit [DecidableEq NodeID] [DecidableEq Req] [Inhabited (Rsm.Op Req)] in
theorem of_answerTo {s : System σ NodeID Req Res} {c : ℕ} {res : Res}
    (h : s.answerTo c = some res) : .returned c .ok (some res) ∈ s.rsms.hist := by
  obtain ⟨e, he, hres⟩ := List.exists_of_findSome?_eq_some h
  split at hres
  next c' res' =>
    split at hres
    next e =>
      cases e
      cases hres
      exact he
    next => cases hres
  next => cases hres

section Calls

variable {app : App σ Req Res} {cfg : Config NodeID} {s s' : System σ NodeID Req Res}

omit [DecidableEq Req] [Inhabited (Rsm.Op Req)] in
theorem Enters.calls {e : Entry NodeID Req} {n : NodeID} {ev : Event NodeID (Rsm.Op Req)}
    {rsms : Servers σ NodeID Req Res} (h : Enters app s.place s.cluster s.rsms e n ev rsms) :
    rsms.submits.map Rsm.Submit.req = s.calls := by
  cases h with
  | own | handle | compact => rfl
  | start hx _ ht => exact Rsm.map_req_turn hx ht

/-- Only a Submit adds a request. -/
theorem next_calls {act : Action NodeID Req} (hact : act.isSubmit = false)
    (hs : s.next app cfg act = some s') : s'.calls = s.calls := by
  obtain ⟨o, ho, rfl⟩ := System.next_iff.mp hs
  cases ho with
  | submit => cases hact
  | turn hx _ _ ht => exact Rsm.map_req_turn hx ht
  | run he | crash he => exact he.calls
  | restart | skip => rfl
  | notify ht => exact Rsm.map_req_notify ht

end Calls

/-! ## 3. The order of the calls -/

/-- The calls have taken effect in the order of the committed log of a run that follows. -/
def Ordered (app : App σ Req Res) (cfg : Config NodeID) (allowed : Req → Prop)
    (s : System σ NodeID Req Res) (lin : List (ℕ × Req)) : Prop :=
  ∃ R, Tracks app cfg allowed s R ∧ lin = commits (R.hist.filterMap Rsm.mark)

section Order

variable {app : App σ Req Res} {cfg : Config NodeID} {allowed : Req → Prop}
  {s : System σ NodeID Req Res} {R : Servers σ NodeID Req Res}

omit [DecidableEq Req] in
/-- A call that was made is one of the Submits. -/
theorem Tracks.calls (h : Tracks app cfg allowed s R) {c : ℕ} {srv : NodeID × ℕ} {req : Req}
    (hc : .called c srv req ∈ R.hist) : s.calls[c]? = some req := by
  have hinv := Rsm.inv_reachable h.core.reach
  have hlt := hinv.submits.called c srv req hc
  have hx := (hinv.submits.submit c _ (List.getElem?_eq_getElem hlt)).called
  have hsub : s.rsms.submits = R.submits := by
    rw [h.core.rsms]
    rfl
  rw [System.calls, hsub, List.getElem?_map, List.getElem?_eq_getElem hlt, Option.map_some,
    (Rsm.called_unique hinv.raft.just hx hc).2]

omit [DecidableEq Req] in
/-- What is returned with `OK` is an answer. -/
theorem Tracks.returned_ok (h : Tracks app cfg allowed s R) {c : ℕ} {res : Option Res}
    (hret : .returned c .ok res ∈ s.rsms.hist) : ∃ r, res = some r := by
  rw [h.core.rsms] at hret
  obtain ⟨_, _, _, hw⟩ := (Rsm.inv_reachable h.core.reach).raft.just.of_mem (List.mem_filter.mp hret).1
  obtain ⟨_, _, _, _, r, hr, _⟩ := hw rfl
  exact ⟨r, hr⟩

/-- **A service over its own Raft puts its calls in order as it runs.** -/
theorem service_linearized (hgob : app.RoundTrips allowed) :
    Linearized app.toMachine (System.impl app cfg) allowed (Ordered app cfg allowed) where
  init := ⟨⟨_, tracks_init app cfg allowed, rfl⟩, rfl⟩
  call s s' lin req h hreq hs := by
    obtain ⟨R, hR, rfl⟩ := h
    obtain ⟨n, hs⟩ := hs
    refine ⟨⟨_, hR.submit hreq hs, ?_⟩, ?_⟩
    · rw [List.filterMap_append, commits_append]
      exact (List.append_nil _).symm
    · cases hs
      exact List.map_append
  step s s' lin h hs := by
    obtain ⟨R, hR, rfl⟩ := h
    obtain ⟨act, hact, hs⟩ := hs
    have hallowed : act.Allowed allowed := by
      cases act with
      | submit => cases hact
      | turn | run | crash | restart | notify | skip => trivial
    obtain ⟨R', hR', l, hl⟩ := hR.next hgob hallowed hs
    refine ⟨⟨commits (l.filterMap Rsm.mark), R', hR', ?_⟩, next_calls hact hs⟩
    rw [← hl, List.filterMap_append, commits_append]
  once s lin h := by
    obtain ⟨R, hR, rfl⟩ := h
    exact hR.linearizes.once
  called s lin h x hx := by
    obtain ⟨R, hR, rfl⟩ := h
    obtain ⟨srv, hcall⟩ := Rsm.call_mem_marks.mp (hR.linearizes.called x hx)
    exact hR.calls hcall
  answered s lin h c res hret := by
    obtain ⟨R, hR, rfl⟩ := h
    refine hR.linearizes.result c res ?_
    have hret' : .returned c .ok (some res) ∈ s.rsms.hist := hret
    rw [hR.core.rsms] at hret'
    exact List.mem_filterMap.mpr ⟨_, (List.mem_filter.mp hret').1, rfl⟩

end Order

end RaftLab.Kvraft1.Service

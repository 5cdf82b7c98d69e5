/-
  File:      RaftLab/Raft1/Provenance.lean
  Subject:   Where the commands of a cluster come from, and what an action leaves alone.

  A command is in a log, in a message or in a batch for the service because some server was started
  with it: no section makes a command up, and none takes the sentinel of a compacted log for an
  entry. That is `Placed` with a property that asks for nothing but the command.

  * `Stems P c` -- every command of the cluster has `P`; **`Stems.next`**: every step keeps it, as
    long as `Start` is called with such commands;
  * `next_made`, `next_others`, `next_delivered` -- what an action does to the snapshots that are
    made, to the other processes and to the index its service has.
-/
import RaftLab.Raft1.Placement

namespace RaftLab.Raft1

open RaftLab.Lib Relation Cluster

variable {NodeID Cmd : Type} {P : Cmd → Prop}

/-- Every command has `P`: in the logs, on the network, in the batches for the services and in what
    they have got. -/
def Stems (P : Cmd → Prop) (c : Cluster NodeID Cmd) : Prop := Placed (fun _ e => P e.command) c

theorem Stems.imp {P' : Cmd → Prop} {c : Cluster NodeID Cmd} (h : Stems P c)
    (hP : ∀ command, P command → P' command) : Stems P' c :=
  Placed.imp h fun _ e => hP e.command

/-- A command on its way to the service. -/
theorem Stems.applying {c : Cluster NodeID Cmd} (h : Stems P c) (n : NodeID) (msg : ApplyMsg Cmd)
    (hmsg : msg ∈ (c.node n).applying) (hv : msg.commandValid = true) : P msg.command := by
  obtain ⟨e, he, hP⟩ := Placed.applying h n msg hmsg hv
  exact he ▸ hP

theorem stems_init [Inhabited Cmd] : Stems P (init : Cluster NodeID Cmd) := placed_init

section Steps

variable [DecidableEq NodeID] [Inhabited Cmd] {cfg : Config NodeID} {c c' : Cluster NodeID Cmd}
  {n : NodeID}

/-- **Every step keeps the origin of the commands.** -/
theorem Stems.next [DecidableEq Cmd] (hr : Reachable cfg c) (h : Stems P c)
    {act : Cluster.Action NodeID Cmd}
    (hP : ∀ command, act.event = some (.start command) → P command)
    (hs : c.next cfg n act = some c') : Stems P c' :=
  Placed.next hr h (fun command hact _ => hP command hact) hs

/-- Only the service makes snapshots. -/
theorem next_made [DecidableEq Cmd] {act : Cluster.Action NodeID Cmd}
    (hs : c.next cfg n act = some c') {x : NodeID × ℕ × Bytes} (hx : x ∈ c'.made) :
    x ∈ c.made ∨ act.event = some (.snapshot x.2.1 x.2.2) := by
  have added : ∀ {ev : Event NodeID Cmd} {o : Outcome NodeID Cmd},
      exec cfg n (c.node n) ev = some o → x ∈ c.made ++ o.made.map (fun x => (n, x.1, x.2)) →
      x ∈ c.made ∨ ev = .snapshot x.2.1 x.2.2 := by
    intro ev o ho hmem
    rcases List.mem_append.mp hmem with hold | hnew
    · exact .inl hold
    · obtain ⟨y, hy, rfl⟩ := List.mem_map.mp hnew
      exact .inr ((exec_output ho).made y hy)
  cases act with
  | run ev =>
      obtain ⟨_, _, o, st, ho, _, rfl⟩ := next_run hs
      exact (added ho hx).imp id (congrArg some)
  | crash ev k j =>
      obtain ⟨_, _, o, st, ho, _, rfl⟩ := next_crash hs
      exact (added ho hx).imp id (congrArg some)
  | restart =>
      obtain ⟨_, rfl⟩ := next_restart hs
      exact .inl (by simpa [Cluster.reboot] using hx)

/-- An action leaves the other processes alone. -/
theorem next_others [DecidableEq Cmd] {act : Cluster.Action NodeID Cmd}
    (hs : c.next cfg n act = some c') {m : NodeID} (hm : m ≠ n) : c'.node m = c.node m := by
  cases act with
  | run ev =>
      obtain ⟨_, _, o, st, _, _, rfl⟩ := next_run hs
      exact Function.update_of_ne hm _ _
  | crash ev k j =>
      obtain ⟨_, _, o, st, _, _, rfl⟩ := next_crash hs
      exact Function.update_of_ne hm _ _
  | restart =>
      obtain ⟨_, rfl⟩ := next_restart hs
      exact Function.update_of_ne hm _ _

/-- **The index the service has** moves with the message it takes, and with nothing else. -/
theorem next_delivered [DecidableEq Cmd] {ev : Event NodeID Cmd}
    (hs : c.next cfg n (.run ev) = some c') :
    ev ≠ .apply ∧ (c'.node n).delivered = (c.node n).delivered ∨
      ev = .apply ∧ ∃ msg rest, (c.node n).applying = msg :: rest ∧
        (c'.node n).delivered = msg.index := by
  obtain ⟨_, _, o, st, ho, _, rfl⟩ := next_run hs
  have hnode : (c.complete n o st).node n = { o.proc with rf := { o.proc.rf with wal := [] } } :=
    Function.update_self _ _ _
  rw [hnode]
  have heff := exec_effect ho
  cases ev with
  | apply =>
      obtain ⟨msg, rest, happ, e⟩ := heff
      rw [e]
      exact .inr ⟨rfl, msg, rest, happ, rfl⟩
  | applyBatch =>
      obtain ⟨rf, msgs, _, e⟩ := heff
      rw [e]
      exact .inl ⟨fun e => (by cases e), rfl⟩
  | _ => exact .inl ⟨fun e => (by cases e), heff.delivered⟩

end Steps

end RaftLab.Raft1

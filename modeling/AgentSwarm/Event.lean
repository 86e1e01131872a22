/-
**What happens in a swarm.**

A swarm tells its observers when an agent registers and how a task proceeds: its start, every batch,
every agent that completes or fails, and the consensus.

Main definitions:

* `AgentSwarm.Event` — what happened, where and when;
* `AgentSwarm.Event.taskId?` — the task it belongs to.
-/

import AgentSwarm.Form.View

set_option relaxedAutoImplicit false
set_option autoImplicit false

namespace AgentSwarm

/-- What happened in a task. -/
inductive TaskEvent where
  | started (taskType : String) (agentCount : Nat) (strategy : String)
  | batchDispatched (index size : Nat)
  | agentCompleted (agentId : String) (confidence : Float) (executionMillis : Nat)
  | agentFailed (agentId kind error : String)
  | consensusReached (algorithm : String) (confidence agreement : Float) (participants : Nat)
  | consensusFailed (algorithm reason : String)
deriving Repr, Inhabited

/-- What happened in a swarm. -/
inductive EventKind where
  | agentRegistered (agentId specialization partition : String)
  | task (taskId : String) (event : TaskEvent)
deriving Repr, Inhabited

/-- What happened, in which swarm and when. -/
structure Event where
  swarmId : String
  kind : EventKind
  time : Timestamp
deriving Repr, Inhabited

namespace Event

/-- The task an event belongs to; registrations belong to none. -/
def taskId? (e : Event) : Option String :=
  match e.kind with
  | .agentRegistered _ _ _ => none
  | .task id _ => some id

/-! ### The written form -/

/-- The fields that every event of a task starts with. -/
def taskFields (rest : List (String × FieldRule × Form)) : List (String × FieldRule × Form) :=
  ("swarm_id", .required, .text) :: ("task_id", .required, .text) :: rest

/-- The written form of an event. -/
def form : Form :=
  .tagged "SwarmEvent" "event" [
    ("agent_registered", "AgentRegistered", [("swarm_id", .required, .text),
      ("agent_id", .required, .text), ("specialization", .required, .text),
      ("partition", .required, .text), ("registered_at", .required, .moment)]),
    ("task_started", "TaskStarted", taskFields [("task_type", .required, .text),
      ("agent_count", .required, .whole .size), ("strategy", .required, .text),
      ("started_at", .required, .moment)]),
    ("batch_dispatched", "BatchDispatched", taskFields [
      ("batch_index", .required, .whole .size), ("batch_size", .required, .whole .size),
      ("dispatched_at", .required, .moment)]),
    ("agent_completed", "AgentCompleted", taskFields [("agent_id", .required, .text),
      ("confidence", .required, .real), ("execution_time_ms", .required, .whole .word64),
      ("completed_at", .required, .moment)]),
    ("agent_failed", "AgentFailed", taskFields [("agent_id", .required, .text),
      ("error_kind", .required, .text), ("error", .required, .text),
      ("failed_at", .required, .moment)]),
    ("consensus_reached", "ConsensusReached", taskFields [("algorithm", .required, .text),
      ("confidence", .required, .real), ("agreement_score", .required, .real),
      ("participating_agents", .required, .whole .size), ("reached_at", .required, .moment)]),
    ("consensus_failed", "ConsensusFailed", taskFields [("algorithm", .required, .text),
      ("reason", .required, .text), ("failed_at", .required, .moment)])]

/-- An event as it is written. -/
def toDatum (e : Event) : Datum :=
  let time : Datum := .moment e.time
  match e.kind with
  | .agentRegistered id specialization partition =>
    .tagged "agent_registered"
      [.text e.swarmId, .text id, .text specialization, .text partition, time]
  | .task task event =>
    let fields (rest : List Datum) : List Datum :=
      .text e.swarmId :: .text task :: (rest ++ [time])
    match event with
    | .started taskType count strategy =>
      .tagged "task_started" (fields [.text taskType, .whole count, .text strategy])
    | .batchDispatched index size =>
      .tagged "batch_dispatched" (fields [.whole index, .whole size])
    | .agentCompleted id confidence millis =>
      .tagged "agent_completed" (fields [.text id, .real confidence, .whole millis])
    | .agentFailed id kind error =>
      .tagged "agent_failed" (fields [.text id, .text kind, .text error])
    | .consensusReached algorithm confidence agreement participants =>
      .tagged "consensus_reached"
        (fields [.text algorithm, .real confidence, .real agreement, .whole participants])
    | .consensusFailed algorithm reason =>
      .tagged "consensus_failed" (fields [.text algorithm, .text reason])

/-- The event that was written. -/
def ofDatum? : Datum → Option Event
  | .tagged "agent_registered" [.text swarm, .text id, .text spec, .text part, .moment time] =>
    some ⟨swarm, .agentRegistered id spec part, time⟩
  | .tagged tag (.text swarm :: .text task :: rest) => do
    let (event, time) ←
      match tag, rest with
      | "task_started", [.text taskType, .whole count, .text strategy, .moment time] =>
        some (TaskEvent.started taskType count strategy, time)
      | "batch_dispatched", [.whole index, .whole size, .moment time] =>
        some (.batchDispatched index size, time)
      | "agent_completed", [.text id, .real confidence, .whole millis, .moment time] =>
        some (.agentCompleted id confidence millis, time)
      | "agent_failed", [.text id, .text kind, .text error, .moment time] =>
        some (.agentFailed id kind error, time)
      | "consensus_reached", [.text algorithm, .real c, .real a, .whole n, .moment time] =>
        some (.consensusReached algorithm c a n, time)
      | "consensus_failed", [.text algorithm, .text reason, .moment time] =>
        some (.consensusFailed algorithm reason, time)
      | _, _ => none
    return ⟨swarm, .task task event, time⟩
  | _ => none

theorem ofDatum_toDatum (e : Event) : ofDatum? e.toDatum = some e := by
  obtain ⟨swarm, kind, time⟩ := e
  cases kind with
  | agentRegistered id spec part => rfl
  | task task event => cases event <;> rfl

end Event

end AgentSwarm

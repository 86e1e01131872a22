/-
**What agents answer.**

Every agent of a task has one result.  A failure says why; its confidence is zero.  The answer of a
success is the member `value` of its object, or the whole object when there is no such member.

Main definitions:

* `AgentSwarm.Outcome` — a success with its object, or a failure;
* `AgentSwarm.AgentResult` — the result of one agent;
* `AgentSwarm.AgentResult.answer` — what it contributes to a consensus.

Main results:

* `AgentSwarm.AgentResult.answer_ne_null` — an answer is never the null value.
-/

import AgentSwarm.Inference
import AgentSwarm.Form.View

set_option relaxedAutoImplicit false
set_option autoImplicit false

namespace AgentSwarm

/-! ### Outcomes -/

/-- What became of asking an agent. -/
inductive Outcome (R : Type) where
  | success (result : Members R)
  | failure (error : String) (kind : FailureKind)
deriving Inhabited

/-- How long a call took and what it used. -/
structure Metrics where
  executionMillis : Nat
  tokens : Option Nat
  cost : Option Float
deriving Repr, Inhabited

/-- No time, and no usage. -/
def Metrics.none : Metrics := ⟨0, Option.none, Option.none⟩

/-- The result of one agent. -/
structure AgentResult (R : Type) where
  agentId : String
  specialization : String
  partition : String
  outcome : Outcome R
  confidence : R
  finishedAt : Timestamp
  metrics : Metrics
deriving Inhabited

namespace AgentResult

variable {R : Type} [Scalar R]

/-- A success; its confidence is brought into the unit interval. -/
def success (agentId specialization partition : String) (result : Members R) (confidence : R)
    (finishedAt : Timestamp) (metrics : Metrics) : AgentResult R :=
  { agentId, specialization, partition, outcome := .success result
    confidence := Scalar.clampUnit confidence, finishedAt, metrics }

/-- A failure. -/
def failure (agentId specialization partition : String) (error : String) (kind : FailureKind)
    (finishedAt : Timestamp) (metrics : Metrics) : AgentResult R :=
  { agentId, specialization, partition, outcome := .failure error kind
    confidence := Scalar.zero, finishedAt, metrics }

omit [Scalar R]

/-- Whether the agent succeeded. -/
def isSuccess (r : AgentResult R) : Bool :=
  match r.outcome with
  | .success _ => true
  | .failure _ _ => false

/-- Why the agent failed. -/
def failure? (r : AgentResult R) : Option (String × FailureKind) :=
  match r.outcome with
  | .success _ => none
  | .failure error kind => some (error, kind)

/-- The answer in an object: its member `value`, or the object itself without one. -/
def answerIn (result : Members R) : Option (JsonOf R) :=
  match result.lookup "value" with
  | some v => if v.isNull then none else some v
  | none => some (.obj result)

/-- What the agent answered. -/
def answer (r : AgentResult R) : Option (JsonOf R) :=
  match r.outcome with
  | .success result => answerIn result
  | .failure _ _ => none

theorem answer_ne_null {r : AgentResult R} {v : JsonOf R} (h : r.answer = some v) :
    v.isNull = false := by
  unfold answer at h
  split at h
  · unfold answerIn at h
    split at h
    · split at h
      · simp at h
      · rename_i hn
        simpa [← Option.some.inj h] using hn
    · simp [← Option.some.inj h, JsonOf.isNull]
  · simp at h

end AgentResult

/-! ### The written forms -/

/-- The written form of an outcome. -/
def Outcome.form : Form :=
  .tagged "AgentOutcome" "status" [("success", "Success", [("result", .required, .object)]),
    ("failure", "Failure",
      [("error", .required, .text), ("error_kind", .required, FailureKind.form)])]

/-- An outcome as it is written. -/
def Outcome.toDatum : Outcome Float → Datum
  | .success result => .tagged "success" [.value (.obj result)]
  | .failure error kind => .tagged "failure" [.text error, .word kind.name]

/-- The written form of metrics. -/
def Metrics.form : Form :=
  .record "ExecutionMetrics" [("execution_time_ms", .required, .whole .word64),
    ("tokens", .hiddenDefault, .optional (.whole .word32)),
    ("cost", .hiddenDefault, .optional .real)]

/-- Metrics as they are written. -/
def Metrics.toDatum (m : Metrics) : Datum :=
  .record [.whole m.executionMillis, optionalDatum .whole m.tokens, optionalDatum .real m.cost]

/-- The written form of a result. -/
def AgentResult.form : Form :=
  .record "AgentResult" [("agent_id", .required, .text), ("specialization", .required, .text),
    ("partition", .required, .text), ("outcome", .required, Outcome.form),
    ("confidence", .required, .real), ("timestamp", .required, .moment),
    ("metrics", .required, Metrics.form)]

/-- A result as it is written. -/
def AgentResult.toDatum (r : AgentResult Float) : Datum :=
  .record [.text r.agentId, .text r.specialization, .text r.partition, r.outcome.toDatum,
    .real r.confidence, .moment r.finishedAt, r.metrics.toDatum]

end AgentSwarm

/-
**The rolling history of an agent.**

A history keeps the last records of an agent, as many as its window holds, and counts all of them.
Its averages are taken over the records it still has.

Main definitions:

* `AgentSwarm.TaskRecord` — the outcome of one task;
* `AgentSwarm.History` — the kept records, oldest first, and the number of all records;
* `AgentSwarm.History.record` — one more record.

Main results:

* `AgentSwarm.History.total_record` — every record is counted;
* `AgentSwarm.History.length_record_le` — the window is never exceeded.
-/

import AgentSwarm.Scalar
import AgentSwarm.Form.Basic

set_option relaxedAutoImplicit false
set_option autoImplicit false

namespace AgentSwarm

/-- The outcome of one task for one agent. -/
structure TaskRecord (R : Type) where
  taskId : String
  success : Bool
  confidence : R
  executionMillis : Nat
  recordedAt : Timestamp
deriving Repr, Inhabited

/-- The written form of a record. -/
def TaskRecord.form : Form :=
  .record "TaskRecord" [("task_id", .required, .text), ("success", .required, .flag),
    ("confidence", .required, .real), ("execution_time_ms", .required, .whole .word64),
    ("recorded_at", .required, .moment)]

/-- The kept records of an agent, oldest first, and the number of all its records. -/
structure History (R : Type) where
  window : Nat
  records : List (TaskRecord R)
  total : Nat
deriving Repr, Inhabited

namespace History

variable {R : Type}

/-- A history without records; a window of zero counts as one. -/
def empty (window : Nat) : History R := ⟨max window 1, [], 0⟩

/-- The history with one more record; a full window gives up its oldest. -/
def record (h : History R) (r : TaskRecord R) : History R :=
  { h with
    records := (if h.records.length = h.window then h.records.drop 1 else h.records) ++ [r]
    total := h.total + 1 }

/-- The history with records added in order. -/
def recordAll (h : History R) (rs : List (TaskRecord R)) : History R := rs.foldl record h

@[simp] theorem total_record (h : History R) (r : TaskRecord R) :
    (h.record r).total = h.total + 1 := rfl

@[simp] theorem window_record (h : History R) (r : TaskRecord R) :
    (h.record r).window = h.window := rfl

theorem length_record_le {h : History R} (r : TaskRecord R) (hw : 0 < h.window)
    (hl : h.records.length ≤ h.window) : (h.record r).records.length ≤ h.window := by
  by_cases hfull : h.records.length = h.window
  · simp [record, hfull]
    omega
  · simp [record, hfull]
    omega

/-- Whether no record is kept. -/
def isEmpty (h : History R) : Bool := h.records.isEmpty

/-- The mean confidence of the kept records; zero without any. -/
def averageConfidence [Scalar R] (h : History R) : R := Scalar.mean (h.records.map (·.confidence))

/-- The mean execution time of the kept records in milliseconds; zero without any. -/
def averageExecutionMillis [Scalar R] (h : History R) : R :=
  Scalar.mean (h.records.map fun r => Scalar.ofInt r.executionMillis)

/-- The share of successes among the kept records; zero without any. -/
def successRate [Scalar R] (h : History R) : R :=
  if h.records.isEmpty then Scalar.zero
  else Scalar.div (Scalar.ofInt (h.records.countP (·.success))) (Scalar.ofInt h.records.length)

end History

end AgentSwarm

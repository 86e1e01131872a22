/-
**Asking a model.**

A backend answers a prompt with a JSON object, perhaps with a confidence of its own and with the
tokens and the cost it used, or it fails.

Main definitions:

* `AgentSwarm.FailureKind` — why an agent has no usable answer;
* `AgentSwarm.InferenceError` — why a backend failed, with its kind and its wording;
* `AgentSwarm.InferenceResponse` — the answer of a backend.
-/

import AgentSwarm.Task

set_option relaxedAutoImplicit false
set_option autoImplicit false

namespace AgentSwarm

/-! ### Failures -/

/-- Why an agent has no usable answer. -/
inductive FailureKind where
  | invocation | quotaExceeded | timeout | malformedResponse | cancelled | agentDisabled | panicked
deriving DecidableEq, Repr, Inhabited

namespace FailureKind

/-- All kinds of failure. -/
def all : List FailureKind :=
  [.invocation, .quotaExceeded, .timeout, .malformedResponse, .cancelled, .agentDisabled,
    .panicked]

/-- The name of a kind. -/
def name : FailureKind → String
  | .invocation => "invocation"
  | .quotaExceeded => "quota_exceeded"
  | .timeout => "timeout"
  | .malformedResponse => "malformed_response"
  | .cancelled => "cancelled"
  | .agentDisabled => "agent_disabled"
  | .panicked => "panicked"

/-- The kind of a name. -/
def ofName? (s : String) : Option FailureKind := all.find? fun k => k.name = s

theorem ofName?_name (k : FailureKind) : ofName? k.name = some k := by
  cases k <;> decide

/-- The written form of a kind. -/
def form : Form := .word (all.map name)

end FailureKind

/-- Why a backend failed. -/
inductive InferenceError where
  | invocation (text : String)
  | quotaExceeded (text : String)
  | timeout (limit : Duration)
  | malformed (text : String)
  | cancelled
deriving DecidableEq, Repr, Inhabited

namespace InferenceError

/-- The kind of failure that an agent reports. -/
def kind : InferenceError → FailureKind
  | .invocation _ => .invocation
  | .quotaExceeded _ => .quotaExceeded
  | .timeout _ => .timeout
  | .malformed _ => .malformedResponse
  | .cancelled => .cancelled

/-- The wording of an error. -/
def message : InferenceError → String
  | .invocation text => "Invocation failed: " ++ text
  | .quotaExceeded text => "Quota exceeded: " ++ text
  | .timeout limit => "Timed out after " ++ limit.decimalText
  | .malformed text => "Malformed response: " ++ text
  | .cancelled => "Cancelled"

end InferenceError

/-! ### Answers -/

/-- The tokens and the cost of a call. -/
structure InferenceUsage where
  tokens : Nat
  cost : Float
deriving Repr, Inhabited

/-- The answer of a backend. -/
structure InferenceResponse where
  result : Members Float
  /-- The confidence that the backend reported itself. -/
  confidence : Option Float
  usage : Option InferenceUsage
deriving Inhabited

/-- The written form of the usage of a call. -/
def InferenceUsage.form : Form :=
  .record "InferenceUsage" [("tokens", .required, .whole .word32), ("cost", .required, .real)]

/-- The usage of a call as it is written. -/
def InferenceUsage.toDatum (u : InferenceUsage) : Datum := .record [.whole u.tokens, .real u.cost]

/-- The written form of an answer. -/
def InferenceResponse.form : Form :=
  .record "InferenceResponse" [("result", .required, .object),
    ("confidence", .required, .optional .real),
    ("usage", .required, .optional InferenceUsage.form)]

end AgentSwarm

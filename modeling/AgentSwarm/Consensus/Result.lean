/-
**Consensus results.**

The results of all agents of a task are reduced to one.  The value is absent when no agent
contributed an answer; the metadata then say why.

Main definitions:

* `AgentSwarm.Algorithm` — the two ways to reduce results;
* `AgentSwarm.ConsensusResult` — what is left;
* `AgentSwarm.ConsensusResult.failed` — the result without a value.

Main results:

* `AgentSwarm.Algorithm.parse_name` — every algorithm is found under its name.
-/

import AgentSwarm.Outcome
import AgentSwarm.SwarmError

set_option relaxedAutoImplicit false
set_option autoImplicit false

namespace AgentSwarm

/-! ### Algorithms -/

/-- How results are reduced. -/
inductive Algorithm where
  | confidenceWeighted | majorityVote
deriving DecidableEq, Repr, Inhabited

namespace Algorithm

/-- The name of an algorithm. -/
def name : Algorithm → String
  | .confidenceWeighted => "confidence_weighted"
  | .majorityVote => "majority_vote"

/-- The algorithm of a name, whatever its case, its hyphens and the blanks around it. -/
def parse (text : String) : Except SwarmError Algorithm :=
  let word := Text.normalizedSnake text
  if word = "confidence_weighted" ∨ word = "weighted" then .ok .confidenceWeighted
  else if word = "majority_vote" ∨ word = "majority" then .ok .majorityVote
  else .error (.unknownAlgorithm word)

theorem parse_name (a : Algorithm) : parse a.name = .ok a := by
  cases a <;> rfl

/-- The written form of an algorithm. -/
def form : Form := .word ["confidence_weighted", "majority_vote"]

end Algorithm

/-! ### Results -/

/-- What the results of all agents are reduced to. -/
structure ConsensusResult (R : Type) where
  /-- Absent when no agent contributed an answer. -/
  value : Option (JsonOf R)
  confidence : R
  /-- How much the contributing agents agree. -/
  agreement : R
  /-- The contributing agents in ascending order. -/
  participants : List String
  algorithm : Algorithm
  metadata : Members R
deriving Inhabited

namespace ConsensusResult

variable {R : Type}

/-- The result without a value; the metadata hold the reason. -/
def failed [Scalar R] (algorithm : Algorithm) (reason : String) (metadata : Members R) :
    ConsensusResult R :=
  { value := none, confidence := Scalar.zero, agreement := Scalar.zero, participants := []
    algorithm, metadata := insertMember "error" (.str reason) metadata }

/-- The reason in the metadata. -/
def error? (c : ConsensusResult R) : Option String :=
  (c.metadata.lookup "error").bind JsonOf.text?

/-- The written form of a consensus. -/
def form : Form :=
  .record "ConsensusResult" [("value", .required, .optional .value),
    ("confidence", .required, .real), ("agreement_score", .required, .real),
    ("participating_agents", .required, .list .text),
    ("algorithm_used", .required, Algorithm.form),
    ("metadata", .default (.value (.obj [])), .object)]

/-- A consensus as it is written. -/
def toDatum (c : ConsensusResult Float) : Datum :=
  .record [optionalDatum .value c.value, .real c.confidence, .real c.agreement,
    .list (c.participants.map .text), .word c.algorithm.name, .value (.obj c.metadata)]

end ConsensusResult

end AgentSwarm

/-
**Variants of swarms.**

A variant is a swarm for one kind of question: a fixed roster and instructions that every agent
reads from its own perspective.

Main definitions:

* `AgentSwarm.Variant` — the four variants;
* `AgentSwarm.Variant.seats` — the roster of a variant;
* `AgentSwarm.Variant.prompt` — the prompt of an agent.

Main results:

* `AgentSwarm.Variant.parse_name` — every variant is found under its name;
* `AgentSwarm.Variant.nodup_seats` — no roster names an agent twice.
-/

import AgentSwarm.Prompt

set_option relaxedAutoImplicit false
set_option autoImplicit false

namespace AgentSwarm

/-- A place in a fixed roster. -/
structure Seat where
  id : String
  specialization : String
  role : Role
  partition : String
deriving DecidableEq, Repr, Inhabited

/-- A swarm for one kind of question. -/
inductive Variant where
  | intentClassification | dataAnalysis | modelBuilding | solutionValidation
deriving DecidableEq, Repr, Inhabited

namespace Variant

/-- All variants. -/
def all : List Variant :=
  [.intentClassification, .dataAnalysis, .modelBuilding, .solutionValidation]

/-- The name of a variant. -/
def name : Variant → String
  | .intentClassification => "intent_classification"
  | .dataAnalysis => "data_analysis"
  | .modelBuilding => "model_building"
  | .solutionValidation => "solution_validation"

/-- The variant of a name, whatever its case, its hyphens and the blanks around it. -/
def parse (text : String) : Except SwarmError Variant :=
  match all.find? fun v => v.name = Text.normalizedSnake text with
  | some v => .ok v
  | none => .error (.unknownVariant text)

theorem parse_name (v : Variant) : parse v.name = .ok v := by
  cases v <;> rfl

/-- The roster of a variant. -/
def seats : Variant → List Seat
  | .intentClassification =>
    [⟨"intent-ops", "operations research", .classifier, "us-east-1"⟩,
      ⟨"intent-domain", "business domain", .classifier, "us-west-2"⟩,
      ⟨"intent-data", "data requirements", .classifier, "eu-west-1"⟩,
      ⟨"intent-cost", "cost optimization", .classifier, "us-east-1"⟩,
      ⟨"intent-risk", "risk assessment", .classifier, "us-west-2"⟩]
  | .dataAnalysis =>
    [⟨"data-quality", "data quality", .analyzer, "us-east-1"⟩,
      ⟨"data-stats", "statistical analysis", .analyzer, "us-west-2"⟩,
      ⟨"data-constraints", "constraint discovery", .analyzer, "eu-west-1"⟩,
      ⟨"data-features", "feature engineering", .analyzer, "us-east-1"⟩]
  | .modelBuilding =>
    [⟨"model-lp", "linear programming", .modeler, "us-east-1"⟩,
      ⟨"model-mip", "mixed-integer programming", .modeler, "us-west-2"⟩,
      ⟨"model-nonlinear", "nonlinear optimization", .modeler, "eu-west-1"⟩,
      ⟨"model-solver", "solver selection", .optimizer, "us-east-1"⟩]
  | .solutionValidation =>
    [⟨"validate-feasibility", "feasibility checking", .validator, "us-east-1"⟩,
      ⟨"validate-business", "business rule review", .validator, "us-west-2"⟩,
      ⟨"validate-sensitivity", "sensitivity analysis", .validator, "eu-west-1"⟩,
      ⟨"validate-robustness", "robustness testing", .validator, "us-east-1"⟩]

theorem nodup_seats (v : Variant) : (v.seats.map (·.id)).Nodup := by
  cases v <;> decide

/-- What every agent of a variant is told. -/
def instructions : Variant → String
  | .intentClassification =>
    "Classify the optimization intent behind the request. Answer with the problem class (for " ++
      "example production_planning, scheduling, routing, portfolio or resource_allocation)."
  | .dataAnalysis =>
    "Review the supplied data for the optimization problem. Report entities, variables, " ++
      "constraints and data gaps."
  | .modelBuilding =>
    "Recommend a mathematical model for the problem: model type, decision variables, objective " ++
      "and constraints, plus a suitable solver."
  | .solutionValidation =>
    "Assess whether the proposed solution is feasible and sound. Answer with valid or invalid " ++
      "and list any violated constraints."

/-- What an agent of a variant is told: to look from its own perspective. -/
def instructionsFor (v : Variant) (agent : Agent) : String :=
  v.instructions ++ " Focus on the " ++ agent.specialization ++ " perspective."

/-- The prompt of an agent for a task. -/
def prompt (v : Variant) (agent : Agent) (task : Task) : String :=
  PromptStyle.standard.promptWith agent task (some (v.instructionsFor agent))

end Variant

end AgentSwarm

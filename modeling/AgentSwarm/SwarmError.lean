/-
**Why a swarm cannot be put together.**

Only putting a swarm together can fail.  What goes wrong while a task runs is part of its result.

Main definitions:

* `AgentSwarm.SwarmError` — the causes;
* `AgentSwarm.SwarmError.kind`, `AgentSwarm.SwarmError.message` — their names and wording.
-/

set_option relaxedAutoImplicit false
set_option autoImplicit false

namespace AgentSwarm

/-- What is wrong with a strategy. -/
inductive StrategyFlaw where
  | emptyName
  | noRequests
deriving DecidableEq, Repr

/-- The wording of a flaw. -/
def StrategyFlaw.message : StrategyFlaw → String
  | .emptyName => "name must not be empty"
  | .noRequests => "max_parallel_requests must be at least 1"

/-- Why a swarm cannot be put together. -/
inductive SwarmError where
  | duplicateAgent (id : String)
  | unknownAgent (id : String)
  | unknownStrategy (name : String)
  | invalidStrategy (name : String) (flaw : StrategyFlaw)
  | unknownAlgorithm (name : String)
  | unknownRole (name : String)
  | unknownVariant (name : String)
  | zeroQuota (partition : String)
deriving DecidableEq, Repr

/-- The name of a cause. -/
def SwarmError.kind : SwarmError → String
  | .duplicateAgent _ => "DuplicateAgent"
  | .unknownAgent _ => "UnknownAgent"
  | .unknownStrategy _ => "UnknownStrategy"
  | .invalidStrategy _ _ => "InvalidStrategy"
  | .unknownAlgorithm _ => "UnknownAlgorithm"
  | .unknownRole _ => "UnknownRole"
  | .unknownVariant _ => "UnknownVariant"
  | .zeroQuota _ => "Config"

/-- The wording of a cause. -/
def SwarmError.message : SwarmError → String
  | .duplicateAgent id => "Agent " ++ id ++ " is already registered in this swarm"
  | .unknownAgent id => "Agent " ++ id ++ " is not registered in this swarm"
  | .unknownStrategy name => "Unknown execution strategy: " ++ name
  | .invalidStrategy name flaw =>
    "Invalid execution strategy '" ++ name ++ "': " ++ flaw.message
  | .unknownAlgorithm name => "Unknown consensus algorithm: " ++ name
  | .unknownRole name => "Unknown agent role: " ++ name
  | .unknownVariant name => "Unknown swarm variant: " ++ name
  | .zeroQuota partition =>
    "Invalid swarm configuration: Quota for partition '" ++ partition ++ "' must be non-zero"

end AgentSwarm

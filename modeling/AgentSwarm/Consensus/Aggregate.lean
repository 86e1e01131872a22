/-
**Reducing the results of a task.**

An agent takes part when it succeeded, its confidence is above zero and its answer is not null.  The
confidence-weighted reduction combines the answers by confidence; the majority vote selects the
answer of the bloc with the greatest sum of confidences.  A vote key that gives no key for an answer
leaves it to the compact text.

Main definitions:

* `AgentSwarm.VoteKey` — what majority votes group answers by;
* `AgentSwarm.survivors` — the ballots of the agents that take part;
* `AgentSwarm.agreementOf` — how close confidences are to each other;
* `AgentSwarm.aggregate` — the consensus of some results.
-/

import AgentSwarm.Consensus.Result
import AgentSwarm.Consensus.Combine

set_option relaxedAutoImplicit false
set_option autoImplicit false

namespace AgentSwarm

variable {R : Type} [Scalar R]

/-! ### Who takes part -/

/-- Gives an answer the key it is grouped by, or no key when it cannot. -/
abbrev VoteKey (R : Type) := JsonOf R → Option String

/-- Groups answers by their compact text. -/
def VoteKey.compact : VoteKey R := fun v => some (Json.compact v)

/-- The key of an answer: the compact text when the vote key has none. -/
def VoteKey.keyOf (key : VoteKey R) (v : JsonOf R) : String := (key v).getD (Json.compact v)

/-- Whether a result counts: a success with a confidence above zero. -/
def AgentResult.counts (r : AgentResult R) : Bool :=
  r.isSuccess && Scalar.less Scalar.zero r.confidence

/-- The ballots of the agents that take part, weighted by their confidences. -/
def survivors (results : List (String × AgentResult R)) : List (Ballot R) :=
  results.filterMap fun (id, r) =>
    if r.counts then r.answer.map fun answer => ⟨id, answer, r.confidence⟩ else none

/-- Why a result does not count. -/
def AgentResult.shortfall (r : AgentResult R) : String :=
  match r.failure? with
  | some (error, _) => error
  | none => if r.answer.isNone then "Returned a null answer" else "Reported zero confidence"

/-! ### Scores -/

/-- The mean of the squared distances from the mean. -/
def variance (xs : List R) : R :=
  let m := Scalar.mean xs
  Scalar.div (Scalar.sum (xs.map fun x => Scalar.square (Scalar.sub x m))) (Scalar.ofInt xs.length)

/-- One less the standard deviation relative to the mean, in the unit interval. -/
def agreementOf (confidences : List R) : R :=
  let m := Scalar.mean confidences
  if Scalar.lessEq m Scalar.zero then Scalar.zero
  else
    let spread := Scalar.div (Scalar.sqrt (variance confidences)) m
    Scalar.clampUnit (Scalar.sub Scalar.one (Scalar.clamp spread))

/-! ### The two reductions -/

/-- Combines the answers by their share of all confidences. -/
def confidenceWeighted (ballots : List (Ballot R)) (metadata : Members R) : ConsensusResult R :=
  let confidences := ballots.map (·.weight)
  let total := Scalar.sum confidences
  let shares := ballots.map fun b => { b with weight := Scalar.div b.weight total }
  { value := some (combine shares)
    confidence := Scalar.clampUnit (Scalar.mean confidences)
    agreement := agreementOf confidences
    participants := ballots.map (·.agentId)
    algorithm := .confidenceWeighted
    metadata := insertMember "weights"
      (.ofMembers (shares.map fun b => (b.agentId, .ofNumber b.weight))) metadata }

/-- Selects the answer of the leading bloc. -/
def majorityVote (key : VoteKey R) (ballots : List (Ballot R)) (metadata : Members R) :
    ConsensusResult R :=
  let blocs := tally key.keyOf ballots
  match leader (blocs.map Prod.snd) with
  | none => .failed .majorityVote "No votes were cast" metadata
  | some winner =>
    { value := some winner.answer
      confidence := Scalar.clampUnit (Scalar.mean winner.weights)
      agreement := Scalar.clampUnit
        (Scalar.div winner.mass (Scalar.sum (ballots.map (·.weight))))
      participants := ballots.map (·.agentId)
      algorithm := .majorityVote
      metadata := insertMember "winning_agents" (.arr (winner.agentIds.map .str))
        (insertMember "vote_distribution"
          (.obj (blocs.map fun (k, bloc) => (k, .ofNumber bloc.mass))) metadata) }

/-! ### The consensus -/

/-- The number of all results and of those without a part in the consensus. -/
def headcount (all taking : Nat) : Members R :=
  [("failed_agents", .int (all - taking : Nat)), ("total_agents", .int all)]

/-- The consensus of results, which are in ascending order of their agents. -/
def aggregate (key : VoteKey R) (algorithm : Algorithm) (results : List (String × AgentResult R)) :
    ConsensusResult R :=
  let ballots := survivors results
  let metadata := headcount results.length ballots.length
  if ballots.isEmpty then
    let shortfalls : JsonOf R := .obj (results.map fun (id, r) => (id, .str r.shortfall))
    .failed algorithm
      (if results.isEmpty then "No agents were available to execute the task"
        else "All agents failed to produce a usable result")
      (insertMember "agent_errors" shortfalls metadata)
  else
    match algorithm with
    | .confidenceWeighted => confidenceWeighted ballots metadata
    | .majorityVote => majorityVote key ballots metadata

end AgentSwarm

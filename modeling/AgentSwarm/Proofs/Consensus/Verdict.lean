/-
**What a consensus depends on.**

A consensus reads of every result what the agent contributes to it, and when nobody contributes,
why it does not.  Neither depends on times: both are given by the verdict on an agent, which is its
result without times.

Main definitions:

* `AgentSwarm.Verdict`, `AgentSwarm.AgentResult.verdict` — a result without times;
* `AgentSwarm.AgentResult.contribution` — what an agent contributes to a consensus;
* `AgentSwarm.ConsensusResult.AgreesOff` — two consensuses differ at most in the reasons of some
  agents.

Main results:

* `AgentSwarm.AgentResult.contribution_eq_none`, `AgentSwarm.AgentResult.contribution_congr` —
  failures contribute nothing, and contributions depend on verdicts only;
* `AgentSwarm.aggregate_congr`, `AgentSwarm.aggregate_agreesOff` — **consensus depends on
  contributions**, and where nobody contributes its reasons do on those of the agents;
* `AgentSwarm.shortfalls_eq_of_aggregate` — a consensus to which nobody contributes tells all the
  reasons;
* `AgentSwarm.exists_error_of_aggregate` — without a value there is a reason.
-/

import AgentSwarm.Consensus.Aggregate
import AgentSwarm.Proofs.Members
import Mathlib.Data.List.Basic

set_option relaxedAutoImplicit false
set_option autoImplicit false

namespace AgentSwarm

/-! ### Verdicts -/

/-- A result without times. -/
structure Verdict (R : Type) where
  outcome : Outcome R
  confidence : R
  tokens : Option Nat
  cost : Option Float

/-- A failure that used nothing. -/
def Verdict.failed {R : Type} [Scalar R] (error : String) (kind : FailureKind) : Verdict R :=
  ⟨.failure error kind, Scalar.zero, none, none⟩

variable {R : Type}

namespace AgentResult

/-- A result without its times. -/
def verdict (r : AgentResult R) : Verdict R :=
  ⟨r.outcome, r.confidence, r.metrics.tokens, r.metrics.cost⟩

variable {r r' : AgentResult R}

/-- Results with one verdict fall short for the same reason. -/
theorem shortfall_congr (h : r.verdict = r'.verdict) : r.shortfall = r'.shortfall := by
  obtain ⟨_, _, _, outcome, _, _, _⟩ := r
  obtain ⟨_, _, _, outcome', _, _, _⟩ := r'
  obtain ⟨rfl, _⟩ := Verdict.mk.inj h
  rfl

/-- The answer and the weight of an agent that takes part in a consensus. -/
def contribution [Scalar R] (r : AgentResult R) : Option (JsonOf R × R) :=
  if r.counts then r.answer.map fun answer => (answer, r.confidence) else none

variable [Scalar R]

/-- A failure contributes nothing. -/
theorem contribution_eq_none {error : String} {kind : FailureKind}
    (h : r.outcome = .failure error kind) : r.contribution = none := by
  simp [contribution, counts, isSuccess, h]

/-- Results with one verdict contribute the same. -/
theorem contribution_congr (h : r.verdict = r'.verdict) : r.contribution = r'.contribution := by
  obtain ⟨_, _, _, outcome, confidence, _, _⟩ := r
  obtain ⟨_, _, _, outcome', confidence', _, _⟩ := r'
  obtain ⟨rfl, rfl, _⟩ := Verdict.mk.inj h
  rfl

end AgentResult

/-! ### Consensus -/

namespace ConsensusResult

/-- What a consensus says of an agent when nobody takes part in it. -/
def reason? (c : ConsensusResult R) (id : String) : Option (JsonOf R) :=
  (c.metadata.lookup "agent_errors").bind (JsonOf.get? id)

/-- **Two consensuses agree off some agents**: they differ at most in what they say of these. -/
structure AgreesOff (odd : String → Prop) (c c' : ConsensusResult R) : Prop where
  value : c.value = c'.value
  confidence : c.confidence = c'.confidence
  agreement : c.agreement = c'.agreement
  participants : c.participants = c'.participants
  algorithm : c.algorithm = c'.algorithm
  metadata : ∀ field ≠ "agent_errors", c.metadata.lookup field = c'.metadata.lookup field
  reasons : ∀ id, ¬ odd id → c.reason? id = c'.reason? id

theorem AgreesOff.of_eq {odd : String → Prop} {c c' : ConsensusResult R} (h : c = c') :
    c.AgreesOff odd c' := by
  subst h
  exact ⟨rfl, rfl, rfl, rfl, rfl, fun _ _ => rfl, fun _ _ => rfl⟩

end ConsensusResult

variable [Scalar R] {results results' : List (String × AgentResult R)}

/-- The ballots are what the agents contribute. -/
theorem survivors_eq (results : List (String × AgentResult R)) : survivors results =
    (results.map fun e => (e.1, e.2.contribution)).filterMap fun e =>
      e.2.map fun b => ⟨e.1, b.1, b.2⟩ := by
  rw [List.filterMap_map]
  refine List.filterMap_congr fun e _ => ?_
  simp only [Function.comp_apply, AgentResult.contribution]
  split
  · rw [Option.map_map]
    rfl
  · rfl

/-- Who contributes the same has the same ballots. -/
theorem survivors_congr (h : results.map (fun e => (e.1, e.2.contribution)) =
    results'.map fun e => (e.1, e.2.contribution)) : survivors results = survivors results' := by
  rw [survivors_eq, survivors_eq, h]

/-- **Consensus depends on what the agents contribute**, and, if nobody does, on the reasons. -/
theorem aggregate_congr (key : VoteKey R) (algorithm : Algorithm)
    (h : results.map (fun e => (e.1, e.2.contribution)) =
      results'.map fun e => (e.1, e.2.contribution))
    (hshort : survivors results ≠ [] ∨ results.map (fun e => (e.1, e.2.shortfall)) =
      results'.map fun e => (e.1, e.2.shortfall)) :
    aggregate key algorithm results = aggregate key algorithm results' := by
  have hlength : results.length = results'.length := by simpa using congrArg List.length h
  have hempty : results.isEmpty = results'.isEmpty := by simpa using congrArg List.isEmpty h
  simp only [aggregate, ← survivors_congr h, hlength, hempty]
  rcases hshort with hsome | hshort
  · rw [if_neg (by simpa using hsome), if_neg (by simpa using hsome)]
  · have hreasons : results.map (fun e => (e.1, JsonOf.str (R := R) e.2.shortfall)) =
        results'.map fun e => (e.1, JsonOf.str (R := R) e.2.shortfall) := by
      have := congrArg (List.map fun e : String × String => (e.1, JsonOf.str (R := R) e.2)) hshort
      simpa [List.map_map, Function.comp_def] using this
    rw [hreasons]

/-- The reason of an agent in a consensus that nobody takes part in. -/
theorem reason?_aggregate (key : VoteKey R) (algorithm : Algorithm) (h : survivors results = [])
    (id : String) : (aggregate key algorithm results).reason? id =
      (results.lookup id).map fun r => .str r.shortfall := by
  have herrors : (aggregate key algorithm results).metadata.lookup "agent_errors" =
      some (.obj (results.map fun e => (e.1, .str e.2.shortfall))) := by
    simp [aggregate, h, ConsensusResult.failed, lookup_insertMember]
  rw [ConsensusResult.reason?, herrors]
  exact lookup_map_values fun r : AgentResult R => JsonOf.str r.shortfall

/-- **Consensus depends on what the agents contribute**, but for the reasons of those who fall short
for different ones. -/
theorem aggregate_agreesOff {odd : String → Prop} (key : VoteKey R) (algorithm : Algorithm)
    (h : results.map (fun e => (e.1, e.2.contribution)) =
      results'.map fun e => (e.1, e.2.contribution))
    (hreasons : ∀ id, ¬ odd id →
      (results.lookup id).map (·.shortfall) = (results'.lookup id).map (·.shortfall)) :
    (aggregate key algorithm results).AgreesOff odd (aggregate key algorithm results') := by
  by_cases hnone : survivors results = []
  · have hnone' : survivors results' = [] := survivors_congr h ▸ hnone
    have hlength : results.length = results'.length := by simpa using congrArg List.length h
    have hempty : results.isEmpty = results'.isEmpty := by simpa using congrArg List.isEmpty h
    refine ⟨?value, ?confidence, ?agreement, ?participants, ?algorithm, ?metadata, ?reasons⟩
    case metadata =>
      intro field hfield
      simp [aggregate, hnone, hnone', ConsensusResult.failed, lookup_insertMember, hfield, hlength,
        hempty]
    case reasons =>
      intro id hid
      rw [reason?_aggregate key algorithm hnone, reason?_aggregate key algorithm hnone']
      simpa [Option.map_map, Function.comp_def] using
        congrArg (Option.map fun text => JsonOf.str (R := R) text) (hreasons id hid)
    all_goals simp [aggregate, hnone, hnone', ConsensusResult.failed]
  · exact .of_eq (aggregate_congr key algorithm h (.inl hnone))

/-- **A consensus to which nobody contributes tells all the reasons.** -/
theorem shortfalls_eq_of_aggregate {key : VoteKey R} {algorithm : Algorithm}
    (h : survivors results = []) (h' : survivors results' = [])
    (heq : aggregate key algorithm results = aggregate key algorithm results') :
    results.map (fun e => (e.1, e.2.shortfall)) = results'.map fun e => (e.1, e.2.shortfall) := by
  have hlookup := congrArg (fun c => c.metadata.lookup "agent_errors") heq
  simp only [aggregate, h, h', List.isEmpty_nil, if_true, ConsensusResult.failed,
    lookup_insertMember, String.reduceEq, if_false, Option.some.injEq, JsonOf.obj.injEq] at hlookup
  have htexts := congrArg (List.map fun m : String × JsonOf R => (m.1, m.2.text?.getD "")) hlookup
  simpa [List.map_map, Function.comp_def, JsonOf.text?] using htexts

/-- A consensus that failed says why. -/
theorem ConsensusResult.error?_failed (algorithm : Algorithm) (reason : String)
    (metadata : Members R) :
    (ConsensusResult.failed algorithm reason metadata).error? = some reason := by
  simp [error?, failed, lookup_insertMember, JsonOf.text?]

/-- **Without a value there is a reason.** -/
theorem exists_error_of_aggregate {key : VoteKey R} {algorithm : Algorithm}
    (h : (aggregate key algorithm results).value = none) :
    ∃ reason, (aggregate key algorithm results).error? = some reason := by
  by_cases hnone : (survivors results).isEmpty = true
  · simp only [aggregate, hnone, if_true]
    exact ⟨_, ConsensusResult.error?_failed _ _ _⟩
  · simp only [aggregate, hnone, Bool.false_eq_true, if_false] at h ⊢
    cases algorithm with
    | confidenceWeighted => cases h
    | majorityVote =>
        simp only [majorityVote] at h ⊢
        split at h
        next => exact ⟨_, ConsensusResult.error?_failed _ _ _⟩
        next => cases h

end AgentSwarm

/-
**Who takes part in a consensus.**

Whatever the results, the algorithm and the vote key are, a consensus has a value exactly when some
agent contributes an answer, the value is never null, and the metadata account for all agents: they
count them, and when there is no value they say of every one why it has no part.

Main definitions:

* `AgentSwarm.AgentResult.Contributes` — a success with a confidence above zero and an answer;
* `AgentSwarm.ConsensusResult.AccountsFor` — what a consensus says about the results it is made of.

Main results:

* `AgentSwarm.exists_ballot_of_mem_tally` — the answer of a bloc is that of one of the ballots;
* `AgentSwarm.combine_not_null` — answers that are not null combine to one that is not null;
* `AgentSwarm.aggregate_accountsFor` — every consensus accounts for its results.
-/

import AgentSwarm.Proofs.Consensus.Exact
import AgentSwarm.Proofs.Consensus.Verdict
import AgentSwarm.Proofs.Members

set_option relaxedAutoImplicit false
set_option autoImplicit false

namespace AgentSwarm

/-! ### Blocs -/

section Blocs

variable {R : Type} [Scalar R] {key : JsonOf R → String} {ballots : List (Ballot R)}

/-- A tally with one more ballot. -/
theorem tally_concat (key : JsonOf R → String) (ballots : List (Ballot R)) (b : Ballot R) :
    tally key (ballots ++ [b]) = castBallot (key b.answer) b (tally key ballots) := by
  simp [tally]

/-- The answer of a bloc is that of one of the ballots. -/
theorem exists_ballot_of_mem_tally {k : String} {bloc : Bloc R}
    (h : (k, bloc) ∈ tally key ballots) : ∃ b ∈ ballots, bloc.answer = b.answer := by
  induction ballots using List.reverseRecOn generalizing k bloc with
  | nil => simp [tally] at h
  | append_singleton ballots b ih =>
      rw [tally_concat, castBallot] at h
      rcases eq_or_mem_of_mem_insertMember h with heq | hmem
      · obtain ⟨rfl, rfl⟩ := Prod.mk.inj heq
        cases hfound : (tally key ballots).lookup (key b.answer) with
        | none => exact ⟨b, by simp, rfl⟩
        | some found =>
            obtain ⟨b', hb', hanswer⟩ := ih (mem_of_lookup_eq_some hfound)
            exact ⟨b', by simp [hb'], hanswer⟩
      · obtain ⟨b', hb', hanswer⟩ := ih hmem
        exact ⟨b', by simp [hb'], hanswer⟩

/-- Ballots form a bloc. -/
theorem tally_ne_nil (h : ballots ≠ []) : tally key ballots ≠ [] := by
  induction ballots using List.reverseRecOn with
  | nil => exact absurd rfl h
  | append_singleton ballots b _ =>
      rw [tally_concat]
      exact insertMember_ne_nil

/-- Ballots have a leading bloc, with the answer of one of them. -/
theorem exists_leader (key : JsonOf R → String) (h : ballots ≠ []) :
    ∃ bloc, leader ((tally key ballots).map Prod.snd) = some bloc ∧
      ∃ b ∈ ballots, bloc.answer = b.answer := by
  cases hleader : leader ((tally key ballots).map Prod.snd) with
  | none =>
      cases htally : tally key ballots with
      | nil => exact absurd htally (tally_ne_nil h)
      | cons m rest => simp [htally, leader] at hleader
  | some bloc =>
      obtain ⟨⟨k, bloc'⟩, hmem, rfl⟩ := List.mem_map.1 (leader_mem hleader)
      exact ⟨_, rfl, exists_ballot_of_mem_tally hmem⟩

end Blocs

/-! ### Ballots -/

section Ballots

variable {R : Type} [Scalar R] {results : List (String × AgentResult R)}

omit [Scalar R] in
/-- A success has an answer unless its value is null. -/
theorem AgentResult.answer_isSome {r : AgentResult R} : r.answer.isSome ↔
    ∃ result, r.outcome = .success result ∧ result.lookup "value" ≠ some .null := by
  unfold answer
  cases r.outcome with
  | failure error kind => simp
  | success result =>
      unfold answerIn
      cases hvalue : result.lookup "value" with
      | none => simp [hvalue]
      | some v => cases v <;> simp [hvalue, JsonOf.isNull]

/-- Who contributes counts and has an answer. -/
theorem AgentResult.contribution_isSome {r : AgentResult R} :
    r.contribution.isSome ↔ r.counts = true ∧ r.answer.isSome := by
  unfold contribution
  cases r.counts <;> simp

/-- Ballots are in the order of the results. -/
theorem survivors_ids (results : List (String × AgentResult R)) :
    (survivors results).map (·.agentId) =
      (results.filter fun e => e.2.contribution.isSome).map Prod.fst := by
  simp only [survivors_eq, List.filterMap_map, Function.comp_def]
  induction results with
  | nil => rfl
  | cons e rest ih =>
      obtain ⟨id, r⟩ := e
      cases hr : r.contribution <;> simp [hr, ih]

/-- No ballot is null. -/
theorem survivors_not_null : ∀ b ∈ survivors results, b.answer.isNull = false := by
  intro b hb
  obtain ⟨⟨id, r⟩, -, hr⟩ := List.mem_filterMap.1 hb
  dsimp only at hr
  split at hr
  · obtain ⟨answer, hanswer, rfl⟩ := Option.map_eq_some_iff.1 hr
    exact AgentResult.answer_ne_null hanswer
  · simp at hr

end Ballots

/-! ### Combined answers -/

variable {R : Type} [Field R] [LinearOrder R] [Scalar R] [ExactScalar R]
variable {ballots : List (Ballot R)} {results : List (String × AgentResult R)}

/-- **Answers that are not null combine to one that is not null.** -/
theorem combine_not_null (h : ballots ≠ []) (hnull : ∀ b ∈ ballots, b.answer.isNull = false) :
    (combine ballots).isNull = false := by
  cases ballots with
  | nil => exact absurd rfl h
  | cons first rest =>
      rw [combine]
      split
      next => exact hnull first (by simp)
      next =>
          split
          next => rw [JsonOf.ofNumber, if_pos (ExactScalar.isFinite_eq _)]; rfl
          next =>
              split
              next => rfl
              next =>
                  obtain ⟨bloc, hleader, b, hb, hanswer⟩ := exists_leader Json.compact h
                  rw [plurality, hleader]
                  simpa [hanswer] using hnull b hb

/-! ### Accounts -/

/-- The agent succeeded with a confidence above zero, and its answer is not null. -/
def AgentResult.Contributes (r : AgentResult R) : Prop :=
  0 < r.confidence ∧
    ∃ result, r.outcome = .success result ∧ result.lookup "value" ≠ some .null

/-- Who contributes is who has a ballot. -/
theorem AgentResult.contributes_iff {r : AgentResult R} :
    r.Contributes ↔ r.contribution.isSome := by
  have hcounts : r.counts = true ↔ r.isSuccess = true ∧ 0 < r.confidence := by
    rw [counts, Bool.and_eq_true, ExactScalar.zero_eq, ExactScalar.less_iff]
  rw [contribution_isSome, hcounts, answer_isSome]
  constructor
  · rintro ⟨hpositive, result, hresult, hvalue⟩
    exact ⟨⟨by simp [isSuccess, hresult], hpositive⟩, result, hresult, hvalue⟩
  · rintro ⟨⟨-, hpositive⟩, hanswer⟩
    exact ⟨hpositive, hanswer⟩

/-- What a consensus says about the results that it is made of. -/
structure ConsensusResult.AccountsFor (c : ConsensusResult R)
    (results : List (String × AgentResult R)) : Prop where
  /-- The participants are in order. -/
  ascending : c.participants.Pairwise (· < ·)
  /-- The participants are those who contribute. -/
  mem_participants (id : String) :
    id ∈ c.participants ↔ ∃ r, (id, r) ∈ results ∧ r.Contributes
  /-- All agents are counted. -/
  total : c.metadata.lookup "total_agents" = some (.int results.length)
  /-- The agents without a part are counted. -/
  without : c.metadata.lookup "failed_agents" =
    some (.int (results.length - c.participants.length))
  /-- The value is absent exactly when nobody takes part. -/
  value_eq_none : c.value = none ↔ c.participants = []
  /-- The value is absent exactly when there is an error. -/
  error_isSome : c.value = none ↔ (c.metadata.lookup "error").isSome
  /-- A value that is present is not null. -/
  not_null (v : JsonOf R) (h : c.value = some v) : v.isNull = false
  /-- Without a value there are no scores, and every agent has its error. -/
  absent (h : c.value = none) : c.confidence = 0 ∧ c.agreement = 0 ∧
    ∃ errors, c.metadata.lookup "agent_errors" = some (.obj errors) ∧
      errors.map Prod.fst = results.map Prod.fst
  /-- With a value the scores lie in the unit interval. -/
  present (h : c.value ≠ none) :
    c.confidence ∈ Set.Icc (0 : R) 1 ∧ c.agreement ∈ Set.Icc (0 : R) 1

section Headcount

variable {R : Type} (all taking : Nat)

@[simp] theorem lookup_total_headcount :
    (headcount (R := R) all taking).lookup "total_agents" = some (.int all) := rfl

@[simp] theorem lookup_failed_headcount :
    (headcount (R := R) all taking).lookup "failed_agents" = some (.int (all - taking : Nat)) := rfl

@[simp] theorem lookup_error_headcount :
    (headcount (R := R) all taking).lookup "error" = none := rfl

end Headcount

/-- Those who have a ballot are those who contribute, in the order of the results. -/
theorem participants_survivors (h : Ascending results) :
    ((survivors results).map (·.agentId)).Pairwise (· < ·) ∧
      ∀ id, id ∈ (survivors results).map (·.agentId) ↔
        ∃ r, (id, r) ∈ results ∧ r.Contributes := by
  rw [survivors_ids]
  refine ⟨h.sublist (List.filter_sublist.map _), fun id => ?_⟩
  simp only [List.mem_map, List.mem_filter, ← AgentResult.contributes_iff]
  constructor
  · rintro ⟨⟨_, r⟩, ⟨hr, hcontributes⟩, rfl⟩
    exact ⟨r, hr, hcontributes⟩
  · rintro ⟨r, hr, hcontributes⟩
    exact ⟨_, ⟨hr, hcontributes⟩, rfl⟩

/-- Agreement lies in the unit interval. -/
theorem agreementOf_mem [IsStrictOrderedRing R] (confidences : List R) :
    agreementOf confidences ∈ Set.Icc (0 : R) 1 := by
  unfold agreementOf
  dsimp only
  split
  · rw [ExactScalar.zero_eq]
    exact ⟨le_rfl, zero_le_one⟩
  · exact ExactScalar.clampUnit_mem _

/-- A consensus that is reached accounts for the results: a value that is not null, scores in the
unit interval, and metadata with the counts and more, but without an error. -/
theorem ConsensusResult.AccountsFor.of_value {c : ConsensusResult R} (h : Ascending results)
    (hsome : survivors results ≠ [])
    (hparticipants : c.participants = (survivors results).map (·.agentId))
    (hmetadata : ∀ key, key = "total_agents" ∨ key = "failed_agents" ∨ key = "error" →
      c.metadata.lookup key = (headcount results.length (survivors results).length).lookup key)
    {v : JsonOf R} (hvalue : c.value = some v) (hnull : v.isNull = false)
    (hconfidence : c.confidence ∈ Set.Icc (0 : R) 1)
    (hagreement : c.agreement ∈ Set.Icc (0 : R) 1) : c.AccountsFor results where
  ascending := hparticipants ▸ (participants_survivors h).1
  mem_participants := hparticipants ▸ (participants_survivors h).2
  total := by rw [hmetadata _ (.inl rfl), lookup_total_headcount]
  without := by
    have hle : (survivors results).length ≤ results.length := List.length_filterMap_le _ _
    rw [hmetadata _ (.inr (.inl rfl)), hparticipants, List.length_map, lookup_failed_headcount,
      Nat.cast_sub hle]
  value_eq_none := by simp [hvalue, hparticipants, hsome]
  error_isSome := by simp [hvalue, hmetadata]
  not_null w hw := by
    obtain rfl : v = w := Option.some.inj (hvalue.symm.trans hw)
    exact hnull
  absent hnone := by simp [hvalue] at hnone
  present _ := ⟨hconfidence, hagreement⟩

/-- A consensus that nobody takes part in accounts for the results. -/
theorem ConsensusResult.AccountsFor.of_failed (algorithm : Algorithm) (reason : String)
    (h : Ascending results) (hnone : survivors results = []) :
    (ConsensusResult.failed algorithm reason
      (insertMember "agent_errors" (.obj (results.map fun e => (e.1, .str e.2.shortfall)))
        (headcount results.length (survivors results).length))).AccountsFor results where
  ascending := .nil
  mem_participants id := by
    rw [← (participants_survivors h).2, hnone]
    rfl
  total := by simp [failed, lookup_insertMember]
  without := by simp [failed, lookup_insertMember, hnone]
  value_eq_none := by simp [failed]
  error_isSome := by simp [failed, lookup_insertMember]
  not_null v hv := by simp [failed] at hv
  absent _ := by
    refine ⟨ExactScalar.zero_eq, ExactScalar.zero_eq,
      results.map fun e => (e.1, .str e.2.shortfall), ?_, ?_⟩
    · simp [failed, lookup_insertMember]
    · simp
  present hsome := absurd rfl hsome

/-- **Every consensus accounts for its results.** -/
theorem aggregate_accountsFor [IsStrictOrderedRing R] (key : VoteKey R) (algorithm : Algorithm)
    (h : Ascending results) : (aggregate key algorithm results).AccountsFor results := by
  by_cases hnone : survivors results = []
  · have hfailed := ConsensusResult.AccountsFor.of_failed algorithm
      (if results.isEmpty then "No agents were available to execute the task"
        else "All agents failed to produce a usable result") h hnone
    simpa [aggregate, hnone] using hfailed
  · cases algorithm with
    | confidenceWeighted =>
        simp only [aggregate, List.isEmpty_iff, hnone, if_false]
        refine .of_value h hnone rfl ?_ rfl (combine_not_null (by simpa using hnone) ?_)
          (ExactScalar.clampUnit_mem _) (agreementOf_mem _)
        · rintro name (rfl | rfl | rfl) <;> simp [confidenceWeighted, lookup_insertMember]
        · simpa using survivors_not_null
    | majorityVote =>
        obtain ⟨bloc, hleader, b, hb, hanswer⟩ := exists_leader key.keyOf hnone
        simp only [aggregate, List.isEmpty_iff, hnone, if_false, majorityVote, hleader]
        refine .of_value h hnone rfl ?_ rfl (hanswer ▸ survivors_not_null b hb)
          (ExactScalar.clampUnit_mem _) (ExactScalar.clampUnit_mem _)
        rintro name (rfl | rfl | rfl) <;> simp [lookup_insertMember]

namespace Sample

/-- A success and a failure. -/
noncomputable def answers : List (String × AgentResult ℝ) :=
  [("a", ⟨"a", "s", "p", .success [("value", .bool true)], 1 / 2, ⟨0, 0⟩, .none⟩),
    ("b", ⟨"b", "s", "p", .failure "lost" .invocation, 0, ⟨0, 0⟩, .none⟩)]

end Sample

/-- A majority vote on an answer and a failure, with a vote key that never has a key. -/
theorem aggregate_accountsFor_met :
    letI := Scalar.reals fun _ => []
    Ascending Sample.answers ∧
      (aggregate (fun _ => none) .majorityVote Sample.answers).AccountsFor Sample.answers := by
  let := Scalar.reals fun _ => []
  have := ExactScalar.reals fun _ => []
  have h : Ascending Sample.answers := by
    refine List.pairwise_cons.2 ⟨fun id hid => ?_, List.pairwise_singleton _ _⟩
    obtain rfl : id = "b" := List.mem_singleton.1 hid
    decide
  exact ⟨h, aggregate_accountsFor (fun _ => none) .majorityVote h⟩

end AgentSwarm

/-
**Majorities that are clear.**

When the answers of one key weigh more than those of every other key by more than the tolerance,
their bloc wins against all others, whatever ties there are among these.  So a majority vote is
known from the ballots alone, without its tally: it has the answer of the first agent of that key,
names all agents of the key as the winners, and measures the agreement by the share of their weight.

Main definitions:

* `AgentSwarm.LeadsClearly` — the ballots of a key outweigh those of all others;
* `AgentSwarm.ConsensusResult.WonBy` — what a majority vote says when the ballots of a key win.

Main results:

* `AgentSwarm.LeadsClearly.exists_leader` — the bloc of such a key is selected;
* `AgentSwarm.weightOf_ballotsOf_eq_iff` — the ballots of a key have all the weight only if they are
  all ballots;
* `AgentSwarm.aggregate_wonBy` — **a clear majority wins**.
-/

import AgentSwarm.Proofs.Consensus.Leader

set_option relaxedAutoImplicit false
set_option autoImplicit false

namespace AgentSwarm

variable {R : Type} [Field R] [LinearOrder R] [IsStrictOrderedRing R]
variable {key : JsonOf R → String} {k : String} {ballots : List (Ballot R)}

/-! ### The weight of a key -/

omit [LinearOrder R] [IsStrictOrderedRing R] in
/-- What is not of a key has the rest of the weight. -/
theorem weightOf_ballotsOf_add (key : JsonOf R → String) (k : String) (ballots : List (Ballot R)) :
    weightOf (ballotsOf key k ballots) + weightOf (ballots.filter fun b => key b.answer ≠ k) =
      weightOf ballots := by
  have hperm := List.filter_append_perm (fun b : Ballot R => decide (key b.answer = k)) ballots
  have hsum := (hperm.map (·.weight)).sum_eq
  rw [List.map_append, List.sum_append] at hsum
  simpa [weightOf, ballotsOf] using hsum

/-- A key has at most all the weight. -/
theorem weightOf_ballotsOf_le (hpos : ∀ b ∈ ballots, 0 < b.weight) :
    weightOf (ballotsOf key k ballots) ≤ weightOf ballots := by
  rw [← weightOf_ballotsOf_add key k ballots]
  exact le_add_of_nonneg_right (weightOf_nonneg fun b hb => hpos b (List.mem_of_mem_filter hb))

/-- **A key has all the weight only if it has all ballots.** -/
theorem weightOf_ballotsOf_eq_iff (hpos : ∀ b ∈ ballots, 0 < b.weight) :
    weightOf (ballotsOf key k ballots) = weightOf ballots ↔ ∀ b ∈ ballots, key b.answer = k := by
  rw [← weightOf_ballotsOf_add key k ballots, left_eq_add]
  constructor
  · intro hzero
    by_contra hother
    push Not at hother
    obtain ⟨b, hb, hk⟩ := hother
    have hrest : (ballots.filter fun b => key b.answer ≠ k) ≠ [] :=
      List.ne_nil_of_mem (List.mem_filter.2 ⟨hb, by simpa using hk⟩)
    exact (weightOf_pos hrest fun b hb => hpos b (List.mem_of_mem_filter hb)).ne' hzero
  · intro hall
    have hnone : (ballots.filter fun b => key b.answer ≠ k) = [] :=
      List.filter_eq_nil_iff.2 fun b hb => by simpa using hall b hb
    rw [hnone]
    rfl

/-! ### Clear majorities -/

/-- The ballots of a key outweigh those of every other key by more than the tolerance. -/
structure LeadsClearly (key : JsonOf R → String) (k : String) (ballots : List (Ballot R)) :
    Prop where
  cast : ballotsOf key k ballots ≠ []
  ahead (b : Ballot R) (hb : b ∈ ballots) (hk : key b.answer ≠ k) :
    weightOf (ballotsOf key (key b.answer) ballots) + 1 / 10 ^ 12 <
      weightOf (ballotsOf key k ballots)

variable [Scalar R] [ExactScalar R]

/-- **The bloc of a key that leads clearly is selected.** -/
theorem LeadsClearly.exists_leader (h : LeadsClearly key k ballots) : ∃ u : Bloc R,
    leader (blocsOf key ballots) = some u ∧ u.Holds (ballotsOf key k ballots) := by
  obtain ⟨u, hu, hholds⟩ := exists_bloc h.cast
  refine ⟨u, leader_eq_of_prevails (List.mem_map.2 ⟨_, hu, rfl⟩) fun w hw => ?_, hholds⟩
  obtain ⟨b, hb, hof⟩ := mem_blocsOf.1 hw
  by_cases hk : key b.answer = k
  · rw [hk, mem_tally.1 hu] at hof
    exact .inl (Option.some.inj hof).symm
  · have hahead : w.mass + 1 / 10 ^ 12 < u.mass := by
      rw [(Bloc.holds_of? hof).mass_eq, hholds.mass_eq]
      exact h.ahead b hb hk
    have htolerance : (0 : R) < 1 / 10 ^ 12 := by positivity
    refine .inr ⟨Bloc.beats_iff.2 (.inl hahead), ?_⟩
    rw [← Bool.not_eq_true, Bloc.beats_iff]
    rintro (hmore | ⟨htied, -⟩)
    · linarith
    · linarith [(abs_le.1 htied).1]

omit [IsStrictOrderedRing R] in
/-- Whoever takes part has a weight above zero. -/
theorem survivors_pos {results : List (String × AgentResult R)} :
    ∀ b ∈ survivors results, 0 < b.weight := by
  intro b hb
  obtain ⟨⟨id, r⟩, -, hr⟩ := List.mem_filterMap.1 hb
  dsimp only at hr
  split at hr
  next hcounts =>
      obtain ⟨answer, -, rfl⟩ := Option.map_eq_some_iff.1 hr
      rw [AgentResult.counts, Bool.and_eq_true, ExactScalar.zero_eq, ExactScalar.less_iff]
        at hcounts
      exact hcounts.2
  next => cases hr

/-- What a majority vote says when the ballots of the key `k` win. -/
structure ConsensusResult.WonBy (c : ConsensusResult R) (key : JsonOf R → String) (k : String)
    (ballots : List (Ballot R)) : Prop where
  /-- The value is the answer of the first agent of the key. -/
  value : ∃ first ∈ ballotsOf key k ballots,
    (∀ b ∈ ballotsOf key k ballots, first.agentId ≤ b.agentId) ∧ c.value = some first.answer
  /-- The winners are the agents of the key. -/
  winners : c.metadata.lookup "winning_agents" =
    some (.arr ((ballotsOf key k ballots).map fun b => .str b.agentId))
  /-- The winners are in order. -/
  ascending : ((ballotsOf key k ballots).map (·.agentId)).Pairwise (· < ·)
  /-- The confidence is the mean of theirs, brought into the unit interval. -/
  confidence : c.confidence = Scalar.clampUnit
    (weightOf (ballotsOf key k ballots) / (ballotsOf key k ballots).length)
  /-- Confidences in the unit interval, as successes have them, have their mean there. -/
  mean (h : ∀ b ∈ ballotsOf key k ballots, b.weight ≤ 1) :
    c.confidence = weightOf (ballotsOf key k ballots) / (ballotsOf key k ballots).length
  /-- The agreement is the share of the weight. -/
  agreement : c.agreement = weightOf (ballotsOf key k ballots) / weightOf ballots
  /-- The agreement is full only if all answers have one key. -/
  unanimous : c.agreement = 1 ↔
    ∀ b ∈ ballots, ∀ b' ∈ ballots, key b.answer = key b'.answer
  /-- The masses of all keys are there, each once, and sum to the weight of all ballots. -/
  distribution : ∃ masses : List (String × R),
    c.metadata.lookup "vote_distribution" =
      some (.obj (masses.map fun m => (m.1, .real m.2))) ∧
    Ascending masses ∧
    (∀ k', k' ∈ masses.map Prod.fst ↔ ∃ b ∈ ballots, key b.answer = k') ∧
    (∀ m ∈ masses, m.2 = weightOf (ballotsOf key m.1 ballots)) ∧
    (masses.map Prod.snd).sum = weightOf ballots

omit [IsStrictOrderedRing R] [Field R] [ExactScalar R] [LinearOrder R] in
/-- The answer of a bloc is that of its first agent, when agents are in order. -/
theorem Bloc.Holds.exists_first {u : Bloc R} {group : List (Ballot R)} (h : u.Holds group)
    (hids : (group.map (·.agentId)).Pairwise (· < ·)) :
    ∃ first ∈ group, (∀ b ∈ group, first.agentId ≤ b.agentId) ∧ u.answer = first.answer := by
  cases group with
  | nil => exact absurd rfl h.ne_nil
  | cons first rest =>
      refine ⟨first, by simp, fun b hb => ?_, (Option.some.inj h.answer).symm⟩
      rcases List.mem_cons.1 hb with rfl | hb
      · exact le_rfl
      · exact ((List.pairwise_cons.1 hids).1 _ (List.mem_map.2 ⟨b, hb, rfl⟩)).le

omit [Scalar R] [ExactScalar R] in
/-- The share of a key that some answer has is all only if all answers have one key. -/
theorem share_eq_one_iff (hne : ballotsOf key k ballots ≠ []) (hpos : ∀ b ∈ ballots, 0 < b.weight) :
    weightOf (ballotsOf key k ballots) / weightOf ballots = 1 ↔
      ∀ b ∈ ballots, ∀ b' ∈ ballots, key b.answer = key b'.answer := by
  obtain ⟨first, hfirst⟩ := List.exists_mem_of_ne_nil _ hne
  obtain ⟨hfirst, hk⟩ := mem_ballotsOf.1 hfirst
  have htotal : weightOf ballots ≠ 0 := (weightOf_pos (List.ne_nil_of_mem hfirst) hpos).ne'
  rw [div_eq_one_iff_eq htotal, weightOf_ballotsOf_eq_iff hpos]
  constructor
  · intro hall b hb b' hb'
    rw [hall b hb, hall b' hb']
  · intro hsame b hb
    rw [hsame b hb first hfirst, hk]

omit [IsStrictOrderedRing R] in
/-- A majority vote shows the mass of every key. -/
theorem exists_distribution (key : VoteKey R) (metadata : Members R) (h : ballots ≠ []) :
    ∃ masses : List (String × R),
      (majorityVote key ballots metadata).metadata.lookup "vote_distribution" =
        some (.obj (masses.map fun m => (m.1, .real m.2))) ∧
      Ascending masses ∧
      (∀ k, k ∈ masses.map Prod.fst ↔ ∃ b ∈ ballots, key.keyOf b.answer = k) ∧
      (∀ m ∈ masses, m.2 = weightOf (ballotsOf key.keyOf m.1 ballots)) ∧
      (masses.map Prod.snd).sum = weightOf ballots := by
  refine ⟨(tally key.keyOf ballots).map fun m => (m.1, m.2.mass), ?_, ?_, fun k => ?_, ?_, ?_⟩
  · obtain ⟨u, hu, -⟩ := exists_leader key.keyOf h
    simp only [majorityVote, hu]
    simp [lookup_insertMember, JsonOf.ofNumber, ExactScalar.isFinite_eq]
  · simpa [Ascending, Function.comp_def] using ascending_tally key.keyOf ballots
  · rw [← mem_keys_tally, List.map_map]
    rfl
  · intro m hm
    obtain ⟨⟨k, bloc⟩, hbloc, rfl⟩ := List.mem_map.1 hm
    exact (Bloc.holds_of? (mem_tally.1 hbloc)).mass_eq
  · rw [List.map_map]
    exact sum_tally key.keyOf ballots

/-- The vote of ballots in the order of their agents is won by a key that leads clearly. -/
theorem majorityVote_wonBy {key : VoteKey R} (metadata : Members R)
    (hids : (ballots.map (·.agentId)).Pairwise (· < ·)) (hpos : ∀ b ∈ ballots, 0 < b.weight)
    (h : LeadsClearly key.keyOf k ballots) :
    (majorityVote key ballots metadata).WonBy key.keyOf k ballots := by
  obtain ⟨u, hu, hholds⟩ := h.exists_leader
  have hselects := majorityVote_selects metadata hu
  have hposgroup : ∀ b ∈ ballotsOf key.keyOf k ballots, 0 < b.weight :=
    fun b hb => hpos b (mem_ballotsOf.1 hb).1
  have hascending : ((ballotsOf key.keyOf k ballots).map (·.agentId)).Pairwise (· < ·) :=
    hids.sublist (ballotsOf_sublist.map _)
  have hmean : Scalar.mean u.weights = weightOf (ballotsOf key.keyOf k ballots) /
      (ballotsOf key.keyOf k ballots).length := by
    rw [ExactScalar.mean_eq, hholds.weights, List.length_map, weightOf]
  have hagreement : (majorityVote key ballots metadata).agreement =
      weightOf (ballotsOf key.keyOf k ballots) / weightOf ballots := by
    have hgroup := weightOf_pos h.cast hposgroup
    have hle : weightOf (ballotsOf key.keyOf k ballots) ≤ weightOf ballots :=
      weightOf_ballotsOf_le hpos
    have htotal := hgroup.trans_le hle
    rw [hselects.agreement, ExactScalar.div_eq, ExactScalar.sum_eq, hholds.mass_eq]
    exact ExactScalar.clampUnit_of_mem
      ⟨div_nonneg hgroup.le htotal.le, (div_le_one htotal).2 hle⟩
  refine ⟨?_, ?_, hascending, hmean ▸ hselects.confidence, ?_, hagreement, ?_, ?_⟩
  · obtain ⟨first, hfirst, hleast, hanswer⟩ := hholds.exists_first hascending
    exact ⟨first, hfirst, hleast, hanswer ▸ hselects.value⟩
  · rw [hselects.winners, hholds.agentIds, List.map_map]
    rfl
  · intro hone
    rw [hselects.confidence, ← hmean]
    refine ExactScalar.clampUnit_of_mem (ExactScalar.mean_mem fun x hx => ?_)
    rw [hholds.weights] at hx
    obtain ⟨b, hb, rfl⟩ := List.mem_map.1 hx
    exact ⟨(hposgroup b hb).le, hone b hb⟩
  · rw [hagreement, share_eq_one_iff h.cast hpos]
  · exact exists_distribution key metadata fun hnil => h.cast (by rw [hnil]; rfl)

/-- **A clear majority wins**: whatever the vote key is, when those who take part and have one key
outweigh those of every other key by more than the tolerance, the majority vote is theirs. -/
theorem aggregate_wonBy (key : VoteKey R) {results : List (String × AgentResult R)}
    (hresults : Ascending results) (h : LeadsClearly key.keyOf k (survivors results)) :
    (aggregate key .majorityVote results).WonBy key.keyOf k (survivors results) := by
  have hne : survivors results ≠ [] := fun hnil => h.cast (by rw [hnil]; rfl)
  simp only [aggregate, List.isEmpty_iff, hne, if_false]
  exact majorityVote_wonBy _ (participants_survivors hresults).1 survivors_pos h

namespace Sample

/-- A text answered with some confidence. -/
noncomputable def said (id text : String) (confidence : ℝ) : String × AgentResult ℝ :=
  letI := Scalar.reals fun _ => []
  (id, .success id "s" "p" [("value", .str text)] confidence ⟨0, 0⟩ .none)

/-- Two agents together outweigh the one that is surest. -/
noncomputable def votes : List (String × AgentResult ℝ) :=
  [said "a" "lp" (9 / 10 : ℚ), said "b" "mip" (3 / 5 : ℚ), said "c" "mip" (1 / 2 : ℚ)]

/-- Whoever says something with a confidence above zero takes part. -/
theorem survivors_said (id text : String) {confidence : ℝ} (h : confidence ∈ Set.Ioc 0 1)
    (rest : List (String × AgentResult ℝ)) : letI := Scalar.reals fun _ => []
    survivors (said id text confidence :: rest) =
      ⟨id, .str text, confidence⟩ :: survivors rest := by
  let := Scalar.reals fun _ => []
  have := ExactScalar.reals fun _ => []
  have hconfidence : (said id text confidence).2.confidence = confidence :=
    ExactScalar.clampUnit_of_mem ⟨h.1.le, h.2⟩
  have hcounts : (said id text confidence).2.counts = true := by
    rw [AgentResult.counts, hconfidence, Bool.and_eq_true, ExactScalar.zero_eq,
      ExactScalar.less_iff]
    exact ⟨rfl, h.1⟩
  have hballot : survivors (said id text confidence :: rest) =
      ⟨id, .str text, (said id text confidence).2.confidence⟩ :: survivors rest :=
    List.filterMap_cons_some (if_pos hcounts)
  rw [hballot, hconfidence]

theorem survivors_votes : letI := Scalar.reals fun _ => []
    survivors votes =
      [⟨"a", .str "lp", (9 / 10 : ℚ)⟩, ⟨"b", .str "mip", (3 / 5 : ℚ)⟩,
        ⟨"c", .str "mip", (1 / 2 : ℚ)⟩] := by
  rw [votes, survivors_said _ _ (by norm_num), survivors_said _ _ (by norm_num),
    survivors_said _ _ (by norm_num)]
  rfl

end Sample

/-- Two agents that agree outweigh the one that is surest, and the confidence is their mean. -/
theorem aggregate_wonBy_met : letI := Scalar.reals fun _ => []
    Ascending Sample.votes ∧
      LeadsClearly Sample.byText.keyOf "mip" (survivors Sample.votes) ∧
      (aggregate Sample.byText .majorityVote Sample.votes).WonBy Sample.byText.keyOf "mip"
        (survivors Sample.votes) ∧
      (aggregate Sample.byText .majorityVote Sample.votes).confidence = 11 / 20 := by
  let := Scalar.reals fun _ => []
  have := ExactScalar.reals fun _ => []
  have hascending : Ascending Sample.votes := by
    show ["a", "b", "c"].Pairwise (· < ·)
    decide
  have hgroup : ballotsOf Sample.byText.keyOf "mip" (survivors Sample.votes) =
      [⟨"b", .str "mip", (3 / 5 : ℚ)⟩, ⟨"c", .str "mip", (1 / 2 : ℚ)⟩] := by
    rw [Sample.survivors_votes]
    rfl
  have hleads : LeadsClearly Sample.byText.keyOf "mip" (survivors Sample.votes) := by
    refine ⟨hgroup ▸ List.cons_ne_nil _ _, fun b hb hk => ?_⟩
    rw [hgroup]
    rw [Sample.survivors_votes] at hb ⊢
    simp only [List.mem_cons, List.not_mem_nil, or_false] at hb
    rcases hb with rfl | rfl | rfl
    · show ([((9 / 10 : ℚ) : ℝ)] : List ℝ).sum + 1 / 10 ^ 12 <
        ([((3 / 5 : ℚ) : ℝ), ((1 / 2 : ℚ) : ℝ)] : List ℝ).sum
      norm_num
    · exact absurd rfl hk
    · exact absurd rfl hk
  have hwon := aggregate_wonBy Sample.byText hascending hleads
  refine ⟨hascending, hleads, hwon, ?_⟩
  have hone : ∀ b ∈ ballotsOf Sample.byText.keyOf "mip" (survivors Sample.votes),
      b.weight ≤ 1 := by
    rw [hgroup]
    intro b hb
    rcases List.mem_pair.1 hb with rfl | rfl <;> norm_num
  rw [hwon.mean hone, hgroup]
  norm_num [weightOf]

end AgentSwarm

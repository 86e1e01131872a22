/-
**What a tally is made of.**

A tally puts ballots one by one into blocs.  Seen from its end it is simpler: under every key stands
the bloc of the ballots whose answers have that key, in the order in which they were cast.  So a
bloc keeps the answer of its first ballot, all agents and all weights, and its mass is their sum;
the keys ascend, each of them once; and the masses of all blocs add up to the weight of all ballots,
since every ballot adds its weight to one of them.

Main definitions:

* `AgentSwarm.ballotsOf` — the ballots whose answers have a key;
* `AgentSwarm.weightOf` — the sum of the weights of some ballots;
* `AgentSwarm.Bloc.Holds` — what a bloc keeps of the ballots it is made of.

Main results:

* `AgentSwarm.lookup_tally`, `AgentSwarm.mem_tally` — **under a key stands the bloc of its
  ballots**;
* `AgentSwarm.ascending_tally`, `AgentSwarm.mem_keys_tally` — the keys are those of the answers, in
  order;
* `AgentSwarm.sum_tally` — **the masses add up to the weight of all ballots**.
-/

import AgentSwarm.Proofs.Consensus.Participation
import Mathlib.Tactic.LinearCombination

set_option relaxedAutoImplicit false
set_option autoImplicit false

namespace AgentSwarm

/-! ### The ballots of a key -/

section Groups

variable {R : Type} {key : JsonOf R → String} {k : String} {ballots : List (Ballot R)}

/-- The ballots whose answers have a key. -/
def ballotsOf (key : JsonOf R → String) (k : String) (ballots : List (Ballot R)) :
    List (Ballot R) :=
  ballots.filter fun b => key b.answer = k

theorem mem_ballotsOf {b : Ballot R} :
    b ∈ ballotsOf key k ballots ↔ b ∈ ballots ∧ key b.answer = k := by
  simp [ballotsOf]

theorem ballotsOf_concat (b : Ballot R) : ballotsOf key k (ballots ++ [b]) =
    ballotsOf key k ballots ++ if key b.answer = k then [b] else [] := by
  by_cases hk : key b.answer = k <;> simp [ballotsOf, hk]

/-- The agents of a key are in the order of all agents. -/
theorem ballotsOf_sublist : (ballotsOf key k ballots).Sublist ballots := List.filter_sublist

end Groups

/-! ### The bloc of some ballots -/

section Blocs

variable {R : Type} [Scalar R] {key : JsonOf R → String} {k : String} {ballots : List (Ballot R)}

/-- The bloc of some ballots; there is none without ballots. -/
def Bloc.of? : List (Ballot R) → Option (Bloc R)
  | [] => none
  | b :: rest => some ((b :: rest).foldl .add (.opened b.answer))

/-- A ballot is added to the bloc of those before it. -/
theorem Bloc.of?_concat (group : List (Ballot R)) (b : Ballot R) :
    Bloc.of? (group ++ [b]) = some (((Bloc.of? group).getD (.opened b.answer)).add b) := by
  cases group <;> simp [Bloc.of?]

/-- What a bloc keeps of the ballots it is made of. -/
structure Bloc.Holds (bloc : Bloc R) (group : List (Ballot R)) : Prop where
  /-- The answer is that of the first ballot. -/
  answer : (group.head?).map (·.answer) = some bloc.answer
  agentIds : bloc.agentIds = group.map (·.agentId)
  weights : bloc.weights = group.map (·.weight)
  /-- The mass is the sum of the weights from left to right. -/
  mass : bloc.mass = (group.map (·.weight)).foldl Scalar.add Scalar.zero

theorem Bloc.foldl_add (group : List (Ballot R)) (bloc : Bloc R) :
    group.foldl Bloc.add bloc =
      ⟨bloc.answer, (group.map (·.weight)).foldl Scalar.add bloc.mass,
        bloc.agentIds ++ group.map (·.agentId), bloc.weights ++ group.map (·.weight)⟩ := by
  induction group generalizing bloc with
  | nil => simp
  | cons b rest ih => simp [ih, Bloc.add]

theorem Bloc.holds_of? {bloc : Bloc R} {group : List (Ballot R)} (h : Bloc.of? group = some bloc) :
    bloc.Holds group := by
  cases group with
  | nil => cases h
  | cons b rest =>
      obtain rfl := Option.some.inj h
      rw [Bloc.foldl_add]
      exact ⟨rfl, rfl, rfl, rfl⟩

/-- A bloc has a ballot. -/
theorem Bloc.Holds.ne_nil {bloc : Bloc R} {group : List (Ballot R)} (h : bloc.Holds group) :
    group ≠ [] := by
  rintro rfl
  cases h.answer

/-! ### Tallies -/

/-- **Under a key stands the bloc of its ballots.** -/
theorem lookup_tally : (tally key ballots).lookup k = Bloc.of? (ballotsOf key k ballots) := by
  induction ballots using List.reverseRecOn with
  | nil => rfl
  | append_singleton ballots b ih =>
      rw [tally_concat, castBallot, lookup_insertMember, ballotsOf_concat]
      by_cases hk : key b.answer = k
      · subst hk
        rw [if_pos rfl, if_pos rfl, Bloc.of?_concat, ih]
      · rw [if_neg (Ne.symm hk), if_neg hk, List.append_nil, ih]

/-- Blocs are in the order of their keys. -/
theorem ascending_tally (key : JsonOf R → String) (ballots : List (Ballot R)) :
    Ascending (tally key ballots) := by
  induction ballots using List.reverseRecOn with
  | nil => exact .nil
  | append_singleton ballots b ih =>
      rw [tally_concat]
      exact ih.insertMember

/-- The blocs of a tally. -/
theorem mem_tally {bloc : Bloc R} :
    (k, bloc) ∈ tally key ballots ↔ Bloc.of? (ballotsOf key k ballots) = some bloc := by
  rw [← lookup_tally]
  exact ⟨(ascending_tally key ballots).lookup_eq_some, mem_of_lookup_eq_some⟩

/-- The keys of a tally are those of the answers. -/
theorem mem_keys_tally :
    k ∈ (tally key ballots).map Prod.fst ↔ ∃ b ∈ ballots, key b.answer = k := by
  induction ballots using List.reverseRecOn with
  | nil => simp [tally]
  | append_singleton ballots b ih =>
      rw [tally_concat, castBallot, mem_keys_insertMember, ih]
      simp only [List.mem_append, List.mem_singleton]
      constructor
      · rintro (rfl | ⟨b', hb', rfl⟩)
        · exact ⟨b, .inr rfl, rfl⟩
        · exact ⟨b', .inl hb', rfl⟩
      · rintro ⟨b', hb' | rfl, rfl⟩
        · exact .inr ⟨b', hb', rfl⟩
        · exact .inl rfl

/-- A key that some answer has stands for a bloc. -/
theorem exists_bloc (h : ballotsOf key k ballots ≠ []) : ∃ bloc : Bloc R,
    (k, bloc) ∈ tally key ballots ∧ bloc.Holds (ballotsOf key k ballots) := by
  obtain ⟨bloc, hbloc⟩ : ∃ bloc, Bloc.of? (ballotsOf key k ballots) = some bloc := by
    cases hgroup : ballotsOf key k ballots with
    | nil => exact absurd hgroup h
    | cons b rest => exact ⟨_, rfl⟩
  exact ⟨bloc, mem_tally.2 hbloc, Bloc.holds_of? hbloc⟩

end Blocs

/-! ### Exact masses -/

section Sums

variable {A M : Type} [AddCommMonoid M] {k : String} {members : List (String × A)}

/-- What is summed over members changes with one of them by what it had before. -/
theorem Ascending.sum_insertMember (f : A → M) (value : A) (h : Ascending members) :
    ((AgentSwarm.insertMember k value members).map fun m => f m.2).sum +
        ((members.lookup k).map f).getD 0 =
      f value + (members.map fun m => f m.2).sum := by
  induction members with
  | nil => simp [AgentSwarm.insertMember]
  | cons m rest ih =>
      obtain ⟨k', v⟩ := m
      obtain ⟨hhead, htail⟩ := List.pairwise_cons.1 h
      simp only [AgentSwarm.insertMember]
      split
      next hlt =>
          -- all keys come after the new one, so it had no value
          have hnone : ((k', v) :: rest).lookup k = none := by
            rw [List.lookup_eq_none_iff]
            intro m hm
            have hk : k < m.1 := by
              rcases List.mem_cons.1 hm with rfl | hm
              · exact hlt
              · exact hlt.trans (hhead _ (List.mem_map.2 ⟨m, hm, rfl⟩))
            simpa using hk.ne
          simp [hnone]
      next =>
          split
          next he =>
              subst he
              simp only [List.map_cons, List.sum_cons, List.lookup_cons_self, Option.map_some,
                Option.getD_some]
              rw [add_assoc, add_comm (f v)]
          next hne =>
              have hb : (k == k') = false := by simpa using hne
              simp only [List.map_cons, List.sum_cons, List.lookup_cons, hb]
              rw [add_assoc, ih htail, add_left_comm]

end Sums

variable {R : Type} [Field R] [LinearOrder R] [Scalar R] [ExactScalar R]

/-- The weight of some ballots. -/
def weightOf (ballots : List (Ballot R)) : R := (ballots.map (·.weight)).sum

omit [LinearOrder R] [Scalar R] [ExactScalar R] in
@[simp] theorem weightOf_concat (ballots : List (Ballot R)) (b : Ballot R) :
    weightOf (ballots ++ [b]) = weightOf ballots + b.weight := by
  simp [weightOf]

/-- The mass of a bloc is the weight of its ballots. -/
theorem Bloc.Holds.mass_eq {bloc : Bloc R} {group : List (Ballot R)} (h : bloc.Holds group) :
    bloc.mass = weightOf group := by
  rw [h.mass, ExactScalar.foldl_add, ExactScalar.zero_eq, zero_add, weightOf]

/-- **The masses of all blocs are the weight of all ballots.** -/
theorem sum_tally (key : JsonOf R → String) (ballots : List (Ballot R)) :
    ((tally key ballots).map fun m => m.2.mass).sum = weightOf ballots := by
  induction ballots using List.reverseRecOn with
  | nil => rfl
  | append_singleton ballots b ih =>
      have hsum := (ascending_tally key ballots).sum_insertMember (k := key b.answer) Bloc.mass
        ((((tally key ballots).lookup (key b.answer)).getD (.opened b.answer)).add b)
      -- the ballot adds its weight to the mass that its bloc had before
      have hmass : ((((tally key ballots).lookup (key b.answer)).getD (.opened b.answer)).add
          b).mass = (((tally key ballots).lookup (key b.answer)).map Bloc.mass).getD 0 +
            b.weight := by
        cases (tally key ballots).lookup (key b.answer) <;>
          simp [Bloc.opened, Bloc.add, ExactScalar.add_eq]
      rw [ih, hmass] at hsum
      rw [tally_concat, castBallot, weightOf_concat]
      linear_combination hsum

variable [IsStrictOrderedRing R] {ballots : List (Ballot R)}

omit [Scalar R] [ExactScalar R] in
/-- Ballots with weights above zero weigh something. -/
theorem weightOf_pos (hne : ballots ≠ []) (hpos : ∀ b ∈ ballots, 0 < b.weight) :
    0 < weightOf ballots := by
  refine List.sum_pos _ ?_ (by simpa using hne)
  intro x hx
  obtain ⟨b, hb, rfl⟩ := List.mem_map.1 hx
  exact hpos b hb

omit [Scalar R] [ExactScalar R] in
theorem weightOf_nonneg (hpos : ∀ b ∈ ballots, 0 < b.weight) : 0 ≤ weightOf ballots := by
  by_cases hne : ballots = []
  · simp [hne, weightOf]
  · exact (weightOf_pos hne hpos).le

end AgentSwarm

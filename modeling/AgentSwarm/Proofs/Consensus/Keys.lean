/-
**Whose ballots are counted together.**

A vote counts two ballots in one bloc when their answers have one key.  The default key is the
compact text of an answer, and texts tell answers apart: so the blocs are those of equal answers,
with the two zeros of floating point told apart, which the comparison of answers takes for one
number.  A vote key of the caller has keys of its own for some answers and leaves the others to the
compact text.  Both kinds of keys are just texts: an answer without a key of its own is counted with
answers that are equal to it, and with those whose own key happens to be its text.

Main definitions:

* `AgentSwarm.SharesBloc` — two agents are in one bloc of a vote.

Main results:

* `AgentSwarm.sharesBloc_iff` — ballots are counted together when their answers have one key;
* `AgentSwarm.compact_eq_iff` — **answers have one text when they are equal**, zeros told apart;
* `AgentSwarm.sharesBloc_compact_iff` — blocs under the default key are those of equal answers;
* `AgentSwarm.sharesBloc_keyOf_iff` — blocs under a key that some answers do not have.
-/

import AgentSwarm.Proofs.Consensus.Leader
import AgentSwarm.Proofs.Json.Equality

set_option relaxedAutoImplicit false
set_option autoImplicit false

namespace AgentSwarm

/-! ### Blocs and keys -/

section Blocs

variable {R : Type} [Scalar R] {key : JsonOf R → String} {ballots : List (Ballot R)}
  {b c : Ballot R}

/-- Two agents are in one bloc of a vote. -/
def SharesBloc (key : JsonOf R → String) (ballots : List (Ballot R)) (id id' : String) : Prop :=
  ∃ u ∈ blocsOf key ballots, id ∈ u.agentIds ∧ id' ∈ u.agentIds

/-- An agent is in the bloc of the key of its answer only. -/
theorem key_eq_of_mem_agentIds {k : String} {u : Bloc R} (hids : (ballots.map (·.agentId)).Nodup)
    (hu : Bloc.of? (ballotsOf key k ballots) = some u) (hb : b ∈ ballots)
    (h : b.agentId ∈ u.agentIds) : key b.answer = k := by
  rw [(Bloc.holds_of? hu).agentIds] at h
  obtain ⟨b', hb', heq⟩ := List.mem_map.1 h
  obtain ⟨hb', hkey⟩ := mem_ballotsOf.1 hb'
  rw [← hkey, List.inj_on_of_nodup_map hids hb' hb heq]

/-- **Ballots are counted together when their answers have one key.** -/
theorem sharesBloc_iff (hids : (ballots.map (·.agentId)).Nodup) (hb : b ∈ ballots)
    (hc : c ∈ ballots) :
    SharesBloc key ballots b.agentId c.agentId ↔ key b.answer = key c.answer := by
  constructor
  · rintro ⟨u, hu, hbu, hcu⟩
    obtain ⟨d, -, hof⟩ := mem_blocsOf.1 hu
    rw [key_eq_of_mem_agentIds hids hof hb hbu, key_eq_of_mem_agentIds hids hof hc hcu]
  · intro hkey
    have hmem : b ∈ ballotsOf key (key c.answer) ballots := mem_ballotsOf.2 ⟨hb, hkey⟩
    have hmem' : c ∈ ballotsOf key (key c.answer) ballots := mem_ballotsOf.2 ⟨hc, rfl⟩
    obtain ⟨u, hu, hholds⟩ := exists_bloc (List.ne_nil_of_mem hmem)
    refine ⟨u, List.mem_map.2 ⟨_, hu, rfl⟩, ?_⟩
    rw [hholds.agentIds]
    exact ⟨List.mem_map.2 ⟨b, hmem, rfl⟩, List.mem_map.2 ⟨c, hmem', rfl⟩⟩

/-- Whoever takes part has one ballot. -/
theorem nodup_survivors {results : List (String × AgentResult R)} (h : Ascending results) :
    ((survivors results).map (·.agentId)).Nodup := by
  rw [survivors_ids]
  exact (h.sublist (List.filter_sublist.map _)).imp fun hlt => ne_of_lt hlt

end Blocs

/-! ### Texts of answers -/

open JsonOf Decimal

variable {v w : Json} {results : List (String × AgentResult Float)} {b c : Ballot Float}

/-- **Answers have one text when they are equal**, with the two zeros told apart. -/
theorem compact_eq_iff (hv : v.WellFormed) (hw : w.WellFormed) :
    Json.compact v = Json.compact w ↔ Alike SameNumber v w := by
  rw [alike_congr (fun x y hx _ => sameNumber_iff hx) hv hw, ← eq_iff_alike hv hw]
  exact ⟨Json.compact_injective hv hw, congrArg Json.compact⟩

/-- **Blocs under the default key are those of equal answers.**  Answers are equal when they are of
one kind and equal place by place and key by key, and the two zeros are not counted together.  The
comparison of answers is the same equality, except that to it the two zeros are one number. -/
theorem sharesBloc_compact_iff (hresults : Ascending results)
    (hanswers : ∀ b ∈ survivors results, b.answer.WellFormed) (hb : b ∈ survivors results)
    (hc : c ∈ survivors results) :
    (SharesBloc VoteKey.compact.keyOf (survivors results) b.agentId c.agentId ↔
      Alike SameNumber b.answer c.answer) ∧
    (b.answer.same c.answer = true ↔ Alike (fun x y => (x == y) = true) b.answer c.answer) := by
  rw [sharesBloc_iff (nodup_survivors hresults) hb hc]
  exact ⟨compact_eq_iff (hanswers b hb) (hanswers c hc),
    same_iff_alike (hanswers b hb) (hanswers c hc)⟩

namespace Sample

/-- An answer given with some confidence. -/
def replied (id : String) (answer : Json) (confidence : Float) : String × AgentResult Float :=
  (id, ⟨id, "s", "p", .success [("value", answer)], confidence, ⟨0, 0⟩, .none⟩)

/-- An answer whose note comes before its cost. -/
def costing (cost : Json) : Json := .obj [("note", .str "\n"), ("cost", cost)]

theorem writable_costing {cost : Json} (h : cost.Writable) : (costing cost).Writable := by
  refine .obj _ fun m hm => ?_
  rcases List.mem_pair.1 hm with rfl | rfl
  · exact .str _
  · exact h

/-- The costs are `1.0`, `1.0` and `1`, and the second one comes before its note. -/
def costs : List (String × AgentResult Float) :=
  [replied "a" (costing (.real 1.0)).settle 0.5,
    replied "b" (JsonOf.obj [("cost", .real 1.0), ("note", .str "\n")]).settle 0.5,
    replied "c" (costing (.int 1)).settle 0.5]

theorem survivors_costs : survivors costs =
    [⟨"a", (costing (.real 1.0)).settle, 0.5⟩, ⟨"b", (costing (.real 1.0)).settle, 0.5⟩,
      ⟨"c", (costing (.int 1)).settle, 0.5⟩] := by
  rfl

/-- The two zeros, and an integer that is surer than each of them. -/
def zeros : List (String × AgentResult Float) :=
  [replied "a" (.real (-0.0)) 0.4, replied "b" (.real 0.0) 0.4, replied "c" (.int 5) 0.5]

theorem survivors_zeros : survivors zeros =
    [⟨"a", .real (-0.0), 0.4⟩, ⟨"b", .real 0.0, 0.4⟩, ⟨"c", .int 5, 0.5⟩] := by
  rfl

end Sample

/-- Equal costs are counted together in whatever order they are given, but not those of another
kind. -/
theorem sharesBloc_compact_iff_met :
    Ascending Sample.costs ∧ (∀ b ∈ survivors Sample.costs, b.answer.WellFormed) ∧
      SharesBloc VoteKey.compact.keyOf (survivors Sample.costs) "a" "b" ∧
      ¬ SharesBloc VoteKey.compact.keyOf (survivors Sample.costs) "a" "c" := by
  have hascending : Ascending Sample.costs := by
    show ["a", "b", "c"].Pairwise (· < ·)
    decide
  have hreal : (Sample.costing (.real 1.0)).settle.WellFormed :=
    (Sample.writable_costing (.real _ (by decide))).settle
  have hanswers : ∀ b ∈ survivors Sample.costs, b.answer.WellFormed := by
    rw [Sample.survivors_costs]
    simp only [List.forall_mem_cons]
    exact ⟨hreal, hreal, (Sample.writable_costing (.int 1)).settle, nofun⟩
  have ha : ⟨"a", (Sample.costing (.real 1.0)).settle, 0.5⟩ ∈ survivors Sample.costs := by
    simp [Sample.survivors_costs]
  have hb : ⟨"b", (Sample.costing (.real 1.0)).settle, 0.5⟩ ∈ survivors Sample.costs := by
    simp [Sample.survivors_costs]
  have hc : ⟨"c", (Sample.costing (.int 1)).settle, 0.5⟩ ∈ survivors Sample.costs := by
    simp [Sample.survivors_costs]
  refine ⟨hascending, hanswers, ?_, ?_⟩
  · exact (sharesBloc_compact_iff hascending hanswers ha hb).1.2
      (.refl (fun x hx => (sameNumber_iff hx).2 rfl) (hanswers _ ha))
  · rw [(sharesBloc_compact_iff hascending hanswers ha hc).1]
    rintro (_ | _ | _ | _ | _ | _ | ⟨-, hmembers⟩)
    cases hmembers "cost" (.real 1.0) (.int 1) List.mem_cons_self List.mem_cons_self

/-- **The two zeros are not counted together**, though they are compared as one number; so an
integer wins that is less sure than both of them together. -/
theorem zeros_apart : Ascending Sample.zeros ∧
    (JsonOf.real (-0.0) : Json).same (.real 0.0) = true ∧
    ¬ SharesBloc VoteKey.compact.keyOf (survivors Sample.zeros) "a" "b" ∧
    (aggregate VoteKey.compact .majorityVote Sample.zeros).value = some (.int 5) := by
  have hascending : Ascending Sample.zeros := by
    show ["a", "b", "c"].Pairwise (· < ·)
    decide
  have ha : ⟨"a", .real (-0.0), 0.4⟩ ∈ survivors Sample.zeros := by simp [Sample.survivors_zeros]
  have hb : ⟨"b", .real 0.0, 0.4⟩ ∈ survivors Sample.zeros := by simp [Sample.survivors_zeros]
  refine ⟨hascending, by decide, ?_, by rfl⟩
  rw [sharesBloc_iff (nodup_survivors hascending) ha hb]
  intro hkey
  have heq := Json.compact_injective (.real _ (by decide)) (.real _ (by decide)) hkey
  have hsign : isNegative (-0.0) = isNegative 0.0 := congrArg isNegative (JsonOf.real.inj heq)
  revert hsign
  decide

/-- **Blocs under a key that some answers do not have.**  Answers that have keys are counted
together when their keys are equal, and answers that have none when they are equal; an answer
without a key is counted with one that has a key only if the key is its compact text. -/
theorem sharesBloc_keyOf_iff (key : VoteKey Float) (hresults : Ascending results)
    (hanswers : ∀ b ∈ survivors results, b.answer.WellFormed) (hb : b ∈ survivors results)
    (hc : c ∈ survivors results) :
    (∀ s t, key b.answer = some s → key c.answer = some t →
      (SharesBloc key.keyOf (survivors results) b.agentId c.agentId ↔ s = t)) ∧
    (key b.answer = none → key c.answer = none →
      (SharesBloc key.keyOf (survivors results) b.agentId c.agentId ↔
        Alike SameNumber b.answer c.answer)) ∧
    (∀ t, key b.answer = none → key c.answer = some t →
      (SharesBloc key.keyOf (survivors results) b.agentId c.agentId ↔
        Json.compact b.answer = t)) := by
  rw [sharesBloc_iff (nodup_survivors hresults) hb hc]
  refine ⟨fun s t hs ht => ?_, fun hs ht => ?_, fun t hs ht => ?_⟩
  · rw [VoteKey.keyOf, VoteKey.keyOf, hs, ht, Option.getD_some, Option.getD_some]
  · rw [VoteKey.keyOf, VoteKey.keyOf, hs, ht, Option.getD_none, Option.getD_none]
    exact compact_eq_iff (hanswers b hb) (hanswers c hc)
  · rw [VoteKey.keyOf, VoteKey.keyOf, hs, ht, Option.getD_none, Option.getD_some]

namespace Sample

/-- Two texts and two numbers. -/
def mixed : List (String × AgentResult Float) :=
  [replied "a" (.str "up") 0.5, replied "b" (.str "up") 0.5, replied "c" (.real 0.5) 0.5,
    replied "d" (.real 0.5) 0.5]

theorem survivors_mixed : survivors mixed =
    [⟨"a", .str "up", 0.5⟩, ⟨"b", .str "up", 0.5⟩, ⟨"c", .real 0.5, 0.5⟩,
      ⟨"d", .real 0.5, 0.5⟩] := by
  rfl

/-- The key of a text is the text, and other answers have no key. -/
def textKey : VoteKey Float := JsonOf.text?

/-- A text, the number that is written like it, and another text. -/
def sevens : List (String × AgentResult Float) :=
  [replied "a" (.str "7") 0.4, replied "b" (.int 7) 0.4, replied "c" (.str "x") 0.5]

theorem survivors_sevens : survivors sevens =
    [⟨"a", .str "7", 0.4⟩, ⟨"b", .int 7, 0.4⟩, ⟨"c", .str "x", 0.5⟩] := by
  rfl

end Sample

/-- Texts are counted together by their keys, and numbers without keys by what they are. -/
theorem sharesBloc_keyOf_iff_met :
    Ascending Sample.mixed ∧ (∀ b ∈ survivors Sample.mixed, b.answer.WellFormed) ∧
      SharesBloc Sample.textKey.keyOf (survivors Sample.mixed) "a" "b" ∧
      SharesBloc Sample.textKey.keyOf (survivors Sample.mixed) "c" "d" ∧
      ¬ SharesBloc Sample.textKey.keyOf (survivors Sample.mixed) "c" "a" := by
  have hascending : Ascending Sample.mixed := by
    show ["a", "b", "c", "d"].Pairwise (· < ·)
    decide
  have hreal : (JsonOf.real 0.5 : Json).WellFormed := .real _ (by decide)
  have hanswers : ∀ b ∈ survivors Sample.mixed, b.answer.WellFormed := by
    rw [Sample.survivors_mixed]
    simp only [List.forall_mem_cons]
    exact ⟨.str _, .str _, hreal, hreal, nofun⟩
  have ha : ⟨"a", .str "up", 0.5⟩ ∈ survivors Sample.mixed := by simp [Sample.survivors_mixed]
  have hb : ⟨"b", .str "up", 0.5⟩ ∈ survivors Sample.mixed := by simp [Sample.survivors_mixed]
  have hc : ⟨"c", .real 0.5, 0.5⟩ ∈ survivors Sample.mixed := by simp [Sample.survivors_mixed]
  have hd : ⟨"d", .real 0.5, 0.5⟩ ∈ survivors Sample.mixed := by simp [Sample.survivors_mixed]
  refine ⟨hascending, hanswers, ?_, ?_, ?_⟩
  · exact ((sharesBloc_keyOf_iff Sample.textKey hascending hanswers ha hb).1 _ _ rfl rfl).2 rfl
  · exact ((sharesBloc_keyOf_iff Sample.textKey hascending hanswers hc hd).2.1 rfl rfl).2
      (.refl (fun x hx => (sameNumber_iff hx).2 rfl) hreal)
  · rw [(sharesBloc_keyOf_iff Sample.textKey hascending hanswers hc ha).2.2 _ rfl rfl]
    decide

/-- **A text is counted together with the number that is written like it**, which has no key, and
with it wins against what is surer than each of them. -/
theorem seven_shared : Ascending Sample.sevens ∧
    Sample.textKey (.str "7") = some "7" ∧ Sample.textKey (.int 7) = none ∧
    SharesBloc Sample.textKey.keyOf (survivors Sample.sevens) "a" "b" ∧
    (aggregate Sample.textKey .majorityVote Sample.sevens).value = some (.str "7") := by
  have hascending : Ascending Sample.sevens := by
    show ["a", "b", "c"].Pairwise (· < ·)
    decide
  have ha : ⟨"a", .str "7", 0.4⟩ ∈ survivors Sample.sevens := by simp [Sample.survivors_sevens]
  have hb : ⟨"b", .int 7, 0.4⟩ ∈ survivors Sample.sevens := by simp [Sample.survivors_sevens]
  refine ⟨hascending, rfl, rfl, ?_, by rfl⟩
  rw [sharesBloc_iff (nodup_survivors hascending) ha hb]
  decide

end AgentSwarm

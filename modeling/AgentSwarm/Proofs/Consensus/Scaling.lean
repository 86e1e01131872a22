/-
**Weights need not sum to one.**

When all weights are multiplied by one factor, everything that is combined from them stays the same:
a mean does not change, the masses of a vote all grow by the factor, and fields are combined from
ballots that are multiplied, too.  Only the tolerance of a vote stays where it is.  So votes are
won by the same answers as long as no two masses tie with one weighting and not with the other; and
they may tie with light ballots, although one of them has many times the weight of the other.

Main definitions:

* `AgentSwarm.scaled`, `AgentSwarm.renormalised` — the ballots with their weights multiplied, in
  general and to a sum of one;
* `AgentSwarm.Visited`, `AgentSwarm.Mixed` — the ballots that are combined on the way, and those that
  are put to a vote;
* `AgentSwarm.KeepsTies`, `AgentSwarm.TiesKept` — a factor leaves ties as they are, in one vote and in
  every vote on the way.

Main results:

* `AgentSwarm.tally_scaled` — the blocs of a vote are multiplied;
* `AgentSwarm.leader_map` — the bloc that is left goes by the comparisons of blocs;
* `AgentSwarm.plurality_scaled`, `AgentSwarm.weightedMean_scaled` — votes and means;
* `AgentSwarm.keepsTies_of_apart` — masses that are equal or far apart keep their ties;
* `AgentSwarm.combine_scaled` — **weights need not sum to one** where ties are kept;
* `AgentSwarm.combine_light` — a field where they are not.
-/

import AgentSwarm.Proofs.Consensus.Leader
import AgentSwarm.Proofs.Consensus.Provenance
import AgentSwarm.Proofs.Json.Equality

set_option relaxedAutoImplicit false
set_option autoImplicit false

namespace AgentSwarm

/-! ### Members with changed values -/

section Members

variable {A B : Type} {k : String} {members : List (String × A)}

theorem insertMember_map (f : A → B) (v : A) :
    (insertMember k v members).map (fun m => (m.1, f m.2)) =
      insertMember k (f v) (members.map fun m => (m.1, f m.2)) := by
  induction members with
  | nil => rfl
  | cons m rest ih =>
      simp only [insertMember, List.map_cons]
      split
      · rfl
      · split
        · rfl
        · rw [List.map_cons, ih]

end Members

/-! ### The bloc that is left -/

section Fold

variable {R S : Type} [Scalar R] [Scalar S] {f : Bloc R → Bloc S}

theorem foldl_beats_map {first : Bloc R} {rest : List (Bloc R)}
    (h : ∀ a ∈ first :: rest, ∀ b ∈ first :: rest, (f a).beats (f b) = a.beats b) :
    (rest.map f).foldl (fun best c => if c.beats best then c else best) (f first) =
      f (rest.foldl (fun best c => if c.beats best then c else best) first) := by
  induction rest generalizing first with
  | nil => rfl
  | cons c rest ih =>
      rw [List.map_cons, List.foldl_cons, List.foldl_cons, h c (by simp) first (by simp), ← apply_ite]
      have hmem : ∀ a ∈ (if c.beats first then c else first) :: rest, a ∈ first :: c :: rest := by
        intro a ha
        rcases List.mem_cons.1 ha with rfl | ha
        · split <;> simp
        · simp [ha]
      exact ih fun a ha b hb => h a (hmem a ha) b (hmem b hb)

/-- **The bloc that is left goes by the comparisons of blocs.** -/
theorem leader_map {blocs : List (Bloc R)}
    (h : ∀ a ∈ blocs, ∀ b ∈ blocs, (f a).beats (f b) = a.beats b) :
    leader (blocs.map f) = (leader blocs).map f := by
  cases blocs with
  | nil => rfl
  | cons first rest => exact congrArg some (foldl_beats_map h)

end Fold

/-! ### Multiplied weights -/

section Weights

variable {R : Type} [Field R] {k : String} {c : R} {ballots : List (Ballot R)}

/-- A ballot with its weight multiplied. -/
def Ballot.scale (c : R) (b : Ballot R) : Ballot R := { b with weight := c * b.weight }

/-- The ballots with their weights multiplied. -/
def scaled (c : R) (ballots : List (Ballot R)) : List (Ballot R) := ballots.map (.scale c)

/-- The ballots with weights that sum to one. -/
def renormalised (ballots : List (Ballot R)) : List (Ballot R) :=
  scaled (weightOf ballots)⁻¹ ballots

/-- A bloc with its weights multiplied. -/
def Bloc.scale (c : R) (u : Bloc R) : Bloc R :=
  { u with mass := c * u.mass, weights := u.weights.map (c * ·) }

theorem weightOf_scaled : weightOf (scaled c ballots) = c * weightOf ballots := by
  rw [weightOf, scaled, List.map_map, weightOf, ← List.sum_map_mul_left]
  rfl

theorem supplied_scaled : supplied k (scaled c ballots) = scaled c (supplied k ballots) := by
  simp only [supplied, scaled, List.filterMap_map, List.map_filterMap]
  refine List.filterMap_congr fun b _ => ?_
  simp only [Function.comp_apply, Option.map_map]
  rfl

theorem fieldsOf_scaled : fieldsOf (scaled c ballots) = fieldsOf ballots := by
  rw [fieldsOf, scaled, List.flatMap_map]
  rfl

theorem all_scaled (c : R) (p : JsonOf R → Bool) (ballots : List (Ballot R)) :
    ((scaled c ballots).all fun b => p b.answer) = ballots.all fun b => p b.answer := by
  rw [scaled, List.all_map]
  rfl

variable [Scalar R]

/-- Multiplied ballots are combined in the way the ballots are. -/
theorem combine_scaled_cons (first : Ballot R) (rest : List (Ballot R)) :
    combine (scaled c (first :: rest)) =
      if (first :: rest).all fun b => b.answer.same first.answer then first.answer
      else if (first :: rest).all fun b => b.answer.isNumber then
        .ofNumber (weightedMean (scaled c (first :: rest)))
      else if (first :: rest).all fun b => b.answer.isObject then
        .obj ((fieldsOf (first :: rest)).map fun key =>
          (key, combine (scaled c (supplied key (first :: rest)))))
      else plurality (scaled c (first :: rest)) := by
  have hsame := all_scaled c (fun v => v.same first.answer) (first :: rest)
  have hnumbers := all_scaled c JsonOf.isNumber (first :: rest)
  have hobjects := all_scaled c JsonOf.isObject (first :: rest)
  have hfields : fieldsOf (scaled c (first :: rest)) = fieldsOf (first :: rest) := fieldsOf_scaled
  simp only [← supplied_scaled]
  rw [← hsame, ← hnumbers, ← hobjects, ← hfields]
  exact combine.eq_2 (first.scale c) (scaled c rest)

end Weights

/-! ### Ballots that are combined together -/

section Groups

variable {R : Type} {ballots : List (Ballot R)}

/-- The ballots `group` are combined when `ballots` are: they are these, or some of those for a field
of objects. -/
inductive Visited : List (Ballot R) → List (Ballot R) → Prop
  | here (ballots : List (Ballot R)) : Visited ballots ballots
  | field {ballots group : List (Ballot R)} (hobjects : ∀ b ∈ ballots, b.answer.isObject = true)
      (k : String) (h : Visited (supplied k ballots) group) : Visited ballots group

/-- The answers are put to a vote unless all of them are the same. -/
structure Mixed (ballots : List (Ballot R)) : Prop where
  number : ∃ b ∈ ballots, b.answer.isNumber = false
  object : ∃ b ∈ ballots, b.answer.isObject = false

theorem Mixed.ne_nil (h : Mixed ballots) : ballots ≠ [] := by
  obtain ⟨b, hb, -⟩ := h.number
  exact List.ne_nil_of_mem hb

theorem Visited.eq_nil {group : List (Ballot R)} (h : Visited [] group) : group = [] := by
  generalize hnil : ([] : List (Ballot R)) = ballots at h
  induction h with
  | here => rfl
  | field _ k _ ih =>
      subst hnil
      exact ih rfl

end Groups

/-! ### Ties -/

section Ties

variable {R : Type} [Field R] [Scalar R] {k : String} {c : R} {ballots : List (Ballot R)}

/-- A factor leaves the ties of a vote as they are. -/
def KeepsTies (c : R) (blocs : List (Bloc R)) : Prop :=
  ∀ a ∈ blocs, ∀ b ∈ blocs, tied (c * a.mass) (c * b.mass) = tied a.mass b.mass

/-- A factor leaves the ties of every vote as they are. -/
def TiesKept (c : R) (ballots : List (Ballot R)) : Prop :=
  ∀ group, Visited ballots group → Mixed group → KeepsTies c (blocsOf Json.compact group)

theorem TiesKept.supplied (h : TiesKept c ballots)
    (hobjects : ∀ b ∈ ballots, b.answer.isObject = true) (k : String) :
    TiesKept c (supplied k ballots) := fun group hgroup => h group (.field hobjects k hgroup)

theorem tiesKept_nil : TiesKept c ([] : List (Ballot R)) := by
  intro group hgroup hmixed
  obtain ⟨b, hb, -⟩ := hmixed.number
  rw [hgroup.eq_nil] at hb
  cases hb

/-- Objects keep ties where all their fields do. -/
theorem tiesKept_of_fields (hobjects : ∀ b ∈ ballots, b.answer.isObject = true)
    (h : ∀ k, TiesKept c (supplied k ballots)) : TiesKept c ballots := by
  intro group hgroup hmixed
  cases hgroup with
  | here =>
      obtain ⟨b, hb, hother⟩ := hmixed.object
      rw [hobjects b hb] at hother
      cases hother
  | field _ k hgroup => exact h k group hgroup hmixed

/-- Where answers are no objects, only their own vote counts. -/
theorem tiesKept_of_not_objects (hother : ∃ b ∈ ballots, b.answer.isObject = false)
    (h : Mixed ballots → KeepsTies c (blocsOf Json.compact ballots)) : TiesKept c ballots := by
  intro group hgroup hmixed
  cases hgroup with
  | here => exact h hmixed
  | field hobjects =>
      obtain ⟨b, hb, hother⟩ := hother
      rw [hobjects b hb] at hother
      cases hother

end Ties

/-! ### Votes, means and fields -/

variable {R : Type} [Field R] [LinearOrder R] [Scalar R] [ExactScalar R]
variable {key : JsonOf R → String} {k : String} {c : R} {ballots : List (Ballot R)}

theorem Bloc.scale_add (u : Bloc R) (b : Ballot R) :
    (u.add b).scale c = (u.scale c).add (b.scale c) := by
  simp [scale, add, Ballot.scale, ExactScalar.add_eq, mul_add]

theorem Bloc.scale_opened (answer : JsonOf R) : (opened answer).scale c = opened answer := by
  simp [scale, opened]

/-- **The blocs of a vote are multiplied.** -/
theorem tally_scaled :
    tally key (scaled c ballots) = (tally key ballots).map fun m => (m.1, m.2.scale c) := by
  induction ballots using List.reverseRecOn with
  | nil => rfl
  | append_singleton ballots b ih =>
      have hbloc : (((tally key (scaled c ballots)).lookup (key b.answer)).getD
          (.opened b.answer)).add (b.scale c) =
            ((((tally key ballots).lookup (key b.answer)).getD (.opened b.answer)).add b).scale c := by
        rw [ih, lookup_map_values, Bloc.scale_add]
        cases (tally key ballots).lookup (key b.answer) <;> simp [Bloc.scale_opened]
      have hconcat : scaled c (ballots ++ [b]) = scaled c ballots ++ [b.scale c] := List.map_append
      rw [hconcat, tally_concat, tally_concat, castBallot, castBallot, insertMember_map, ← ih, ← hbloc]
      rfl

theorem blocsOf_scaled : blocsOf key (scaled c ballots) = (blocsOf key ballots).map (.scale c) := by
  rw [blocsOf, tally_scaled, blocsOf, List.map_map, List.map_map]
  rfl

/-- **A mean stays the same.** -/
theorem weightedMean_scaled (hc : c ≠ 0) : weightedMean (scaled c ballots) = weightedMean ballots := by
  have hsum : ((scaled c ballots).map fun b => b.number * b.weight).sum =
      c * (ballots.map fun b => b.number * b.weight).sum := by
    rw [scaled, List.map_map, ← List.sum_map_mul_left]
    congr 1
    refine List.map_congr_left fun b _ => ?_
    exact mul_left_comm _ _ _
  rw [weightedMean_eq, weightedMean_eq, hsum, weightOf_scaled, mul_div_mul_left _ _ hc]

/-- Ballots with one answer are combined to it. -/
theorem combine_of_answer_eq {v : JsonOf R} (hne : ballots ≠ [])
    (h : ∀ b ∈ ballots, b.answer = v) : combine ballots = v :=
  combine_of_same ((JsonOf.same_iff_eq ExactScalar.same_iff).2 rfl) hne h

/-- Answers that are neither all numbers nor all objects are put to a vote. -/
theorem combine_eq_plurality (h : Mixed ballots) : combine ballots = plurality ballots := by
  obtain ⟨d, hd, hnumber⟩ := h.number
  obtain ⟨e, he, hobject⟩ := h.object
  cases ballots with
  | nil => cases hd
  | cons first rest =>
      rw [combine]
      split
      next hsame =>
          obtain ⟨b, hb, hplurality⟩ := exists_plurality (List.cons_ne_nil first rest)
          rw [hplurality]
          exact ((JsonOf.same_iff_eq ExactScalar.same_iff).1 (List.all_eq_true.1 hsame b hb)).symm
      next =>
          split
          next hnumbers =>
              rw [List.all_eq_true.1 hnumbers d hd] at hnumber
              cases hnumber
          next =>
              split
              next hobjects =>
                  rw [List.all_eq_true.1 hobjects e he] at hobject
                  cases hobject
              next => rfl

/-- **A field of objects is combined from the ballots that supply it.** -/
theorem get?_combine (hobjects : ∀ b ∈ ballots, b.answer.isObject = true)
    (hk : supplied k ballots ≠ []) :
    (combine ballots).get? k = some (combine (supplied k ballots)) := by
  have hne : ballots ≠ [] := by
    rintro rfl
    exact hk rfl
  rcases combine_cases hne with
    ⟨b, hb, hcombine, hsame | ⟨d, hd, hother⟩⟩ | ⟨-, hnumbers⟩ | ⟨hcombine, -⟩
  · -- all objects are the same, so all that is supplied is what one of them holds
    have hequal : ∀ d ∈ ballots, d.answer = b.answer :=
      fun d hd => (JsonOf.same_iff_eq ExactScalar.same_iff).1 (hsame d hd)
    obtain ⟨v, hv⟩ : ∃ v, b.answer.get? k = some v := by
      obtain ⟨b', hb'⟩ := List.exists_mem_of_ne_nil _ hk
      obtain ⟨d, hd, v, hv, -⟩ := mem_supplied.1 hb'
      exact ⟨v, hequal d hd ▸ hv⟩
    have hsupplied : ∀ b' ∈ supplied k ballots, b'.answer = v := by
      intro b' hb'
      obtain ⟨d, hd, w, hw, rfl⟩ := mem_supplied.1 hb'
      rw [hequal d hd, hv] at hw
      exact (Option.some.inj hw).symm
    rw [hcombine, hv, combine_of_answer_eq hk hsupplied]
  · rw [hobjects d hd] at hother
    cases hother
  · have hobject := hobjects _ (List.head_mem hne)
    rw [JsonOf.isObject_eq_false (hnumbers _ (List.head_mem hne))] at hobject
    cases hobject
  · rw [hcombine, get?_combineFields, if_neg hk]

/-! ### Weights need not sum to one -/

variable [IsStrictOrderedRing R]

/-- Masses that are equal, or differ by more than the tolerance with either weighting, keep their
ties. -/
theorem keepsTies_of_apart (hc : 0 < c) {blocs : List (Bloc R)}
    (h : ∀ a ∈ blocs, ∀ b ∈ blocs, a.mass = b.mass ∨
      1 / 10 ^ 12 < |a.mass - b.mass| ∧ 1 / 10 ^ 12 < c * |a.mass - b.mass|) :
    KeepsTies c blocs := by
  intro a ha b hb
  rw [Bool.eq_iff_iff, tied_iff, tied_iff, ← mul_sub, abs_mul, abs_of_pos hc]
  rcases h a ha b hb with hequal | ⟨hapart, hapart'⟩
  · simp [hequal]
  · exact iff_of_false (not_le.2 hapart') (not_le.2 hapart)

/-- Multiplied blocs compare as they did. -/
theorem Bloc.beats_scale (hc : 0 < c) {a b : Bloc R}
    (h : tied (c * a.mass) (c * b.mass) = tied a.mass b.mass) :
    (a.scale c).beats (b.scale c) = a.beats b := by
  have hless : Scalar.less (c * b.mass) (c * a.mass) = Scalar.less b.mass a.mass := by
    rw [Bool.eq_iff_iff, ExactScalar.less_iff, ExactScalar.less_iff, mul_lt_mul_iff_right₀ hc]
  have hscale : (a.scale c).beats (b.scale c) =
      if tied (c * a.mass) (c * b.mass) then
        decide (Text.ordered a.agentIds < Text.ordered b.agentIds)
      else Scalar.less (c * b.mass) (c * a.mass) := rfl
  rw [hscale, h, hless, beats]

/-- **The same bloc is left**, multiplied. -/
theorem leader_scaled (hc : 0 < c) (h : KeepsTies c (blocsOf key ballots)) :
    leader (blocsOf key (scaled c ballots)) = (leader (blocsOf key ballots)).map (.scale c) := by
  rw [blocsOf_scaled]
  exact leader_map fun a ha b hb => Bloc.beats_scale hc (h a ha b hb)

/-- **A vote is won by the same answer.** -/
theorem plurality_scaled (hc : 0 < c) (h : KeepsTies c (blocsOf Json.compact ballots)) :
    plurality (scaled c ballots) = plurality ballots := by
  have hleader := leader_scaled hc h
  rw [blocsOf, blocsOf] at hleader
  rw [plurality, plurality, hleader]
  cases leader ((tally Json.compact ballots).map Prod.snd) <;> rfl

/-- Weights need not sum to one where ties are kept. -/
theorem combine_scaled_of_tiesKept (hc : 0 < c) (h : TiesKept c ballots) :
    combine (scaled c ballots) = combine ballots := by
  induction ballots using combine.induct with
  | case1 => rfl
  | case2 first rest hsame => rw [combine_scaled_cons, combine, if_pos hsame, if_pos hsame]
  | case3 first rest hsame hnumbers =>
      rw [combine_scaled_cons, combine, if_neg hsame, if_neg hsame, if_pos hnumbers,
        if_pos hnumbers, weightedMean_scaled hc.ne']
  | case4 first rest hsame hnumbers hobjects ih =>
      have hfield : ∀ key, combine (scaled c (supplied key (first :: rest))) =
          combine (supplied key (first :: rest)) :=
        fun key => ih key (h.supplied (List.all_eq_true.1 hobjects) key)
      rw [combine_scaled_cons, combine, if_neg hsame, if_neg hsame, if_neg hnumbers,
        if_neg hnumbers, if_pos hobjects, dif_pos hobjects]
      simp only [hfield]
  | case5 first rest hsame hnumbers hobjects =>
      have hmixed : Mixed (first :: rest) := by
        rw [Bool.not_eq_true, List.all_eq_false] at hnumbers hobjects
        exact ⟨by simpa using hnumbers, by simpa using hobjects⟩
      rw [combine_scaled_cons, combine, if_neg hsame, if_neg hsame, if_neg hnumbers,
        if_neg hnumbers, if_neg hobjects, dif_neg hobjects,
        plurality_scaled hc (h _ (.here _) hmixed)]

/-- **Weights need not sum to one** where ties are kept: multiplied ballots combine to the same
answer, and a field of objects is combined from the ballots that supply it with their weights
renormalised. -/
theorem combine_scaled (hpos : ∀ b ∈ ballots, 0 < b.weight) :
    (∀ c : R, 0 < c → TiesKept c ballots → combine (scaled c ballots) = combine ballots) ∧
    ((∀ b ∈ ballots, b.answer.isObject = true) → ∀ k, supplied k ballots ≠ [] →
      weightOf (renormalised (supplied k ballots)) = 1 ∧
      (TiesKept (weightOf (supplied k ballots))⁻¹ (supplied k ballots) →
        (combine ballots).get? k = some (combine (renormalised (supplied k ballots))))) := by
  refine ⟨fun c hc => combine_scaled_of_tiesKept hc, fun hobjects k hk => ?_⟩
  have hweight : 0 < weightOf (supplied k ballots) := weightOf_pos hk (supplied_pos hpos)
  refine ⟨?_, fun hties => ?_⟩
  · rw [renormalised, weightOf_scaled, inv_mul_cancel₀ hweight.ne']
  · rw [get?_combine hobjects hk, renormalised,
      combine_scaled_of_tiesKept (inv_pos.2 hweight) hties]

namespace Sample

/-- One order with a cost, and two orders of other kinds. -/
noncomputable def orders : List (Ballot ℝ) :=
  [⟨"a", .obj [("cost", .int 1)], (1 / 2 : ℚ)⟩, ⟨"b", .obj [("kind", .str "lp")], (3 / 8 : ℚ)⟩,
    ⟨"c", .obj [("kind", .str "mip")], (1 / 8 : ℚ)⟩]

/-- The ballots for the kind. -/
noncomputable def kinds : List (Ballot ℝ) :=
  [⟨"b", .str "lp", (3 / 8 : ℚ)⟩, ⟨"c", .str "mip", (1 / 8 : ℚ)⟩]

theorem supplied_kind : supplied "kind" orders = kinds := rfl

theorem supplied_cost : supplied "cost" orders = [⟨"a", .int 1, (1 / 2 : ℚ)⟩] := rfl

theorem supplied_other {k : String} (hkind : k ≠ "kind") (hcost : k ≠ "cost") :
    supplied k orders = [] := by
  have hkind' : (k == "kind") = false := beq_false_of_ne hkind
  have hcost' : (k == "cost") = false := beq_false_of_ne hcost
  simp [supplied, orders, JsonOf.get?, List.lookup_cons, hkind', hcost']

theorem blocsOf_kinds : letI := Scalar.reals fun _ => []
    blocsOf Json.compact kinds = kinds.map alone := by
  rfl

/-- Twice the weights leave the ties of the kinds as they are. -/
theorem keepsTies_kinds : letI := Scalar.reals fun _ => []
    KeepsTies 2 (blocsOf Json.compact kinds) := by
  let := Scalar.reals fun _ => []
  have := ExactScalar.reals fun _ => []
  refine keepsTies_of_apart two_pos fun a ha b hb => ?_
  rw [blocsOf_kinds] at ha hb
  obtain ⟨b₁, hb₁, rfl⟩ := List.mem_map.1 ha
  obtain ⟨b₂, hb₂, rfl⟩ := List.mem_map.1 hb
  rw [alone_mass, alone_mass]
  rcases List.mem_pair.1 hb₁ with rfl | rfl <;> rcases List.mem_pair.1 hb₂ with rfl | rfl
  · exact .inl rfl
  · right; norm_num
  · right; norm_num
  · exact .inl rfl

theorem tiesKept_kinds : letI := Scalar.reals fun _ => []
    TiesKept 2 kinds := by
  let := Scalar.reals fun _ => []
  exact tiesKept_of_not_objects ⟨_, List.mem_cons_self, rfl⟩ fun _ => keepsTies_kinds

theorem tiesKept_orders : letI := Scalar.reals fun _ => []
    TiesKept 2 orders := by
  let := Scalar.reals fun _ => []
  refine tiesKept_of_fields ?_ fun k => ?_
  · simp [orders, JsonOf.isObject]
  · by_cases hkind : k = "kind"
    · subst hkind
      exact tiesKept_kinds
    · by_cases hcost : k = "cost"
      · subst hcost
        rw [supplied_cost]
        refine tiesKept_of_not_objects ⟨_, List.mem_cons_self, rfl⟩ fun hmixed => ?_
        obtain ⟨b, hb, hnumber⟩ := hmixed.number
        obtain rfl := List.mem_singleton.1 hb
        cases hnumber
      · rw [supplied_other hkind hcost]
        exact tiesKept_nil

end Sample

/-- Doubled weights give the same order, and its kind is that of the two orders that have one. -/
theorem combine_scaled_met : letI := Scalar.reals fun _ => []
    (∀ b ∈ Sample.orders, 0 < b.weight) ∧ TiesKept 2 Sample.orders ∧
      (∀ b ∈ Sample.orders, b.answer.isObject = true) ∧ supplied "kind" Sample.orders ≠ [] ∧
      combine (scaled 2 Sample.orders) = combine Sample.orders ∧
      (combine Sample.orders).get? "kind" =
        some (combine (renormalised (supplied "kind" Sample.orders))) := by
  let := Scalar.reals fun _ => []
  have := ExactScalar.reals fun _ => []
  have hpos : ∀ b ∈ Sample.orders, 0 < b.weight := by
    simp only [Sample.orders, List.forall_mem_cons]
    norm_num
  have hobjects : ∀ b ∈ Sample.orders, b.answer.isObject = true := by
    simp [Sample.orders, JsonOf.isObject]
  have hkind : supplied "kind" Sample.orders ≠ [] := List.cons_ne_nil _ _
  have hweight : (weightOf (supplied "kind" Sample.orders))⁻¹ = 2 := by
    rw [Sample.supplied_kind]
    norm_num [weightOf, Sample.kinds]
  obtain ⟨hscaled, hfield⟩ := combine_scaled hpos
  exact ⟨hpos, Sample.tiesKept_orders, hobjects, hkind, hscaled 2 two_pos Sample.tiesKept_orders,
    (hfield hobjects "kind" hkind).2 (hweight ▸ Sample.tiesKept_kinds)⟩

namespace Sample

/-- Three orders; the two that have a kind weigh next to nothing. -/
noncomputable def light : List (Ballot ℝ) :=
  [⟨"a", .obj [("cost", .int 1)], (1 : ℚ)⟩, ⟨"b", .obj [("kind", .str "x")], (1 / 10 ^ 13 : ℚ)⟩,
    ⟨"c", .obj [("kind", .str "y")], (9 / 10 ^ 13 : ℚ)⟩]

/-- The ballots for the kind. -/
noncomputable def faint : List (Ballot ℝ) :=
  [⟨"b", .str "x", (1 / 10 ^ 13 : ℚ)⟩, ⟨"c", .str "y", (9 / 10 ^ 13 : ℚ)⟩]

theorem supplied_light : supplied "kind" light = faint := rfl

theorem mixed_scaled_faint (c : ℝ) : Mixed (scaled c faint) :=
  ⟨⟨_, List.mem_cons_self, rfl⟩, ⟨_, List.mem_cons_self, rfl⟩⟩

theorem weightOf_faint : weightOf faint = 1 / 10 ^ 12 := by
  norm_num [weightOf, faint]

theorem blocsOf_faint : letI := Scalar.reals fun _ => []
    blocsOf Json.compact faint = faint.map alone := by
  rfl

/-- The second answer wins when its mass is greater by more than the tolerance. -/
theorem combine_scaled_faint (c : ℝ) : letI := Scalar.reals fun _ => []
    combine (scaled c faint) =
      if c * (1 / 10 ^ 13) + 1 / 10 ^ 12 < c * (9 / 10 ^ 13) then .str "y" else .str "x" := by
  let := Scalar.reals fun _ => []
  have := ExactScalar.reals fun _ => []
  let x : Bloc ℝ := (alone ⟨"b", .str "x", (1 / 10 ^ 13 : ℚ)⟩).scale c
  let y : Bloc ℝ := (alone ⟨"c", .str "y", (9 / 10 ^ 13 : ℚ)⟩).scale c
  have hblocs : blocsOf Json.compact (scaled c faint) = [x, y] := by
    rw [blocsOf_scaled, blocsOf_faint]
    rfl
  have hxmass : x.mass = c * (1 / 10 ^ 13) := by
    rw [show x.mass = c * (alone _).mass from rfl, alone_mass]
    norm_num
  have hymass : y.mass = c * (9 / 10 ^ 13) := by
    rw [show y.mass = c * (alone _).mass from rfl, alone_mass]
    norm_num
  have hbeats : y.beats x = true ↔ c * (1 / 10 ^ 13) + 1 / 10 ^ 12 < c * (9 / 10 ^ 13) := by
    have hids : ¬ Text.ordered y.agentIds < Text.ordered x.agentIds :=
      show ¬ ["c"] < ["b"] by decide
    rw [Bloc.beats_iff, hxmass, hymass]
    exact or_iff_left fun h => hids h.2
  have hleader : leader (blocsOf Json.compact (scaled c faint)) =
      some (if y.beats x then y else x) := by rw [hblocs]; rfl
  rw [combine_eq_plurality (mixed_scaled_faint c), plurality_eq hleader, apply_ite Bloc.answer]
  simp only [hbeats]
  rfl

end Sample

/-- **A field that is not combined as it would be from renormalised weights.**  The ballots for the
kind tie, since they weigh next to nothing, and the first agent wins; with weights that sum to one
the other agent wins with nine tenths. -/
theorem combine_light : letI := Scalar.reals fun _ => []
    (∀ b ∈ Sample.light, 0 < b.weight) ∧ (∀ b ∈ Sample.light, b.answer.isObject = true) ∧
      supplied "kind" Sample.light ≠ [] ∧
      (combine Sample.light).get? "kind" = some (.str "x") ∧
      combine (renormalised (supplied "kind" Sample.light)) = .str "y" := by
  let := Scalar.reals fun _ => []
  have := ExactScalar.reals fun _ => []
  have hobjects : ∀ b ∈ Sample.light, b.answer.isObject = true := by
    simp [Sample.light, JsonOf.isObject]
  have hone : scaled 1 Sample.faint = Sample.faint := by
    simp [scaled, Sample.faint, Ballot.scale]
  have hkind : supplied "kind" Sample.light ≠ [] := List.cons_ne_nil _ _
  refine ⟨?_, hobjects, hkind, ?_, ?_⟩
  · simp only [Sample.light, List.forall_mem_cons]
    norm_num
  · rw [get?_combine hobjects hkind, Sample.supplied_light, ← hone,
      Sample.combine_scaled_faint, if_neg (by norm_num)]
  · rw [Sample.supplied_light, renormalised, Sample.weightOf_faint, Sample.combine_scaled_faint,
      if_pos (by norm_num)]

end AgentSwarm

/-
**Where a combined answer comes from.**

Answers are combined level by level: at every level they may all be the same, all be numbers, all be
objects, or be put to a vote, and below objects the agents that take part get fewer.  Still,
whatever the combined answer holds at a path of keys goes back to what the answers hold at that very
path.  Texts, truth values, nulls and arrays are taken from one of them; a number lies between two
of their numbers; and nothing is lost below objects.  All three follow one key at a time, since the
ballots for a field offer at a path what the ballots offer at the path that begins with the field.

The mean of numbers is the only place where something is divided.  Its divisor is the weight of the
ballots that take part there, which is above zero when their weights are.

Main definitions:

* `AgentSwarm.JsonOf.valueAt` — what a value holds at a path of keys;
* `AgentSwarm.Offered` — some answer holds a value at a path;
* `AgentSwarm.Attested` — a value goes back to what the answers hold at a path;
* `AgentSwarm.JsonOf.ObjectsAlong` — a value holds objects on the way along a path;
* `AgentSwarm.combine?` — the combined answer, with divisions that fail for a divisor of zero.

Main results:

* `AgentSwarm.combine_cases` — the ways to combine answers;
* `AgentSwarm.offered_supplied` — what is offered for a field is what is offered below it;
* `AgentSwarm.exists_le_weightedMean`, `AgentSwarm.exists_weightedMean_le` — a mean lies between two
  of the numbers;
* `AgentSwarm.combine?_eq` — nothing is divided by zero;
* `AgentSwarm.attested_combine` — **what a combined answer holds goes back to the answers**;
* `AgentSwarm.isSome_valueAt_combine` — below objects nothing is lost;
* `AgentSwarm.combine_provenance` — all of this together.
-/

import AgentSwarm.Proofs.Consensus.Blocs

set_option relaxedAutoImplicit false
set_option autoImplicit false

namespace AgentSwarm

/-! ### Paths -/

namespace JsonOf

variable {R : Type} {p q : List String} {k : String} {v w : JsonOf R}

/-- What a value holds at a path of keys. -/
def valueAt : List String → JsonOf R → Option (JsonOf R)
  | [], v => some v
  | k :: p, v => (v.get? k).bind (valueAt p)

@[simp] theorem valueAt_nil : v.valueAt [] = some v := rfl

theorem valueAt_cons : v.valueAt (k :: p) = (v.get? k).bind (valueAt p) := rfl

/-- A value has a member at its keys. -/
theorem mem_keys_iff : k ∈ v.keys ↔ (v.valueAt [k]).isSome := by
  have hget : (v.valueAt [k]).isSome ↔ v.get? k ≠ none := by
    rw [← Option.isSome_iff_ne_none, valueAt_cons]
    cases v.get? k <;> simp
  rw [hget]
  cases v with
  | obj members =>
      rw [get?, ne_eq, List.lookup_eq_none_iff, keys, List.mem_map]
      push Not
      exact exists_congr fun m => and_congr_right fun _ => by simpa using eq_comm
  | null | bool | int | real | str | arr => simp [keys, get?]

/-- On the way along a path a value holds objects. -/
def ObjectsAlong (p : List String) (v : JsonOf R) : Prop :=
  ∀ q, q <+: p → q ≠ p → ∀ w, v.valueAt q = some w → w.isObject = true

theorem objectsAlong_nil : v.ObjectsAlong [] :=
  fun _ hq hne => absurd (List.prefix_nil.1 hq) hne

/-- Only objects have members. -/
theorem objectsAlong_cons : v.ObjectsAlong (k :: p) ↔
    v.isObject = true ∧ ∀ w, v.get? k = some w → w.ObjectsAlong p := by
  constructor
  · intro h
    refine ⟨h [] List.nil_prefix (List.cons_ne_nil k p).symm v rfl, ?_⟩
    intro w hw q hq hne u hu
    refine h (k :: q) (List.cons_prefix_cons.2 ⟨rfl, hq⟩) (fun he => hne (List.cons.inj he).2) u ?_
    rw [valueAt_cons, hw]
    exact hu
  · rintro ⟨hobject, htail⟩ q hq hne u hu
    cases q with
    | nil => exact Option.some.inj hu ▸ hobject
    | cons j q =>
        obtain ⟨rfl, hrest⟩ := List.cons_prefix_cons.1 hq
        obtain ⟨w, hw, hu⟩ := Option.bind_eq_some_iff.1 hu
        exact htail w hw q hrest (fun he => hne (he ▸ rfl)) u hu

/-- A number is no object. -/
theorem isObject_eq_false (h : v.isNumber = true) : v.isObject = false := by
  cases v with
  | int | real => rfl
  | null | bool | str | arr | obj => cases h

variable [Scalar R]

/-- Objects that are the same have the same values under a key, or none. -/
theorem lookup_of_sameMembers {as bs : List (String × JsonOf R)} (h : sameMembers as bs = true) :
    as.lookup k = none ∧ bs.lookup k = none ∨
      ∃ v w, as.lookup k = some v ∧ bs.lookup k = some w ∧ v.same w = true := by
  induction as generalizing bs with
  | nil =>
      cases bs with
      | nil => simp
      | cons => simp [sameMembers] at h
  | cons a as ih =>
      cases bs with
      | nil => simp [sameMembers] at h
      | cons b bs =>
          obtain ⟨j, v⟩ := a
          obtain ⟨j', w⟩ := b
          simp only [sameMembers, Bool.and_eq_true, beq_iff_eq] at h
          obtain ⟨⟨rfl, hsame⟩, hrest⟩ := h
          simp only [List.lookup_cons]
          cases k == j with
          | true => exact .inr ⟨v, w, rfl, rfl, hsame⟩
          | false => exact ih hrest

/-- **Values that are the same reach equally far.** -/
theorem isSome_valueAt_of_same (h : v.same w = true) :
    (v.valueAt p).isSome = (w.valueAt p).isSome := by
  induction p generalizing v w with
  | nil => rfl
  | cons k p ih =>
      have hget : v.get? k = none ∧ w.get? k = none ∨
          ∃ v' w', v.get? k = some v' ∧ w.get? k = some w' ∧ v'.same w' = true := by
        cases v <;> cases w <;> first
          | exact lookup_of_sameMembers (by simpa [same] using h)
          | exact .inl ⟨rfl, rfl⟩
          | simp [same] at h
      rcases hget with ⟨hv, hw⟩ | ⟨v', w', hv, hw, hsame⟩
      · simp [valueAt_cons, hv, hw]
      · simp [valueAt_cons, hv, hw, ih hsame]

end JsonOf

/-! ### Fields -/

section Fields

variable {R : Type} {ballots : List (Ballot R)} {b b' : Ballot R} {p : List String} {k : String}
  {v w : JsonOf R}

/-- A ballot for a field holds what the object holds there. -/
theorem mem_supplied : b' ∈ supplied k ballots ↔
    ∃ b ∈ ballots, ∃ v, b.answer.get? k = some v ∧ { b with answer := v } = b' := by
  simp only [supplied, List.mem_filterMap, Option.map_eq_some_iff]

/-- Some answer holds the value `w` at the path. -/
def Offered (ballots : List (Ballot R)) (p : List String) (w : JsonOf R) : Prop :=
  ∃ b ∈ ballots, b.answer.valueAt p = some w

/-- **What is offered for a field is what is offered below it.** -/
theorem offered_supplied : Offered (supplied k ballots) p w ↔ Offered ballots (k :: p) w := by
  constructor
  · rintro ⟨b', hb', hw⟩
    obtain ⟨b, hb, v, hv, rfl⟩ := mem_supplied.1 hb'
    refine ⟨b, hb, ?_⟩
    rw [JsonOf.valueAt_cons, hv]
    exact hw
  · rintro ⟨b, hb, hw⟩
    obtain ⟨v, hv, hw⟩ := Option.bind_eq_some_iff.1 hw
    exact ⟨_, mem_supplied.2 ⟨b, hb, v, hv, rfl⟩, hw⟩

/-- The ballots for a field weigh what they weigh. -/
theorem supplied_pos [Field R] [LinearOrder R] (hpos : ∀ b ∈ ballots, 0 < b.weight) :
    ∀ b ∈ supplied k ballots, 0 < b.weight := by
  intro b' hb'
  obtain ⟨b, hb, v, -, rfl⟩ := mem_supplied.1 hb'
  exact hpos b hb

/-- The fields are those that some answer has. -/
theorem mem_fieldsOf : k ∈ fieldsOf ballots ↔ supplied k ballots ≠ [] := by
  rw [fieldsOf, Text.mem_sortedSet, List.mem_flatMap]
  constructor
  · rintro ⟨b, hb, hk⟩
    obtain ⟨w, hw⟩ := Option.isSome_iff_exists.1 (JsonOf.mem_keys_iff.1 hk)
    obtain ⟨b', hb', -⟩ := offered_supplied.2 ⟨b, hb, hw⟩
    exact List.ne_nil_of_mem hb'
  · intro h
    obtain ⟨b', hb'⟩ := List.exists_mem_of_ne_nil _ h
    obtain ⟨b, hb, hw⟩ := offered_supplied.1 ⟨b', hb', JsonOf.valueAt_nil⟩
    exact ⟨b, hb, JsonOf.mem_keys_iff.2 (by simp [hw])⟩

variable [Scalar R]

/-- Objects combined field by field. -/
def combineFields (ballots : List (Ballot R)) : JsonOf R :=
  .obj ((fieldsOf ballots).map fun key => (key, combine (supplied key ballots)))

/-- A field is there when some answer supplies it. -/
theorem get?_combineFields : (combineFields ballots).get? k =
    if supplied k ballots = [] then none else some (combine (supplied k ballots)) := by
  split
  next hnone =>
      refine List.lookup_eq_none_iff.2 fun m hm => ?_
      obtain ⟨key, hkey, rfl⟩ := List.mem_map.1 hm
      rw [bne_iff_ne]
      rintro rfl
      exact mem_fieldsOf.1 hkey hnone
  next hsome => exact List.lookup_graph _ (mem_fieldsOf.2 hsome)

/-- A plurality takes one of the answers. -/
theorem exists_plurality (h : ballots ≠ []) : ∃ b ∈ ballots, plurality ballots = b.answer := by
  obtain ⟨bloc, hleader, b, hb, hanswer⟩ := exists_leader Json.compact h
  refine ⟨b, hb, ?_⟩
  rw [plurality, hleader]
  exact hanswer

/-- **The ways to combine answers**: one of them is taken, when all are the same or after a vote;
numbers are averaged; and objects are combined field by field. -/
theorem combine_cases (h : ballots ≠ []) :
    (∃ b ∈ ballots, combine ballots = b.answer ∧
      ((∀ c ∈ ballots, c.answer.same b.answer = true) ∨
        ∃ c ∈ ballots, c.answer.isObject = false)) ∨
    (combine ballots = .ofNumber (weightedMean ballots) ∧
      ∀ b ∈ ballots, b.answer.isNumber = true) ∨
    (combine ballots = combineFields ballots ∧ ∀ b ∈ ballots, b.answer.isObject = true) := by
  cases ballots with
  | nil => exact absurd rfl h
  | cons first rest =>
      rw [combine]
      split
      next hsame => exact .inl ⟨first, by simp, rfl, .inl (List.all_eq_true.1 hsame)⟩
      next =>
          split
          next hnumbers => exact .inr (.inl ⟨rfl, List.all_eq_true.1 hnumbers⟩)
          next =>
              split
              next hobjects => exact .inr (.inr ⟨rfl, List.all_eq_true.1 hobjects⟩)
              next hmixed =>
                  rw [Bool.not_eq_true, List.all_eq_false] at hmixed
                  obtain ⟨c, hc, hother⟩ := hmixed
                  obtain ⟨b, hb, hanswer⟩ := exists_plurality h
                  exact .inl ⟨b, hb, hanswer, .inr ⟨c, hc, by simpa using hother⟩⟩

end Fields

/-! ### Reach -/

section Reach

variable {R : Type} [Scalar R] {ballots : List (Ballot R)} {p : List String} {k : String}

omit [Scalar R] in
/-- Ballots for a field hold objects on the way along what is left of a path. -/
theorem objectsAlong_supplied (h : ∀ b ∈ ballots, b.answer.ObjectsAlong (k :: p)) :
    ∀ b ∈ supplied k ballots, b.answer.ObjectsAlong p := by
  intro b' hb'
  obtain ⟨b, hb, v, hv, rfl⟩ := mem_supplied.1 hb'
  exact (JsonOf.objectsAlong_cons.1 (h b hb)).2 v hv

/-- **Below objects nothing is lost**: a path that some answer reaches is reached by the combined
answer when all answers hold objects on the way. -/
theorem isSome_valueAt_combine (hobjects : ∀ b ∈ ballots, b.answer.ObjectsAlong p)
    {w : JsonOf R} (h : Offered ballots p w) : ((combine ballots).valueAt p).isSome := by
  induction p generalizing ballots with
  | nil => rfl
  | cons k p ih =>
      obtain ⟨b, hb, hw⟩ := h
      have hobject := (JsonOf.objectsAlong_cons.1 (hobjects b hb)).1
      rcases combine_cases (List.ne_nil_of_mem hb) with
        ⟨first, -, hcombine, hsame | ⟨c, hc, hother⟩⟩ | ⟨-, hnumbers⟩ | ⟨hcombine, -⟩
      · rw [hcombine, ← JsonOf.isSome_valueAt_of_same (hsame b hb), hw]
        rfl
      · rw [(JsonOf.objectsAlong_cons.1 (hobjects c hc)).1] at hother
        cases hother
      · rw [JsonOf.isObject_eq_false (hnumbers b hb)] at hobject
        cases hobject
      · have hsupplied : Offered (supplied k ballots) p w := offered_supplied.2 ⟨b, hb, hw⟩
        have hfield : supplied k ballots ≠ [] := by
          obtain ⟨b', hb', -⟩ := hsupplied
          exact List.ne_nil_of_mem hb'
        rw [hcombine, JsonOf.valueAt_cons, get?_combineFields, if_neg hfield]
        exact ih (objectsAlong_supplied hobjects) hsupplied

/-- Objects combine to an object. -/
theorem isObject_combine (hne : ballots ≠ [])
    (hobjects : ∀ b ∈ ballots, b.answer.isObject = true) : (combine ballots).isObject = true := by
  rcases combine_cases hne with ⟨b, hb, hcombine, -⟩ | ⟨-, hnumbers⟩ | ⟨hcombine, -⟩
  · rw [hcombine, hobjects b hb]
  · obtain ⟨b, hb⟩ := List.exists_mem_of_ne_nil _ hne
    have hobject := hobjects b hb
    rw [JsonOf.isObject_eq_false (hnumbers b hb)] at hobject
    cases hobject
  · rw [hcombine]
    rfl

end Reach

/-! ### Provenance -/

variable {R : Type} [Field R] [LinearOrder R] [IsStrictOrderedRing R] [Scalar R] [ExactScalar R]
variable {ballots : List (Ballot R)} {p : List String} {k : String} {v : JsonOf R}

/-- A value goes back to what the answers hold at a path. -/
structure Attested (ballots : List (Ballot R)) (p : List String) (v : JsonOf R) : Prop where
  /-- Some answer holds a value there. -/
  offered : ∃ w, Offered ballots p w
  /-- What is no number and no object, so a null, a truth value, a text or an array, is what some
  answer holds there. -/
  verbatim (hnumber : v.isNumber = false) (hobject : v.isObject = false) : Offered ballots p v
  /-- A number lies between two numbers that answers hold there. -/
  between (x : R) (hx : v.number? = some x) :
    ∃ u w : JsonOf R, Offered ballots p u ∧ Offered ballots p w ∧
      ∃ low high, u.number? = some low ∧ w.number? = some high ∧ low ≤ x ∧ x ≤ high

omit [Field R] [IsStrictOrderedRing R] [ExactScalar R] in
/-- What some answer holds goes back to it. -/
theorem Offered.attested (h : Offered ballots p v) : Attested ballots p v :=
  ⟨⟨v, h⟩, fun _ _ => h, fun x hx => ⟨v, v, h, h, x, x, hx, hx, le_rfl, le_rfl⟩⟩

omit [Field R] [IsStrictOrderedRing R] [ExactScalar R] in
/-- What goes back to the ballots for a field goes back to the ballots. -/
theorem Attested.of_supplied (h : Attested (supplied k ballots) p v) :
    Attested ballots (k :: p) v := by
  obtain ⟨hoffered, hverbatim, hbetween⟩ := h
  simp only [offered_supplied] at hoffered hverbatim hbetween
  exact ⟨hoffered, hverbatim, hbetween⟩

/-- The number of a ballot, as the weighted mean counts it. -/
def Ballot.number (b : Ballot R) : R := (b.answer.number?).getD Scalar.zero

omit [IsStrictOrderedRing R] in
/-- The weighted mean is the sum of the products by the sum of the weights. -/
theorem weightedMean_eq (ballots : List (Ballot R)) : weightedMean ballots =
    (ballots.map fun b => b.number * b.weight).sum / weightOf ballots := by
  simp only [weightedMean, totalWeight, ExactScalar.div_eq, ExactScalar.sum_eq,
    ExactScalar.mul_eq, weightOf, Ballot.number]

/-- The products with the mean sum to what the products sum to. -/
theorem sum_mul_weightedMean (hne : ballots ≠ []) (hpos : ∀ b ∈ ballots, 0 < b.weight) :
    (ballots.map fun b => weightedMean ballots * b.weight).sum =
      (ballots.map fun b => b.number * b.weight).sum := by
  rw [List.sum_map_mul_left, ← weightOf, weightedMean_eq,
    div_mul_cancel₀ _ (weightOf_pos hne hpos).ne']

/-- **A weighted mean is at least one of the numbers.** -/
theorem exists_le_weightedMean (hne : ballots ≠ []) (hpos : ∀ b ∈ ballots, 0 < b.weight) :
    ∃ b ∈ ballots, b.number ≤ weightedMean ballots := by
  obtain ⟨b, hb, hle⟩ := List.exists_le_of_sum_le hne _ _ (sum_mul_weightedMean hne hpos).ge
  exact ⟨b, hb, le_of_mul_le_mul_right hle (hpos b hb)⟩

/-- **A weighted mean is at most one of the numbers.** -/
theorem exists_weightedMean_le (hne : ballots ≠ []) (hpos : ∀ b ∈ ballots, 0 < b.weight) :
    ∃ b ∈ ballots, weightedMean ballots ≤ b.number := by
  obtain ⟨b, hb, hle⟩ := List.exists_le_of_sum_le hne _ _ (sum_mul_weightedMean hne hpos).le
  exact ⟨b, hb, le_of_mul_le_mul_right hle (hpos b hb)⟩

omit [Field R] [LinearOrder R] [IsStrictOrderedRing R] [ExactScalar R] in
/-- A ballot with a number offers it. -/
theorem number?_of_isNumber {b : Ballot R} (h : b.answer.isNumber = true) :
    b.answer.number? = some b.number := by
  unfold Ballot.number
  cases hanswer : b.answer <;> simp [hanswer, JsonOf.isNumber] at h ⊢ <;> rfl

/-- The mean of numbers goes back to them. -/
theorem attested_weightedMean (hne : ballots ≠ []) (hpos : ∀ b ∈ ballots, 0 < b.weight)
    (hnumbers : ∀ b ∈ ballots, b.answer.isNumber = true) :
    Attested ballots [] (.real (weightedMean ballots)) := by
  obtain ⟨b, hb, hlow⟩ := exists_le_weightedMean hne hpos
  obtain ⟨c, hc, hhigh⟩ := exists_weightedMean_le hne hpos
  have hoffered : ∀ b ∈ ballots, Offered ballots [] b.answer := fun b hb => ⟨b, hb, rfl⟩
  refine ⟨⟨_, hoffered b hb⟩, fun hnumber => ?_, fun x hx => ?_⟩
  · cases hnumber
  · obtain rfl : weightedMean ballots = x := Option.some.inj hx
    exact ⟨_, _, hoffered b hb, hoffered c hc, b.number, c.number,
      number?_of_isNumber (hnumbers b hb), number?_of_isNumber (hnumbers c hc), hlow, hhigh⟩

/-- **What a combined answer holds goes back to the answers.** -/
theorem attested_combine (hne : ballots ≠ []) (hpos : ∀ b ∈ ballots, 0 < b.weight)
    (h : (combine ballots).valueAt p = some v) : Attested ballots p v := by
  -- one key at a time, over the ballots for the field of that key
  induction p generalizing ballots with
  | nil =>
      obtain rfl : combine ballots = v := Option.some.inj h
      rcases combine_cases hne with ⟨b, hb, hcombine, -⟩ | ⟨hcombine, hnumbers⟩ | ⟨hcombine, -⟩
      · exact Offered.attested ⟨b, hb, congrArg some hcombine.symm⟩
      · rw [hcombine, JsonOf.ofNumber, if_pos (ExactScalar.isFinite_eq _)]
        exact attested_weightedMean hne hpos hnumbers
      · obtain ⟨b, hb⟩ := List.exists_mem_of_ne_nil _ hne
        rw [hcombine]
        refine ⟨⟨_, b, hb, rfl⟩, fun _ hobject => ?_, fun x hx => ?_⟩
        · cases hobject
        · cases hx
  | cons k p ih =>
      rcases combine_cases hne with ⟨b, hb, hcombine, -⟩ | ⟨hcombine, -⟩ | ⟨hcombine, -⟩
      · exact Offered.attested ⟨b, hb, hcombine ▸ h⟩
      · rw [hcombine, JsonOf.ofNumber, if_pos (ExactScalar.isFinite_eq _)] at h
        cases h
      · rw [hcombine, JsonOf.valueAt_cons, get?_combineFields] at h
        split at h
        next => cases h
        next hfield => exact (ih hfield (supplied_pos hpos) h).of_supplied

/-- **Objects have the keys of all of them.** -/
theorem mem_keys_combine (hne : ballots ≠ []) (hpos : ∀ b ∈ ballots, 0 < b.weight)
    (hobjects : ∀ b ∈ ballots, b.answer.isObject = true) :
    k ∈ (combine ballots).keys ↔ ∃ b ∈ ballots, k ∈ b.answer.keys := by
  simp only [JsonOf.mem_keys_iff]
  constructor
  · intro h
    obtain ⟨v, hv⟩ := Option.isSome_iff_exists.1 h
    obtain ⟨w, b, hb, hw⟩ := (attested_combine hne hpos hv).offered
    exact ⟨b, hb, by simp [hw]⟩
  · rintro ⟨b, hb, hk⟩
    obtain ⟨w, hw⟩ := Option.isSome_iff_exists.1 hk
    have hway : ∀ b ∈ ballots, b.answer.ObjectsAlong [k] := fun b hb =>
      JsonOf.objectsAlong_cons.2 ⟨hobjects b hb, fun _ _ => JsonOf.objectsAlong_nil⟩
    exact isSome_valueAt_combine hway ⟨b, hb, hw⟩

/-! ### Divisions -/

/-- The combined answer, or none when the mean of some numbers has a divisor of zero. -/
def combine? {R : Type} [Scalar R] (ballots : List (Ballot R)) : Option (JsonOf R) :=
  match ballots with
  | [] => some .null
  | first :: rest =>
    if (first :: rest).all fun b => b.answer.same first.answer then some first.answer
    else if (first :: rest).all fun b => b.answer.isNumber then
      if Scalar.same (totalWeight (first :: rest)) Scalar.zero then none
      else some (.ofNumber (weightedMean (first :: rest)))
    else if _h : (first :: rest).all (fun b => b.answer.isObject) = true then
      ((fieldsOf (first :: rest)).mapM fun key =>
        (combine? (supplied key (first :: rest))).map fun v => (key, v)).map .obj
    else some (plurality (first :: rest))
termination_by heightOf ballots
decreasing_by exact heightOf_supplied_lt (heightOf_pos _h)

/-- **Nothing is divided by zero.** -/
theorem combine?_eq (hpos : ∀ b ∈ ballots, 0 < b.weight) :
    combine? ballots = some (combine ballots) := by
  induction ballots using combine?.induct with
  | case1 => rw [combine?, combine]
  | case2 first rest hsame => rw [combine?, combine, if_pos hsame, if_pos hsame]
  | case3 first rest hsame hnumbers hzero =>
      have htotal := weightOf_pos (List.cons_ne_nil first rest) hpos
      rw [totalWeight, ExactScalar.same_iff, ExactScalar.sum_eq, ExactScalar.zero_eq] at hzero
      exact absurd hzero htotal.ne'
  | case4 first rest hsame hnumbers hzero =>
      rw [combine?, combine, if_neg hsame, if_neg hsame, if_pos hnumbers, if_pos hnumbers,
        if_neg hzero]
  | case5 first rest hsame hnumbers hobjects ih =>
      have hfield : ∀ key, (combine? (supplied key (first :: rest))).map (fun v => (key, v)) =
          some (key, combine (supplied key (first :: rest))) := by
        intro key
        rw [ih key (supplied_pos hpos), Option.map_some]
      rw [combine?, combine, if_neg hsame, if_neg hsame, if_neg hnumbers, if_neg hnumbers,
        dif_pos hobjects, dif_pos hobjects]
      simp only [hfield]
      exact congrArg (Option.map JsonOf.obj) (List.mapM_pure)
  | case6 first rest hsame hnumbers hobjects =>
      rw [combine?, combine, if_neg hsame, if_neg hsame, if_neg hnumbers, if_neg hnumbers,
        dif_neg hobjects, dif_neg hobjects]

/-! ### The provenance of combined answers -/

/-- **Where a combined answer comes from.**  Nothing is divided by zero on the way to it; what it
holds at a path goes back to the answers, in particular every null; what some answer holds at a path
below objects is there; and objects have the keys of all of them. -/
theorem combine_provenance (hne : ballots ≠ []) (hpos : ∀ b ∈ ballots, 0 < b.weight) :
    combine? ballots = some (combine ballots) ∧
    (∀ p v, (combine ballots).valueAt p = some v → Attested ballots p v) ∧
    (∀ p, (combine ballots).valueAt p = some .null → Offered ballots p .null) ∧
    (∀ p, (∀ b ∈ ballots, b.answer.ObjectsAlong p) → (∃ w, Offered ballots p w) →
      ((combine ballots).valueAt p).isSome) ∧
    ((∀ b ∈ ballots, b.answer.isObject = true) → (combine ballots).isObject = true ∧
      ∀ k, k ∈ (combine ballots).keys ↔ ∃ b ∈ ballots, k ∈ b.answer.keys) := by
  refine ⟨combine?_eq hpos, fun p v => attested_combine hne hpos, fun p hnull => ?_,
    fun p hobjects hoffered => ?_, fun hobjects => ?_⟩
  · exact (attested_combine hne hpos hnull).verbatim rfl rfl
  · obtain ⟨w, hw⟩ := hoffered
    exact isSome_valueAt_combine hobjects hw
  · exact ⟨isObject_combine hne hobjects, fun k => mem_keys_combine hne hpos hobjects⟩

namespace Sample

/-- Two plans with a number and an object in both, and a null in one of them. -/
noncomputable def plans : List (Ballot ℝ) :=
  [⟨"a", .obj [("cost", .int 20), ("model", .obj [("kind", .str "lp")])],
      (3 / 4 : ℚ)⟩,
    ⟨"b", .obj [("cost", .int 24), ("model", .obj [("size", .int 3)]), ("note", .null)],
      (1 / 4 : ℚ)⟩]

end Sample

/-- Two plans are combined: both of their models are there, and the cost lies between theirs. -/
theorem combine_provenance_met : letI := Scalar.reals fun _ => []
    Sample.plans ≠ [] ∧ (∀ b ∈ Sample.plans, 0 < b.weight) ∧
      (∀ b ∈ Sample.plans, b.answer.ObjectsAlong ["model", "kind"]) ∧
      combine? Sample.plans = some (combine Sample.plans) ∧
      ((combine Sample.plans).valueAt ["model", "kind"]).isSome ∧
      (∀ v, (combine Sample.plans).valueAt ["cost"] = some v → Attested Sample.plans ["cost"] v) ∧
      "note" ∈ (combine Sample.plans).keys := by
  let := Scalar.reals fun _ => []
  have := ExactScalar.reals fun _ => []
  have hne : Sample.plans ≠ [] := List.cons_ne_nil _ _
  have hpos : ∀ b ∈ Sample.plans, 0 < b.weight := by
    intro b hb
    rcases List.mem_pair.1 hb with rfl | rfl <;> norm_num
  have hobjects : ∀ b ∈ Sample.plans, b.answer.isObject = true := by
    intro b hb
    rcases List.mem_pair.1 hb with rfl | rfl <;> rfl
  have hway : ∀ b ∈ Sample.plans, b.answer.ObjectsAlong ["model", "kind"] := by
    intro b hb
    refine JsonOf.objectsAlong_cons.2 ⟨hobjects b hb, fun w hw => ?_⟩
    refine JsonOf.objectsAlong_cons.2 ⟨?_, fun _ _ => JsonOf.objectsAlong_nil⟩
    rcases List.mem_pair.1 hb with rfl | rfl
    · obtain rfl := Option.some.inj hw
      rfl
    · obtain rfl := Option.some.inj hw
      rfl
  obtain ⟨hdefined, hattested, -, hreach, hkeys⟩ := combine_provenance hne hpos
  have hnote : "note" ∈ (combine Sample.plans).keys :=
    ((hkeys hobjects).2 "note").2
      ⟨_, List.mem_cons_of_mem _ List.mem_cons_self, List.mem_map.2 ⟨("note", .null), by simp, rfl⟩⟩
  exact ⟨hne, hpos, hway, hdefined, hreach _ hway ⟨.str "lp", _, List.mem_cons_self, rfl⟩,
    fun v => hattested ["cost"] v, hnote⟩

end AgentSwarm

/-
**Combining answers by weight.**

Equal answers combine to that answer, numbers to their weighted mean, and objects field by field,
each field over the agents that supply it.  All other answers are put to a vote by weight.  The
weights need not sum to one.

Main definitions:

* `AgentSwarm.JsonOf.height` — how deep a value is nested;
* `AgentSwarm.supplied` — the ballots for one field;
* `AgentSwarm.combine` — the combined answer.

Main results:

* `AgentSwarm.heightOf_supplied_lt` — the answers for a field are less deep than the objects;
* `AgentSwarm.combine_of_same` — ballots with one answer are combined to it.
-/

import AgentSwarm.Consensus.Tally

set_option relaxedAutoImplicit false
set_option autoImplicit false

namespace AgentSwarm

variable {R : Type}

/-! ### Nesting -/

namespace JsonOf

mutual

/-- How deep a value is nested. -/
def height : JsonOf R → Nat
  | .arr items => itemsHeight items + 1
  | .obj members => membersHeight members + 1
  | _ => 0

/-- The greatest height of some values. -/
def itemsHeight : List (JsonOf R) → Nat
  | [] => 0
  | v :: rest => max (height v) (itemsHeight rest)

/-- The greatest height of the values of some members. -/
def membersHeight : List (String × JsonOf R) → Nat
  | [] => 0
  | (_, v) :: rest => max (height v) (membersHeight rest)

end

theorem height_le_of_lookup {key : String} {members : List (String × JsonOf R)} {v : JsonOf R}
    (h : members.lookup key = some v) : v.height ≤ membersHeight members := by
  induction members with
  | nil => simp at h
  | cons m rest ih =>
    obtain ⟨k, w⟩ := m
    simp only [List.lookup_cons] at h
    split at h
    · simp only [Option.some.injEq] at h
      simp only [membersHeight, h]
      omega
    · have := ih h
      simp only [membersHeight]
      omega

theorem height_lt_of_get? {key : String} {o v : JsonOf R} (h : o.get? key = some v) :
    v.height < o.height := by
  cases o with
  | obj members =>
    have := height_le_of_lookup (show members.lookup key = some v from h)
    simp only [height]
    omega
  | _ => simp [get?] at h

/-- Whether a value is a number. -/
def isNumber : JsonOf R → Bool
  | .int _ | .real _ => true
  | _ => false

/-- Whether a value is an object. -/
def isObject : JsonOf R → Bool
  | .obj _ => true
  | _ => false

/-- The keys of an object. -/
def keys : JsonOf R → List String
  | .obj members => members.map Prod.fst
  | _ => []

/-- A computed number; what cannot be written down becomes `null`. -/
def ofNumber [Scalar R] (x : R) : JsonOf R := if Scalar.isFinite x then .real x else .null

end JsonOf

/-! ### Fields -/

/-- The greatest height of the answers of some ballots. -/
def heightOf : List (Ballot R) → Nat
  | [] => 0
  | b :: rest => max b.answer.height (heightOf rest)

/-- The ballots for the field `key`, from the agents that supply it. -/
def supplied (key : String) (ballots : List (Ballot R)) : List (Ballot R) :=
  ballots.filterMap fun b => (b.answer.get? key).map fun v => { b with answer := v }

theorem heightOf_supplied_le (key : String) (ballots : List (Ballot R)) :
    heightOf (supplied key ballots) ≤ heightOf ballots - 1 := by
  induction ballots with
  | nil => simp [supplied, heightOf]
  | cons b rest ih =>
    simp only [supplied, List.filterMap_cons]
    cases h : b.answer.get? key with
    | none =>
      simp only [Option.map_none, heightOf]
      simp only [supplied] at ih
      omega
    | some v =>
      have := JsonOf.height_lt_of_get? h
      simp only [Option.map_some, heightOf]
      simp only [supplied] at ih
      omega

theorem heightOf_supplied_lt {key : String} {ballots : List (Ballot R)}
    (h : 0 < heightOf ballots) : heightOf (supplied key ballots) < heightOf ballots := by
  have := heightOf_supplied_le key ballots
  omega

theorem heightOf_pos {b : Ballot R} {rest : List (Ballot R)}
    (h : (b :: rest).all (fun b => b.answer.isObject) = true) : 0 < heightOf (b :: rest) := by
  simp only [List.all_cons, Bool.and_eq_true] at h
  obtain ⟨hb, _⟩ := h
  cases ha : b.answer with
  | obj members =>
    simp only [heightOf, ha, JsonOf.height]
    omega
  | _ => simp [JsonOf.isObject, ha] at hb

/-- The keys of the objects among the answers, ascending. -/
def fieldsOf (ballots : List (Ballot R)) : List String :=
  Text.sortedSet (ballots.flatMap fun b => b.answer.keys)

/-! ### Combining -/

/-- The sum of the weights. -/
def totalWeight [Scalar R] (ballots : List (Ballot R)) : R :=
  Scalar.sum (ballots.map (·.weight))

/-- The weighted mean of the answers that are numbers. -/
def weightedMean [Scalar R] (ballots : List (Ballot R)) : R :=
  let products := ballots.map fun b =>
    Scalar.mul ((b.answer.number?).getD Scalar.zero) b.weight
  Scalar.div (Scalar.sum products) (totalWeight ballots)

/-- The combined answer of some ballots. -/
def combine [Scalar R] (ballots : List (Ballot R)) : JsonOf R :=
  match ballots with
  | [] => .null
  | first :: rest =>
    if (first :: rest).all fun b => b.answer.same first.answer then first.answer
    else if (first :: rest).all fun b => b.answer.isNumber then
      .ofNumber (weightedMean (first :: rest))
    else if _h : (first :: rest).all (fun b => b.answer.isObject) = true then
      .obj ((fieldsOf (first :: rest)).map fun key =>
        (key, combine (supplied key (first :: rest))))
    else plurality (first :: rest)
termination_by heightOf ballots
decreasing_by exact heightOf_supplied_lt (heightOf_pos _h)

/-- Ballots with one answer are combined to it, if it is equal to itself. -/
theorem combine_of_same [Scalar R] {ballots : List (Ballot R)} {v : JsonOf R} (hsame : v.same v = true)
    (hne : ballots ≠ []) (h : ∀ b ∈ ballots, b.answer = v) : combine ballots = v := by
  cases ballots with
  | nil => exact absurd rfl hne
  | cons first rest =>
    have hfirst : first.answer = v := h first List.mem_cons_self
    have hall : (first :: rest).all (fun b => b.answer.same first.answer) = true := by
      rw [List.all_eq_true]
      intro b hb
      rw [h b hb, hfirst, hsame]
    rw [combine, if_pos hall, hfirst]

end AgentSwarm

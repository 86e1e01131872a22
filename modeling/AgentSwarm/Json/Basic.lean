/-
**JSON values.**

A JSON value whose non-integer numbers come from a type `R`.  Running programs use doubles; exact
statements use exact numbers.  Integers are kept apart from other numbers: `1` and `1.0` are
different values.  The members of an object are a list of pairs; in a settled value they are in
ascending order of their keys, each key once, so that settled objects with the same members are
the same list.

Main definitions:

* `AgentSwarm.JsonOf`, `AgentSwarm.Json` — values, and values over doubles;
* `AgentSwarm.JsonOf.same` — equality of values, with the two zeros of floating point equal;
* `AgentSwarm.insertMember` — an ordered list of members with one more;
* `AgentSwarm.JsonOf.settle` — the value with its objects in order, the last of equal keys kept.

Main results:

* `AgentSwarm.lookup_insertMember` — looking up a key after an insertion.
-/

import AgentSwarm.Scalar

set_option relaxedAutoImplicit false
set_option autoImplicit false

namespace AgentSwarm

/-! ### Values -/

/-- A JSON value whose non-integer numbers are in `R`. -/
inductive JsonOf (R : Type) where
  | null
  | bool (b : Bool)
  | int (n : Int)
  | real (x : R)
  | str (s : String)
  | arr (items : List (JsonOf R))
  | obj (members : List (String × JsonOf R))
deriving Inhabited

/-- JSON values over doubles. -/
abbrev Json := JsonOf Float

/-! ### Members in order -/

/-- An ordered list of members with `k` set to `v`. -/
def insertMember {A : Type} (k : String) (v : A) : List (String × A) → List (String × A)
  | [] => [(k, v)]
  | (k', v') :: rest =>
    if k < k' then (k, v) :: (k', v') :: rest
    else if k = k' then (k, v) :: rest
    else (k', v') :: insertMember k v rest

/-- The members in ascending order of their keys, the last of equal keys kept. -/
def sortMembers {A : Type} (members : List (String × A)) : List (String × A) :=
  members.foldl (fun sorted (k, v) => insertMember k v sorted) []

theorem lookup_insertMember {A : Type} (k key : String) (v : A) (members : List (String × A)) :
    (insertMember k v members).lookup key =
      if key = k then some v else members.lookup key := by
  induction members with
  | nil =>
    by_cases h : key = k
    · simp [insertMember, h]
    · have hb : (key == k) = false := by simpa using h
      simp [insertMember, List.lookup_cons, h, hb]
  | cons m rest ih =>
    obtain ⟨k', v'⟩ := m
    by_cases hkk : key = k
    · subst hkk
      by_cases h1 : key < k'
      · simp [insertMember, h1]
      · by_cases h2 : key = k'
        · simp [insertMember, h2]
        · have hb : (key == k') = false := by simpa using h2
          simp [insertMember, h1, h2, List.lookup_cons, hb, ih]
    · have hb : (key == k) = false := by simpa using hkk
      by_cases h1 : k < k'
      · simp [insertMember, h1, List.lookup_cons, hb, hkk]
      · by_cases h2 : k = k'
        · subst h2
          simp [insertMember, List.lookup_cons, hb, hkk]
        · simp only [insertMember, h1, h2, if_false, List.lookup_cons, hkk]
          rw [ih]
          simp [hkk]

namespace JsonOf

variable {R : Type}

/-! ### Looking into a value -/

/-- Whether the value is `null`. -/
def isNull : JsonOf R → Bool
  | .null => true
  | _ => false

/-- The member of an object at a key. -/
def get? (key : String) : JsonOf R → Option (JsonOf R)
  | .obj members => members.lookup key
  | _ => none

/-- The text of a string value. -/
def text? : JsonOf R → Option String
  | .str s => some s
  | _ => none

/-- The elements of an array value. -/
def items? : JsonOf R → Option (List (JsonOf R))
  | .arr items => some items
  | _ => none

/-- The number of a number value. -/
def number? [Scalar R] : JsonOf R → Option R
  | .int n => some (Scalar.ofInt n)
  | .real x => some x
  | _ => none

/-! ### Equality -/

mutual

/-- Whether two settled values are equal: kinds of numbers must agree, and the two zeros of
floating point are the same number. -/
def same [Scalar R] : JsonOf R → JsonOf R → Bool
  | .null, .null => true
  | .bool a, .bool b => a == b
  | .int a, .int b => a == b
  | .real a, .real b => Scalar.same a b
  | .str a, .str b => a == b
  | .arr a, .arr b => sameItems a b
  | .obj a, .obj b => sameMembers a b
  | _, _ => false

/-- Whether two lists of values are equal. -/
def sameItems [Scalar R] : List (JsonOf R) → List (JsonOf R) → Bool
  | [], [] => true
  | a :: as, b :: bs => same a b && sameItems as bs
  | _, _ => false

/-- Whether two lists of members are equal. -/
def sameMembers [Scalar R] : List (String × JsonOf R) → List (String × JsonOf R) → Bool
  | [], [] => true
  | (k, a) :: as, (k', b) :: bs => k == k' && same a b && sameMembers as bs
  | _, _ => false

end

/-! ### Settled values -/

mutual

/-- The value with the members of every object in ascending order of their keys, the last of equal
keys kept. -/
def settle : JsonOf R → JsonOf R
  | .arr items => .arr (settleItems items)
  | .obj members => .obj (sortMembers (settleMembers members))
  | v => v

/-- The values settled. -/
def settleItems : List (JsonOf R) → List (JsonOf R)
  | [] => []
  | v :: rest => settle v :: settleItems rest

/-- The values of the members settled. -/
def settleMembers : List (String × JsonOf R) → List (String × JsonOf R)
  | [] => []
  | (k, v) :: rest => (k, settle v) :: settleMembers rest

end

/-- An object with the given members, put in order. -/
def ofMembers (members : List (String × JsonOf R)) : JsonOf R := .obj (sortMembers members)

/-- The object with a key set to a value; other values become an object with this one member. -/
def set (target : JsonOf R) (key : String) (v : JsonOf R) : JsonOf R :=
  match target with
  | .obj members => .obj (insertMember key v members)
  | _ => .obj [(key, v)]

end JsonOf

end AgentSwarm

/-
**Batches.**

The agents of a task are split into batches.  Without routing a batch takes as many agents as the
strategy lets through, in order.  With routing every batch takes as many from each partition, the
partitions in the order of their first appearance.

Main definitions:

* `AgentSwarm.chunks` — a list cut into pieces of one size;
* `AgentSwarm.groupsOf` — the indices of each partition;
* `AgentSwarm.Strategy.plan` — the batches, as lists of indices.

Main results:

* `AgentSwarm.flatten_chunks`, `AgentSwarm.length_le_of_mem_chunks` — cutting loses nothing and
  keeps to the size.
-/

import AgentSwarm.Strategy.Basic

set_option relaxedAutoImplicit false
set_option autoImplicit false

namespace AgentSwarm

/-! ### Pieces of one size -/

/-- A list cut into pieces of `size` elements, of which the last may be shorter; a size of zero
counts as one. -/
def chunks {A : Type} (size : Nat) : List A → List (List A)
  | [] => []
  | x :: rest => (x :: rest.take (size - 1)) :: chunks size (rest.drop (size - 1))
termination_by xs => xs.length
decreasing_by
  rw [List.length_drop, List.length_cons]
  omega

@[simp] theorem chunks_nil {A : Type} (size : Nat) : chunks size ([] : List A) = [] := by
  simp [chunks]

theorem chunks_cons {A : Type} (size : Nat) (x : A) (rest : List A) :
    chunks size (x :: rest) =
      (x :: rest.take (size - 1)) :: chunks size (rest.drop (size - 1)) := by
  rw [chunks]

theorem flatten_chunks {A : Type} (size : Nat) (xs : List A) :
    (chunks size xs).flatten = xs := by
  fun_induction chunks size xs with
  | case1 => rfl
  | case2 x rest ih => simp [ih]

theorem length_le_of_mem_chunks {A : Type} {size : Nat} {xs piece : List A}
    (h : piece ∈ chunks size xs) : piece.length ≤ max size 1 := by
  fun_induction chunks size xs with
  | case1 => simp at h
  | case2 x rest ih =>
    rcases List.mem_cons.1 h with rfl | h
    · rw [List.length_cons, List.length_take]
      omega
    · exact ih h

/-! ### Groups -/

/-- The groups with `index` added to the group of `partition`, which is opened if there is none. -/
def addToGroup (partition : String) (index : Nat) :
    List (String × List Nat) → List (String × List Nat)
  | [] => [(partition, [index])]
  | (p, members) :: rest =>
    if p = partition then (p, members ++ [index]) :: rest
    else (p, members) :: addToGroup partition index rest

/-- The indices of each partition, the partitions in the order of their first appearance. -/
def groupsOf (partitions : List String) : List (String × List Nat) :=
  partitions.zipIdx.foldl (fun groups (p, i) => addToGroup p i groups) []

/-! ### Plans -/

/-- The number of batches that `members` agents of one partition need. -/
def roundsOf (size members : Nat) : Nat := (members + size - 1) / size

namespace Strategy

/-- The batches of agents whose partitions are given, as lists of indices. -/
def plan (s : Strategy) (partitions : List String) : List (List Nat) :=
  let size := max s.maxRequests 1
  if s.routed then
    let groups := groupsOf partitions
    let rounds := groups.foldl (fun most (_, members) => max most (roundsOf size members.length)) 0
    (List.range rounds).map fun round =>
      groups.flatMap fun (_, members) => ((chunks size members)[round]?).getD []
  else chunks size (List.range partitions.length)

end Strategy

end AgentSwarm

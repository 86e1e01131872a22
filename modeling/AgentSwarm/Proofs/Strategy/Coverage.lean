/-
**Plans cover every agent once.**

A plan of batches is a list of lists of indices.  Put one after another the batches hold every index
exactly once, with and without routing, whatever the partitions and the bound of the strategy.
Without routing this is `AgentSwarm.flatten_chunks`.  With routing the batches take turns through
the pieces of all groups: the turns are exchanged for the groups, the pieces of a group are put
together again, and the groups hold every index once.

Main definitions:

* `AgentSwarm.turns` — the pieces of a list in order, with nothing where there is no piece.

Main results:

* `AgentSwarm.perm_flatMap_groupsOf` — the groups hold every index once;
* `AgentSwarm.length_chunks_le_rounds` — the rounds of a plan suffice for every group;
* `AgentSwarm.Strategy.perm_flatten_plan` — **the batches of a plan hold every index once**.
-/

import AgentSwarm.Strategy.Plan
import Mathlib.Data.List.Perm.Basic
import Mathlib.Data.List.Basic

set_option relaxedAutoImplicit false
set_option autoImplicit false

namespace AgentSwarm

/-! ### Taking turns -/

/-- The first `n` pieces of a list, with nothing where there is no piece. -/
def turns {A : Type} (n : Nat) (pieces : List (List A)) : List (List A) :=
  (List.range n).map fun turn => (pieces[turn]?).getD []

/-- A piece and the pieces after it are taken in one turn more. -/
theorem turns_succ_cons {A : Type} (n : Nat) (piece : List A) (rest : List (List A)) :
    turns (n + 1) (piece :: rest) = piece :: turns n rest := by
  simp [turns, List.range_succ_eq_map]

/-- Without pieces the turns give nothing. -/
theorem flatten_turns_nil {A : Type} (n : Nat) : (turns n ([] : List (List A))).flatten = [] := by
  simp [turns]

/-- Enough turns give all pieces. -/
theorem flatten_turns {A : Type} {n : Nat} {pieces : List (List A)} (h : pieces.length ≤ n) :
    (turns n pieces).flatten = pieces.flatten := by
  induction pieces generalizing n with
  | nil => exact flatten_turns_nil n
  | cons piece rest ih =>
      obtain ⟨m, rfl⟩ : ∃ m, n = m + 1 := ⟨n - 1, by simp at h; omega⟩
      rw [turns_succ_cons, List.flatten_cons, List.flatten_cons, ih (by simpa using h)]

/-- Two lists may be gone through in either order. -/
theorem perm_flatMap_swap {A B C : Type} (as : List A) (bs : List B) (f : A → B → List C) :
    (as.flatMap fun a => bs.flatMap fun b => f a b).Perm
      (bs.flatMap fun b => as.flatMap fun a => f a b) := by
  induction bs with
  | nil => simp
  | cons b bs ih =>
      simp only [List.flatMap_cons]
      exact (List.flatMap_append_perm as (fun a => f a b) _).symm.trans (ih.append_left _)

/-! ### Groups -/

/-- Adding an index to a group adds it to all groups together. -/
theorem perm_flatMap_addToGroup (partition : String) (index : Nat)
    (groups : List (String × List Nat)) :
    ((addToGroup partition index groups).flatMap Prod.snd).Perm
      (index :: groups.flatMap Prod.snd) := by
  induction groups with
  | nil => simp [addToGroup]
  | cons group rest ih =>
      obtain ⟨p, members⟩ := group
      by_cases hp : p = partition
      · simp only [addToGroup, hp, if_true, List.flatMap_cons, List.append_assoc]
        exact List.perm_middle
      · simp only [addToGroup, hp, if_false, List.flatMap_cons]
        exact (ih.append_left members).trans List.perm_middle

/-- **The groups hold every index once.** -/
theorem perm_flatMap_groupsOf (partitions : List String) :
    ((groupsOf partitions).flatMap Prod.snd).Perm (List.range partitions.length) := by
  -- the groups before the agents in question are kept general for the induction
  have key : ∀ (start : Nat) (ps : List String) (groups : List (String × List Nat)),
      (((ps.zipIdx start).foldl (fun gs q => addToGroup q.1 q.2 gs) groups).flatMap
        Prod.snd).Perm (groups.flatMap Prod.snd ++ List.range' start ps.length) := by
    intro start ps
    induction ps generalizing start with
    | nil => intro groups; simp
    | cons p ps ih =>
        intro groups
        rw [List.zipIdx_cons, List.foldl_cons, List.length_cons, List.range'_succ]
        refine (ih (start + 1) _).trans ?_
        refine ((perm_flatMap_addToGroup p start groups).append_right _).trans ?_
        exact List.perm_middle.symm
  have h := key 0 partitions []
  rwa [List.flatMap_nil, List.nil_append, ← List.range_eq_range'] at h

/-! ### Rounds -/

/-- The number of pieces of a list. -/
theorem length_chunks {A : Type} {size : Nat} (hsize : 0 < size) (xs : List A) :
    (chunks size xs).length = roundsOf size xs.length := by
  fun_induction chunks size xs with
  | case1 =>
      rw [roundsOf, List.length_nil, List.length_nil, Nat.div_eq_of_lt (by omega)]
  | case2 x rest ih =>
      rw [List.length_cons, ih, roundsOf, roundsOf, List.length_drop, List.length_cons]
      rcases Nat.lt_or_ge rest.length size with hlt | hge
      · have h1 : rest.length - (size - 1) + size - 1 < size := by omega
        have h2 : rest.length + 1 + size - 1 = rest.length + size := by omega
        rw [Nat.div_eq_of_lt h1, h2, Nat.add_div_right _ hsize, Nat.div_eq_of_lt hlt]
      · have h2 : rest.length + 1 + size - 1 = (rest.length - (size - 1) + size - 1) + size := by
          omega
        rw [h2, Nat.add_div_right _ hsize]

/-- A running maximum is at least where it starts and at least every value on the way. -/
theorem le_foldl_max {A : Type} (f : A → Nat) (xs : List A) (start : Nat) :
    start ≤ xs.foldl (fun most x => max most (f x)) start ∧
      ∀ x ∈ xs, f x ≤ xs.foldl (fun most x => max most (f x)) start := by
  induction xs generalizing start with
  | nil => simp
  | cons y ys ih =>
      obtain ⟨hstart, hall⟩ := ih (max start (f y))
      rw [List.foldl_cons]
      refine ⟨by omega, ?_⟩
      intro x hx
      rcases List.mem_cons.1 hx with rfl | hx
      · omega
      · exact hall x hx

/-- The number of rounds in which every group has its turns. -/
def roundsFor (size : Nat) (groups : List (String × List Nat)) : Nat :=
  groups.foldl (fun most (_, members) => max most (roundsOf size members.length)) 0

/-- **The rounds of a plan suffice for every group.** -/
theorem length_chunks_le_rounds {size : Nat} (hsize : 0 < size)
    {groups : List (String × List Nat)} {group : String × List Nat} (h : group ∈ groups) :
    (chunks size group.2).length ≤ roundsFor size groups := by
  rw [length_chunks hsize]
  exact (le_foldl_max (fun g : String × List Nat => roundsOf size g.2.length) groups 0).2 group h

/-! ### Plans -/

namespace Strategy

/-- A routed plan, written with the turns of every group. -/
theorem flatten_plan_of_routed {s : Strategy} (h : s.routed = true) (partitions : List String) :
    (s.plan partitions).flatten =
      (List.range (roundsFor (max s.maxRequests 1) (groupsOf partitions))).flatMap fun round =>
        (groupsOf partitions).flatMap fun group =>
          ((chunks (max s.maxRequests 1) group.2)[round]?).getD [] := by
  simp only [plan, h, if_true, List.flatMap_def]
  rfl

/-- **The batches of a plan hold every index once.** -/
theorem perm_flatten_plan (s : Strategy) (partitions : List String) :
    (s.plan partitions).flatten.Perm (List.range partitions.length) := by
  cases hr : s.routed with
  | false =>
      have h : (s.plan partitions).flatten = List.range partitions.length := by
        simp only [plan, hr, Bool.false_eq_true, if_false, flatten_chunks]
      rw [h]
  | true =>
      have hsize : 0 < max s.maxRequests 1 := by omega
      rw [flatten_plan_of_routed hr]
      refine (perm_flatMap_swap _ _ _).trans ?_
      refine (List.Perm.flatMap_left _ ?_).trans (perm_flatMap_groupsOf partitions)
      intro group hg
      have h := flatten_turns (length_chunks_le_rounds hsize hg)
      rw [flatten_chunks, turns, ← List.flatMap_def] at h
      exact List.Perm.of_eq h

end Strategy

end AgentSwarm

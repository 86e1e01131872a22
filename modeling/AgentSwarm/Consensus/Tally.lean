/-
**Tallies.**

A ballot is the answer of an agent with a weight.  Ballots are put into blocs by a key; the mass of
a bloc is the sum of its weights.  A bloc beats another one by a greater mass; masses that differ by
no more than the tolerance tie, and then the bloc wins whose agents, in ascending order, come first.

Main definitions:

* `AgentSwarm.Ballot`, `AgentSwarm.Bloc` — a weighted answer, and the ballots under one key;
* `AgentSwarm.tally` — the blocs of some ballots, ascending by key;
* `AgentSwarm.Bloc.beats`, `AgentSwarm.leader` — the comparison of blocs, and the bloc it selects.

Main results:

* `AgentSwarm.leader_mem` — the selected bloc is one of them.
-/

import AgentSwarm.Json.Writer
import AgentSwarm.Text.Order

set_option relaxedAutoImplicit false
set_option autoImplicit false

namespace AgentSwarm

variable {R : Type}

/-! ### Ballots and blocs -/

/-- The answer of an agent with a weight. -/
structure Ballot (R : Type) where
  agentId : String
  answer : JsonOf R
  weight : R
deriving Inhabited

/-- Ballots under one key. -/
structure Bloc (R : Type) where
  /-- The answer of the first ballot. -/
  answer : JsonOf R
  mass : R
  agentIds : List String
  weights : List R
deriving Inhabited

/-- A bloc without ballots. -/
def Bloc.opened [Scalar R] (answer : JsonOf R) : Bloc R := ⟨answer, Scalar.zero, [], []⟩

/-- A bloc with one more ballot. -/
def Bloc.add [Scalar R] (bloc : Bloc R) (b : Ballot R) : Bloc R :=
  { bloc with
    mass := Scalar.add bloc.mass b.weight
    agentIds := bloc.agentIds ++ [b.agentId]
    weights := bloc.weights ++ [b.weight] }

/-- The blocs with one more ballot under a key. -/
def castBallot [Scalar R] (key : String) (b : Ballot R) (blocs : List (String × Bloc R)) :
    List (String × Bloc R) :=
  insertMember key (((blocs.lookup key).getD (.opened b.answer)).add b) blocs

/-- The blocs of ballots whose keys are given by their answers, ascending by key. -/
def tally [Scalar R] (key : JsonOf R → String) (ballots : List (Ballot R)) :
    List (String × Bloc R) :=
  ballots.foldl (fun blocs b => castBallot (key b.answer) b blocs) []

/-! ### The leading bloc -/

/-- Whether two masses tie. -/
def tied [Scalar R] (x y : R) : Bool := Scalar.lessEq (Scalar.distance x y) Scalar.tolerance

/-- Whether a bloc wins against another. -/
def Bloc.beats [Scalar R] (candidate best : Bloc R) : Bool :=
  if tied candidate.mass best.mass then
    Text.ordered candidate.agentIds < Text.ordered best.agentIds
  else Scalar.less best.mass candidate.mass

/-- The bloc that is left when every bloc in turn replaces the one it beats. -/
def leader [Scalar R] : List (Bloc R) → Option (Bloc R)
  | [] => none
  | first :: rest =>
    some (rest.foldl (fun best candidate => if candidate.beats best then candidate else best) first)

theorem foldl_beats_mem [Scalar R] (first : Bloc R) (rest : List (Bloc R)) :
    rest.foldl (fun best candidate => if candidate.beats best then candidate else best) first ∈
      first :: rest := by
  induction rest generalizing first with
  | nil => simp
  | cons b rest ih =>
    simp only [List.foldl_cons]
    by_cases h : b.beats first = true
    · simpa [h] using List.mem_cons_of_mem first (ih b)
    · have hf := ih first
      simp only [h, Bool.false_eq_true, if_false]
      rcases List.mem_cons.1 hf with heq | hmem
      · exact List.mem_cons.2 (Or.inl heq)
      · exact List.mem_cons_of_mem _ (List.mem_cons_of_mem _ hmem)

theorem leader_mem [Scalar R] {blocs : List (Bloc R)} {b : Bloc R} (h : leader blocs = some b) :
    b ∈ blocs := by
  cases blocs with
  | nil => simp [leader] at h
  | cons first rest =>
    simp only [leader, Option.some.injEq] at h
    exact h ▸ foldl_beats_mem first rest

/-- The answer that leads under the compact text of answers. -/
def plurality [Scalar R] (ballots : List (Ballot R)) : JsonOf R :=
  match leader ((tally Json.compact ballots).map Prod.snd) with
  | some bloc => bloc.answer
  | none => .null

end AgentSwarm

/-
**The course of a request.**

What is done for a request depends only on the answers that come back: a provider is asked, and its
answer decides whether there is an end, a pause or another question.

Main definitions:

* `AgentSwarm.Course` — asking, waiting and ending;
* `AgentSwarm.Move`, `AgentSwarm.Course.run` — what is done when providers answer from a state;
* `AgentSwarm.Course.tries` — asking one provider again and again.
-/

import AgentSwarm.Provider.Basic

set_option relaxedAutoImplicit false
set_option autoImplicit false

namespace AgentSwarm

/-- What comes back from a provider. -/
inductive ProviderAnswer where
  | ok (completion : Completion)
  | error (e : ProviderError)
  | panic (p : Panic)
deriving DecidableEq, Repr, Inhabited

/-- What is done for a request; `P` is how providers are reached. -/
inductive Course (P : Type) where
  | done (answer : ProviderAnswer)
  /-- A provider is asked, and its answer decides how to go on. -/
  | ask (provider : P) (next : ProviderAnswer → Course P)
  | wait (time : Duration) (next : Course P)

/-- A thing done for a request. -/
inductive Move (P : Type) where
  | asked (provider : P)
  | waited (time : Duration)
deriving Inhabited

/-- A course that has come to its end. -/
structure Ran (P S : Type) where
  answer : ProviderAnswer
  /-- What was done, in order. -/
  moves : List (Move P)
  state : S

/-- Whether an answer is worth another try. -/
def mayRetry : ProviderAnswer → Bool
  | .ok _ | .panic _ => false
  | .error e => e.isRetryable

namespace Course

variable {P S : Type}

/-- The course when providers answer from a state. -/
def run (answer : P → S → ProviderAnswer × S) : Course P → S → Ran P S
  | .done a, s => ⟨a, [], s⟩
  | .ask p next, s =>
    let (a, s) := answer p s
    let r := run answer (next a) s
    { r with moves := .asked p :: r.moves }
  | .wait time next, s =>
    let r := run answer next s
    { r with moves := .waited time :: r.moves }

@[simp] theorem run_done (answer : P → S → ProviderAnswer × S) (a : ProviderAnswer) (s : S) :
    run answer (.done a) s = ⟨a, [], s⟩ := rfl

/-- A provider is asked, and again up to `left` times while its answers are worth it.  The pause
after try `i` is `pause i`; `last` says how to go on when no try is left. -/
def tries (p : P) (pause : Nat → Duration) (last : ProviderAnswer → Course P) :
    Nat → Nat → Course P
  | 0, _ => .ask p fun a => if mayRetry a then last a else .done a
  | left + 1, i =>
    .ask p fun a =>
      if mayRetry a then .wait (pause i) (tries p pause last left (i + 1)) else .done a

end Course

/-- How long a list of moves waits, in milliseconds. -/
def Move.millis {P : Type} (moves : List (Move P)) : Nat :=
  moves.foldl (fun spent move => match move with
    | .asked _ => spent
    | .waited time => spent + time.ceilMillis) 0

end AgentSwarm

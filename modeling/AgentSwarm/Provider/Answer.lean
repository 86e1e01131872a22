/-
**Answers from completions.**

A completion must hold one JSON object.  Its number `confidence` is the confidence that the agent
reports; it stays in the object as well.

Main definitions:

* `AgentSwarm.objectOf` — the object of a completion;
* `AgentSwarm.Adviser` — a registry with options, which answers the prompts of agents;
* `AgentSwarm.Adviser.answerOf`, `AgentSwarm.Adviser.invoke` — its answer from a completion, and
  from the providers of its registry.

Main results:

* `AgentSwarm.Adviser.answerOf_error`, `AgentSwarm.Adviser.answerOf_panic` — errors and panics of a
  provider are those of the reply.
-/

import AgentSwarm.Executor.Basic
import AgentSwarm.Json.Reader
import AgentSwarm.Json.Writer
import AgentSwarm.Provider.Embedded
import AgentSwarm.Provider.Registry

set_option relaxedAutoImplicit false
set_option autoImplicit false

namespace AgentSwarm

/-- The object of a completion. -/
def objectOf (text : String) : Except InferenceError (Members Float) :=
  match embeddedObject text.toList with
  | none => .error (.malformed "Completion contains no JSON object")
  | some cs =>
    match Json.parse (String.ofList cs) with
    | .error fault => .error (.malformed ("Invalid JSON: " ++ fault.message cs))
    | .ok (.obj members) => .ok members
    | .ok _ => .error (.malformed "Completion JSON is not an object")

/-- A registry with options, which answers the prompts of agents. -/
structure Adviser (P : Type) where
  registry : Registry P
  options : GenerationOptions
  /-- Whether the context of a task is put behind the prompt. -/
  appendsContext : Bool

namespace Adviser

variable {P S : Type}

/-- An adviser with the usual options, which leaves prompts alone. -/
def ofRegistry (registry : Registry P) : Adviser P := ⟨registry, .standard, false⟩

/-- The prompt that providers get. -/
def promptFor (a : Adviser P) (prompt : String) (context : Members Float) : String :=
  if a.appendsContext && !context.isEmpty then
    prompt ++ "\n\nAdditional context:\n" ++ Json.spread (.obj context)
  else prompt

/-- What some tokens of an alias cost; what is not known costs nothing. -/
def cost (a : Adviser P) (aliasName : String) (tokens : Nat) : Float :=
  match a.registry.costPer1k? aliasName with
  | some per1k => per1k * Float.ofNat tokens / 1000.0
  | none => 0.0

/-- The reply that the answer of a provider gives. -/
def answerOf (a : Adviser P) (aliasName : String) : ProviderAnswer → Reply
  | .error e => .error e.toInference
  | .panic p => .panic p.message
  | .ok completion =>
    match objectOf completion.text with
    | .error e => .error e
    | .ok result =>
      let tokens := completion.usage.totalTokens
      .answer { result
                confidence := (result.lookup "confidence").bind JsonOf.number?
                usage := some ⟨tokens, a.cost aliasName tokens⟩ }

@[simp] theorem answerOf_error (a : Adviser P) (aliasName : String) (e : ProviderError) :
    a.answerOf aliasName (.error e) = .error e.toInference := rfl

@[simp] theorem answerOf_panic (a : Adviser P) (aliasName : String) (p : Panic) :
    a.answerOf aliasName (.panic p) = .panic p.message := rfl

/-- The reply to a request with the time its pauses take, when providers answer prompts from a
state. -/
def invoke (a : Adviser P) (answer : P → String → GenerationOptions → S → ProviderAnswer × S)
    (s : S) (request : Request) : Response × S :=
  let prompt := a.promptFor request.prompt request.context
  let ran := (a.registry.course request.profile).run (fun p s => answer p prompt a.options s) s
  (⟨Move.millis ran.moves, a.answerOf request.profile ran.answer⟩, ran.state)

end Adviser

end AgentSwarm

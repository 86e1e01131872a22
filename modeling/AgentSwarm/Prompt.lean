/-
**Prompts.**

The prompt of an agent is a template filled in with the agent's specialization and role and with
the task.  A template that cannot be filled in is replaced by a plain sentence.

Main definitions:

* `AgentSwarm.defaultTemplate` — the template of a prompt for which none is given;
* `AgentSwarm.PromptStyle` — a template with standing instructions;
* `AgentSwarm.PromptStyle.prompt` — the prompt of an agent for a task.
-/

import AgentSwarm.Agent.Basic
import AgentSwarm.Task
import AgentSwarm.Template.Render

set_option relaxedAutoImplicit false
set_option autoImplicit false

namespace AgentSwarm

/-- The template of a prompt for which none is given. -/
def defaultTemplate : String :=
  "You are a \x7b\x7bspecialization\x7d\x7d acting as a \x7b\x7brole\x7d\x7d in a swarm of specialized agents.\n" ++
  "\x7b\x7b#if instructions\x7d\x7d\n\x7b\x7binstructions\x7d\x7d\n\x7b\x7b/if\x7d\x7d\n" ++
  "Task type: \x7b\x7btask_type\x7d\x7d\n\nInput:\n\x7b\x7bpayload\x7d\x7d\n" ++
  "\x7b\x7b#if context\x7d\x7d\nContext:\n\x7b\x7bcontext\x7d\x7d\n\x7b\x7b/if\x7d\x7d\n" ++
  "Respond with a single JSON object of the form\n" ++
  "\x7b\"value\": <your answer>, \"confidence\": <number between 0 and 1>, " ++
  "\"reasoning\": \"<short justification>\"\x7d\n"

/-- A template with standing instructions. -/
structure PromptStyle where
  template : String
  instructions : Option String
deriving DecidableEq, Repr, Inhabited

namespace PromptStyle

/-- The default template without instructions. -/
def standard : PromptStyle := ⟨defaultTemplate, none⟩

/-- What a template is filled in with, ascending by name. -/
def data (agent : Agent) (task : Task) (instructions : Option String) : Members Float :=
  (if task.context.isEmpty then [] else [("context", .str (Json.spread (.obj task.context)))]) ++
    (match instructions with | some s => [("instructions", .str s)] | none => []) ++
    [("partition", .str agent.partition), ("payload", .str (Json.spread task.payload)),
      ("role", .str agent.role.name), ("specialization", .str agent.specialization),
      ("task_type", .str task.taskType)]

/-- The sentence that stands in for a template that cannot be filled in. -/
def plainPrompt (agent : Agent) (task : Task) : String :=
  "You are a " ++ agent.specialization ++ " (" ++ agent.role.name ++ "). Task type: " ++
    task.taskType ++ "\nInput: " ++ Json.spread task.payload ++
    "\nRespond with JSON \x7b\"value\", \"confidence\", \"reasoning\"\x7d."

/-- The prompt of an agent for a task; instructions that are given win over the standing ones. -/
def promptWith (style : PromptStyle) (agent : Agent) (task : Task)
    (instructions : Option String) : String :=
  let chosen := instructions.or style.instructions
  (Template.render style.template (.obj (data agent task chosen))).getD (plainPrompt agent task)

/-- The prompt of an agent for a task. -/
def prompt (style : PromptStyle) (agent : Agent) (task : Task) : String :=
  style.promptWith agent task none

end PromptStyle

end AgentSwarm

/-
**The standard prompt.**

The default template has places for five fields and two sections, and nothing else in it is read as a
template.  Its nodes do not depend on what it is filled in with, so a field is put in its place as it
stands, whatever braces or backslashes it has.  What comes of it is a fixed text with the fields in
between; it shows who an agent is by its specialization and its role only, and shows all of a task's
payload.

Main definitions:

* `AgentSwarm.defaultNodes` — the nodes of the default template;
* `AgentSwarm.standardPrompt` — the default prompt in closed form.

Main results:

* `AgentSwarm.parse_defaultTemplate` — the default template is read;
* `AgentSwarm.renderNodes_default` — its nodes are filled in;
* `AgentSwarm.PromptStyle.promptWith_default` — the default template gives the closed form;
* `AgentSwarm.standardPrompt_injective` — different payloads are asked for in different prompts;
* `AgentSwarm.default_prompt` — **the default prompt, of styles and variants**.
-/

import AgentSwarm.Proofs.Json.Spread
import AgentSwarm.Variant

set_option relaxedAutoImplicit false
set_option autoImplicit false

namespace AgentSwarm

open Template

/-! ### The closed form -/

/-- How an answer is to be given. -/
def answerForm : String :=
  "Respond with a single JSON object of the form\n" ++
  "\x7b\"value\": <your answer>, \"confidence\": <number between 0 and 1>, " ++
  "\"reasoning\": \"<short justification>\"\x7d\n"

/-- The line of instructions, if there are any. -/
def instructionLine : Option String → String
  | none => ""
  | some s => if s = "" then "" else s ++ "\n"

/-- The section of a task's context, if it has one. -/
def contextSection (context : Members Float) : String :=
  if context.isEmpty then "" else "Context:\n" ++ Json.spread (.obj context) ++ "\n"

/-- The default prompt: a fixed text with the fields of an agent and a task. -/
def standardPrompt (agent : Agent) (task : Task) (instructions : Option String) : String :=
  "You are a " ++ agent.specialization ++ " acting as a " ++ agent.role.name ++
    " in a swarm of specialized agents.\n" ++ instructionLine instructions ++
    "Task type: " ++ task.taskType ++ "\n\nInput:\n" ++ Json.spread task.payload ++ "\n" ++
    contextSection task.context ++ answerForm

/-! ### The nodes of the default template -/

/-- A place for the value of a key. -/
def place (key : String) : Operand := .path ⟨false, false, 0, [key]⟩

/-- A section that is shown when a key has a value. -/
def sectionOf (key : String) (body : List Node) : Node := .branch ⟨"if", [place key], []⟩ body []

/-- The nodes of the default template. -/
def defaultNodes : List Node :=
  [.text "You are a ".toList, .value (place "specialization"), .text " acting as a ".toList,
    .value (place "role"), .text " in a swarm of specialized agents.\n".toList,
    sectionOf "instructions" [.text "".toList, .value (place "instructions"), .text "\n".toList],
    .text "Task type: ".toList, .value (place "task_type"), .text "\n\nInput:\n".toList,
    .value (place "payload"), .text "\n".toList,
    sectionOf "context" [.text "Context:\n".toList, .value (place "context"), .text "\n".toList],
    .text answerForm.toList]

set_option maxRecDepth 20000 in
/-- **The default template is read.** -/
theorem parse_defaultTemplate : parse defaultTemplate = some defaultNodes := by
  unfold parse defaultTemplate defaultNodes answerForm
  -- the letters of all texts, and then the reader is run
  repeat rewrite [String.toList_append]
  repeat rewrite [String.toList_ofList]
  exact rfl

/-! ### Filling in -/

variable {members : Members Float} {key : String}

theorem evaluate_place (members : Members Float) (key : String) :
    evaluate [⟨.obj members, []⟩] (place key) = some ((members.lookup key).getD .null) := by
  rw [place, evaluate, resolve]
  show some ((descend (.obj members) [key]).getD .null) = _
  rw [descend, List.foldlM_cons]
  simp [child]

/-- A text is shown as it stands. -/
theorem shown_str (s : String) : shown (.str s) = s.toList := rfl

/-- A place is filled in with the value of its key as it stands. -/
theorem showOperand_place (hkey : key ∉ helperNames) :
    showOperand [⟨.obj members, []⟩] (place key) =
      some (shown ((members.lookup key).getD .null)) := by
  have hhelper : helperNamed? (place key) = none := if_neg hkey
  rw [showOperand, hhelper]
  dsimp only
  rw [evaluate_place]
  rfl

/-- A section is shown when its key has a value that is not empty. -/
theorem renderNode_sectionOf (hkey : key ∉ helperNames) (before behind : List Char) :
    renderNode (sectionOf key [.text before, .value (place key), .text behind])
        [⟨.obj members, []⟩] =
      some (if isTruthy false ((members.lookup key).getD .null) then
        before ++ (shown ((members.lookup key).getD .null) ++ behind) else []) := by
  rw [sectionOf, renderNode, renderSection, evaluateAll, evaluate_place]
  simp only [evaluateAll, renderNodes, renderNode, showOperand_place hkey]
  by_cases htruthy : isTruthy false ((members.lookup key).getD .null) = true
  · simp [evaluate, htruthy]
  · simp [evaluate, htruthy]

/-! ### The fields -/

section

variable {agent : Agent} {task : Task} {instructions : Option String}

/-- What the places of the default template are filled in with. -/
theorem lookup_data :
    let fields := PromptStyle.data agent task instructions
    fields.lookup "specialization" = some (.str agent.specialization) ∧
    fields.lookup "role" = some (.str agent.role.name) ∧
    fields.lookup "instructions" = instructions.map .str ∧
    fields.lookup "task_type" = some (.str task.taskType) ∧
    fields.lookup "payload" = some (.str (Json.spread task.payload)) ∧
    fields.lookup "context" =
      if task.context.isEmpty then none else some (.str (Json.spread (.obj task.context))) := by
  unfold PromptStyle.data
  cases instructions <;> split <;> exact ⟨rfl, rfl, rfl, rfl, rfl, rfl⟩

/-- The text of a context is not empty. -/
theorem spread_obj_ne (context : Members Float) : Json.spread (.obj context) ≠ "" := by
  obtain ⟨c, cs, hcs⟩ : ∃ c cs, Json.spreadChars 0 (.obj context : Json) = c :: cs := by
    rw [Json.spreadChars]
    split <;> exact ⟨_, _, rfl⟩
  rw [Json.spread, hcs]
  intro h
  exact List.cons_ne_nil c cs (String.ofList_injective h)

/-- What a section comes to whose key has a text. -/
theorem ofList_section {s : String} (hs : s ≠ "") (before : String) :
    String.ofList (if isTruthy false ((some (JsonOf.str s)).getD .null) then
        before.toList ++ (shown ((some (JsonOf.str s)).getD .null) ++ "\n".toList) else []) =
      before ++ s ++ "\n" := by
  have htruthy : isTruthy false ((some (JsonOf.str s)).getD .null) = true := by
    simpa [isTruthy] using hs
  rewrite [if_pos htruthy, Option.getD_some, shown_str, String.ofList_append, String.ofList_append,
    String.ofList_toList, String.ofList_toList, String.ofList_toList]
  exact String.append_assoc.symm

/-- The section of the instructions. -/
theorem instructionLine_eq (instructions : Option String) :
    String.ofList (if isTruthy false ((instructions.map JsonOf.str).getD .null) then
        "".toList ++ (shown ((instructions.map JsonOf.str).getD .null) ++ "\n".toList) else []) =
      instructionLine instructions := by
  cases instructions with
  | none => rfl
  | some s =>
      by_cases hs : s = ""
      · subst hs
        rfl
      · refine (ofList_section hs "").trans ?_
        rewrite [String.empty_append]
        exact (if_neg hs).symm

/-- The section of the context. -/
theorem contextSection_eq (context : Members Float) :
    String.ofList (if isTruthy false ((if context.isEmpty then none else
          some (JsonOf.str (Json.spread (.obj context)))).getD .null) then
        "Context:\n".toList ++ (shown ((if context.isEmpty then none else
          some (JsonOf.str (Json.spread (.obj context)))).getD .null) ++ "\n".toList) else []) =
      contextSection context := by
  unfold contextSection
  cases context with
  | nil => rfl
  | cons m rest => exact ofList_section (spread_obj_ne (m :: rest)) "Context:\n"

/-- **The default template is filled in**: every field stands in its place. -/
theorem render_default :
    render defaultTemplate (.obj (PromptStyle.data agent task instructions)) =
      some (standardPrompt agent task instructions) := by
  obtain ⟨hspecialization, hrole, hinstructions, htype, hpayload, hcontext⟩ :=
    @lookup_data agent task instructions
  rewrite [render, parse_defaultTemplate]
  show (renderNodes defaultNodes [⟨.obj (PromptStyle.data agent task instructions), []⟩] >>=
    fun text => some (String.ofList text)) = _
  unfold defaultNodes
  simp only [renderNodes, renderNode_sectionOf (by decide : "instructions" ∉ helperNames),
    renderNode_sectionOf (by decide : "context" ∉ helperNames)]
  simp only [renderNode, showOperand_place (by decide : "specialization" ∉ helperNames),
    showOperand_place (by decide : "role" ∉ helperNames),
    showOperand_place (by decide : "task_type" ∉ helperNames),
    showOperand_place (by decide : "payload" ∉ helperNames), hspecialization, hrole, htype, hpayload,
    hinstructions, hcontext, Option.getD_some, shown_str, Option.bind_eq_bind, Option.bind_some,
    Option.pure_def, List.append_nil, String.ofList_append, String.ofList_toList, instructionLine_eq,
    contextSection_eq]
  unfold standardPrompt
  simp only [String.append_assoc]

end

/-! ### Prompts -/

/-- **The default template gives the closed form**; instructions that are given win over those of the
style. -/
theorem PromptStyle.promptWith_default (own : Option String) (agent : Agent) (task : Task)
    (instructions : Option String) :
    promptWith ⟨defaultTemplate, own⟩ agent task instructions =
      standardPrompt agent task (instructions.or own) := by
  unfold promptWith
  dsimp only
  rw [render_default, Option.getD_some]

/-- The prompt of a variant. -/
theorem Variant.prompt_eq (v : Variant) (agent : Agent) (task : Task) :
    v.prompt agent task = standardPrompt agent task
      (some (v.instructions ++ " Focus on the " ++ agent.specialization ++ " perspective.")) :=
  PromptStyle.promptWith_default none agent task (some (v.instructionsFor agent))

/-- **Different payloads are asked for in different prompts.** -/
theorem standardPrompt_injective {agent : Agent} {task : Task} {instructions : Option String}
    {p q : Json} (hp : p.WellFormed) (hq : q.WellFormed)
    (h : standardPrompt agent { task with payload := p } instructions =
      standardPrompt agent { task with payload := q } instructions) : p = q := by
  unfold standardPrompt at h
  simp only [String.append_left_inj, String.append_right_inj] at h
  exact Json.spread_injective hp hq h

/-- **The default prompt** is a fixed text with the fields in between, for styles and for variants,
whatever the fields have in them.  It does not depend on anything else of an agent, and asks for
different payloads in different words. -/
theorem default_prompt :
    (∀ (own : Option String) (agent : Agent) (task : Task) (instructions : Option String),
      PromptStyle.promptWith ⟨defaultTemplate, own⟩ agent task instructions =
        standardPrompt agent task (instructions.or own)) ∧
    (∀ (v : Variant) (agent : Agent) (task : Task),
      v.prompt agent task = standardPrompt agent task
        (some (v.instructions ++ " Focus on the " ++ agent.specialization ++ " perspective."))) ∧
    (∀ (own instructions : Option String) (v : Variant) (agent : Agent) (task : Task)
      (id profile : String) (status : Status) (peers : List String) (history : History Float),
      let other := { agent with id, profile, status, peers, history }
      PromptStyle.promptWith ⟨defaultTemplate, own⟩ other task instructions =
        PromptStyle.promptWith ⟨defaultTemplate, own⟩ agent task instructions ∧
      v.prompt other task = v.prompt agent task) ∧
    (∀ (own instructions : Option String) (v : Variant) (agent : Agent) (task : Task) (p q : Json),
      p.WellFormed → q.WellFormed → p ≠ q →
      PromptStyle.promptWith ⟨defaultTemplate, own⟩ agent { task with payload := p } instructions ≠
        PromptStyle.promptWith ⟨defaultTemplate, own⟩ agent { task with payload := q } instructions ∧
      v.prompt agent { task with payload := p } ≠ v.prompt agent { task with payload := q }) := by
  refine ⟨PromptStyle.promptWith_default, Variant.prompt_eq, ?_, ?_⟩
  · intro own instructions v agent task id profile status peers history other
    rw [PromptStyle.promptWith_default, PromptStyle.promptWith_default, Variant.prompt_eq,
      Variant.prompt_eq]
    exact ⟨rfl, rfl⟩
  · intro own instructions v agent task p q hp hq hne
    rw [PromptStyle.promptWith_default, PromptStyle.promptWith_default, Variant.prompt_eq,
      Variant.prompt_eq]
    exact ⟨fun h => hne (standardPrompt_injective hp hq h),
      fun h => hne (standardPrompt_injective hp hq h)⟩

/-- Payloads that look like parts of a template. -/
theorem default_prompt_met :
    (JsonOf.str "\x7b\x7brole\x7d\x7d" : Json).WellFormed ∧
    (JsonOf.str "\x7b\x7b/if\x7d\x7d\\" : Json).WellFormed ∧
    PromptStyle.promptWith ⟨defaultTemplate, none⟩ (.create "a" "cost" .analyzer "eu" "p" 5)
        ⟨"t", "pricing", .str "\x7b\x7brole\x7d\x7d", []⟩ none ≠
      PromptStyle.promptWith ⟨defaultTemplate, none⟩ (.create "a" "cost" .analyzer "eu" "p" 5)
        ⟨"t", "pricing", .str "\x7b\x7b/if\x7d\x7d\\", []⟩ none := by
  have hne : (JsonOf.str "\x7b\x7brole\x7d\x7d" : Json) ≠ .str "\x7b\x7b/if\x7d\x7d\\" := by
    intro h
    exact absurd (JsonOf.str.inj h) (by decide)
  exact ⟨.str _, .str _, (default_prompt.2.2.2 none none .dataAnalysis _
    ⟨"t", "pricing", .null, []⟩ _ _ (.str _) (.str _) hne).1⟩

end AgentSwarm

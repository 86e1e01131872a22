/-
**Asking a provider.**

A provider completes a prompt.  It reports the text, the tokens it used and why it stopped, or an
error; two of the errors may go away when the request is made again.

Main definitions:

* `AgentSwarm.ProviderError` — why there is no completion;
* `AgentSwarm.FinishReason`, `AgentSwarm.TokenUsage` — why a completion ends and what it used;
* `AgentSwarm.Panic` — what stops the program in the middle of a request;
* `AgentSwarm.GenerationOptions`, `AgentSwarm.Completion` — what is asked and what is answered.

Main results:

* `AgentSwarm.ProviderError.kind_toInference` — only a rate limit becomes an exceeded quota;
* `AgentSwarm.TokenUsage.ofCounts_eq_ok_iff`, `AgentSwarm.TokenUsage.ofCounts_eq_error_iff` — two
  counts have a total exactly when their sum has 32 bits.
-/

import AgentSwarm.Inference
import AgentSwarm.Form.View

set_option relaxedAutoImplicit false
set_option autoImplicit false

namespace AgentSwarm

/-! ### Errors -/

/-- Why a provider has no completion. -/
inductive ProviderError where
  | network (text : String)
  | authentication (text : String)
  | rateLimit
  | modelNotFound (text : String)
  | provider (text : String)
  | invalidInput (text : String)
deriving DecidableEq, Repr, Inhabited

namespace ProviderError

/-- The name of an error. -/
def kind : ProviderError → String
  | .network _ => "Network"
  | .authentication _ => "Authentication"
  | .rateLimit => "RateLimit"
  | .modelNotFound _ => "ModelNotFound"
  | .provider _ => "Provider"
  | .invalidInput _ => "InvalidInput"

/-- The wording of an error. -/
def message : ProviderError → String
  | .network text => "Network error: " ++ text
  | .authentication text => "Authentication failed: " ++ text
  | .rateLimit => "Rate limit exceeded"
  | .modelNotFound text => "Model not found: " ++ text
  | .provider text => "Provider error: " ++ text
  | .invalidInput text => "Invalid input: " ++ text

/-- Whether the same request may succeed later. -/
def isRetryable : ProviderError → Bool
  | .network _ | .provider _ => true
  | _ => false

/-- What an agent sees of an error. -/
def toInference : ProviderError → InferenceError
  | .rateLimit => .quotaExceeded ProviderError.rateLimit.message
  | e => .invocation e.message

theorem kind_toInference (e : ProviderError) :
    e.toInference.kind = if e = .rateLimit then .quotaExceeded else .invocation := by
  cases e <;> simp [toInference, InferenceError.kind]

end ProviderError

/-! ### Completions -/

/-- Why a completion ends. -/
inductive FinishReason where
  | stop | length | contentFilter
deriving DecidableEq, Repr, Inhabited

namespace FinishReason

/-- The reason a vendor's word stands for; an unknown word is an ordinary stop. -/
def ofVendor (word : Option String) : FinishReason :=
  if word = some "length" ∨ word = some "max_tokens" then .length
  else if word = some "content_filter" then .contentFilter
  else .stop

/-- The name of a reason. -/
def name : FinishReason → String
  | .stop => "Stop"
  | .length => "Length"
  | .contentFilter => "ContentFilter"

end FinishReason

/-- A panic of the program, with its message. -/
structure Panic where
  message : String
deriving DecidableEq, Repr, Inhabited

/-- The panic of an addition whose sum leaves its type. -/
def Panic.addition : Panic := ⟨"attempt to add with overflow"⟩

/-- The tokens of a prompt and of its completion. -/
structure TokenUsage where
  promptTokens : Nat
  completionTokens : Nat
  totalTokens : Nat
deriving DecidableEq, Repr, Inhabited

namespace TokenUsage

/-- The usage of two counts.  The total has 32 bits as well; the addition panics when it leaves
them. -/
def ofCounts (promptTokens completionTokens : Nat) : Except Panic TokenUsage :=
  if promptTokens + completionTokens < UInt32.size then
    .ok ⟨promptTokens, completionTokens, promptTokens + completionTokens⟩
  else .error .addition

theorem ofCounts_eq_ok_iff {p q : Nat} {u : TokenUsage} :
    ofCounts p q = .ok u ↔ p + q < UInt32.size ∧ u = ⟨p, q, p + q⟩ := by
  unfold ofCounts
  split
  next h => simp [h, eq_comm]
  next h => simp [h]

theorem ofCounts_eq_error_iff {p q : Nat} {panic : Panic} :
    ofCounts p q = .error panic ↔ UInt32.size ≤ p + q ∧ panic = .addition := by
  unfold ofCounts
  split
  next h => simp [Nat.not_le.2 h]
  next h => simp [Nat.not_lt.1 h, eq_comm]

/-- The written form of token counts. -/
def form : Form :=
  .record "TokenUsage" [("prompt_tokens", .required, .whole .word32),
    ("completion_tokens", .required, .whole .word32),
    ("total_tokens", .required, .whole .word32)]

/-- Token counts as they are written. -/
def toDatum (u : TokenUsage) : Datum :=
  .record [.whole u.promptTokens, .whole u.completionTokens, .whole u.totalTokens]

end TokenUsage

/-- How a completion is generated. -/
structure GenerationOptions where
  maxTokens : Option Nat
  temperature : Option Float32
  stopSequences : Option (List String)
deriving Repr, Inhabited

namespace GenerationOptions

/-- The options of a request for which none are given. -/
def standard : GenerationOptions := ⟨some 2048, some 0.2, none⟩

/-- The written form of options. -/
def form : Form :=
  .record "GenerationOptions" [("max_tokens", .required, .optional (.whole .word32)),
    ("temperature", .required, .optional .single),
    ("stop_sequences", .required, .optional (.list .text))]

/-- Options as they are written. -/
def toDatum (o : GenerationOptions) : Datum :=
  .record [optionalDatum .whole o.maxTokens, optionalDatum .single o.temperature,
    optionalDatum (fun words => .list (words.map .text)) o.stopSequences]

/-- The options that were written. -/
def ofDatum? : Datum → Option GenerationOptions
  | .record [tokens, temperature, stop] => do
    return ⟨← tokens.optional? Datum.whole?, ← temperature.optional? Datum.single?,
      ← stop.optional? (Datum.list? Datum.text?)⟩
  | _ => none

end GenerationOptions

/-- A completion of a prompt. -/
structure Completion where
  text : String
  usage : TokenUsage
  /-- What kind of provider answered. -/
  provider : String
  model : String
  finish : FinishReason
deriving DecidableEq, Repr, Inhabited

end AgentSwarm

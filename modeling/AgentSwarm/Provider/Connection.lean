/-
**Connections to vendors.**

Three vendors are spoken to over HTTP.  A prompt becomes a request with a JSON body, and the reply
becomes a completion or an error.  How a message is carried is not said here: a carrier either brings
a reply or fails with a text.

Main definitions:

* `AgentSwarm.Vendor`, `AgentSwarm.Connection` — whose protocol is spoken, and where, with which key
  and model;
* `AgentSwarm.Connection.inquiry`, `AgentSwarm.Connection.completionOf` — the request of a prompt,
  and the completion of its reply;
* `AgentSwarm.Connection.probe`, `AgentSwarm.Connection.healthOf` — the same for a probe;
* `AgentSwarm.Connection.generate` — both over a carrier.
-/

import AgentSwarm.Form.OfText
import AgentSwarm.Http.Basic
import AgentSwarm.Provider.Course

set_option relaxedAutoImplicit false
set_option autoImplicit false

namespace AgentSwarm

/-! ### Connections -/

/-- Whose protocol is spoken. -/
inductive Vendor where
  | openai | anthropic | ollama
deriving DecidableEq, Repr, Inhabited

/-- The name of a vendor. -/
def Vendor.name : Vendor → String
  | .openai => "openai"
  | .anthropic => "anthropic"
  | .ollama => "ollama"

/-- The vendor of a provider's type. -/
def Vendor.ofType? (type : String) : Option Vendor :=
  if type = "openai" ∨ type = "openai-compatible" then some .openai
  else if type = "anthropic" then some .anthropic
  else if type = "ollama" then some .ollama
  else none

/-- Where a vendor's protocol is spoken, with which key and model. -/
structure Connection where
  vendor : Vendor
  endpoint : String
  key : String
  model : String
deriving DecidableEq, Repr, Inhabited

namespace Connection

/-- The public place of the Messages protocol. -/
def publicMessages : String := "https://api.anthropic.com/v1"

/-- A connection; without an endpoint the public place of the Messages protocol is meant. -/
def create (vendor : Vendor) (endpoint key model : String) : Connection :=
  let place := if vendor = .anthropic ∧ endpoint = "" then publicMessages else endpoint
  ⟨vendor, place, key, model⟩

/-- A path below the endpoint. -/
def url (c : Connection) (path : String) : String :=
  String.ofList (c.endpoint.toList.reverse.dropWhile (· == '/')).reverse ++ "/" ++ path

/-- The headers that show the key. -/
def keyHeaders (c : Connection) : List (String × String) :=
  match c.vendor with
  | .openai => [("authorization", "Bearer " ++ c.key)]
  | .anthropic => [("x-api-key", c.key), ("anthropic-version", "2023-06-01")]
  | .ollama => []

/-- The headers of a request with a JSON body. -/
def bodyHeaders (c : Connection) : List (String × String) :=
  c.keyHeaders ++ [("content-type", "application/json")]

/-! ### Requests -/

/-- A member that is there only with a value. -/
def memberOf {A : Type} (key : String) (f : A → Json) (a : Option A) : List (String × Json) :=
  (a.map fun a => (key, f a)).toList

/-- A list of words. -/
def words (l : List String) : Json := .arr (l.map .str)

/-- A prompt as the only message of a conversation. -/
def conversation (prompt : String) : Json :=
  .arr [.obj [("role", .str "user"), ("content", .str prompt)]]

/-- A count of tokens as a signed number of 32 bits. -/
def signedCount (n : Nat) : Json := .int (Int.bmod n UInt32.size)

/-- The body of a request for a completion. -/
def bodyOf (c : Connection) (prompt : String) (o : GenerationOptions) : Json :=
  let temperature := memberOf "temperature" (fun t => .real (Decimal.shownSingle t)) o.temperature
  match c.vendor with
  | .openai =>
    .obj ([("model", .str c.model), ("messages", conversation prompt)] ++
      memberOf "max_tokens" (fun n : Nat => .int n) o.maxTokens ++ temperature ++
      memberOf "stop" words o.stopSequences)
  | .anthropic =>
    .obj ([("model", .str c.model), ("messages", conversation prompt),
      ("max_tokens", .int (o.maxTokens.getD 2048 : Nat))] ++ temperature ++
      memberOf "stop_sequences" words o.stopSequences)
  | .ollama =>
    .obj [("model", .str c.model), ("prompt", .str prompt), ("stream", .bool false),
      ("format", .str "json"),
      ("options", .obj (temperature ++ memberOf "num_predict" signedCount o.maxTokens ++
        memberOf "stop" words o.stopSequences))]

/-- Where completions are asked for. -/
def completionPath (c : Connection) : String :=
  match c.vendor with
  | .openai => "chat/completions"
  | .anthropic => "messages"
  | .ollama => "api/generate"

/-- The request for a completion. -/
def inquiry (c : Connection) (prompt : String) (o : GenerationOptions) : Http.Request :=
  ⟨.post, c.url c.completionPath, c.bodyHeaders, some (c.bodyOf prompt o)⟩

/-- The request that only asks whether the vendor is there. -/
def probe (c : Connection) : Http.Request :=
  let path :=
    match c.vendor with
    | .openai => "models"
    | .anthropic => "messages"
    | .ollama => "api/tags"
  ⟨.get, c.url path, c.keyHeaders, none⟩

/-! ### Replies -/

/-- The error of a status that is no success. -/
def errorOf (c : Connection) (r : Http.Reply) : ProviderError :=
  if r.status = 401 ∨ r.status = 403 then .authentication r.body
  else if r.status = 429 then .rateLimit
  else if r.status = 404 then .modelNotFound c.model
  else if r.status = 400 ∨ r.status = 422 then .invalidInput r.body
  else .provider ("HTTP " ++ Http.statusText r.status ++ ": " ++ r.body)

/-- The written form of two counts of tokens. -/
def countsForm (prompt completion : String) : Form :=
  .record "Counts" [(prompt, .required, .whole .word32), (completion, .required, .whole .word32)]

/-- The written form of a message. -/
def messageForm : Form :=
  .record "Message" [("role", .required, .text), ("content", .required, .text)]

/-- The written form of a reply with a completion. -/
def replyForm : Vendor → Form
  | .openai =>
    .record "Reply" [("choices", .required, .list (.record "Choice" [
        ("message", .required, messageForm),
        ("finish_reason", .hiddenDefault, .optional .text)])),
      ("usage", .hiddenDefault, .optional (countsForm "prompt_tokens" "completion_tokens"))]
  | .anthropic =>
    .record "Reply" [
      ("content", .required, .list (.record "Block" [("text", .default (.text ""), .text)])),
      ("usage", .required, countsForm "input_tokens" "output_tokens"),
      ("stop_reason", .required, .optional .text)]
  | .ollama =>
    .record "Reply" [("response", .required, .text),
      ("done_reason", .hiddenDefault, .optional .text),
      ("eval_count", .hiddenDefault, .optional (.whole .word32)),
      ("prompt_eval_count", .hiddenDefault, .optional (.whole .word32))]

/-- The counts of tokens that were written, those of the prompt first. -/
def countsOf? : Datum → Option (Nat × Nat)
  | .record [.whole prompt, .whole completion] => some (prompt, completion)
  | _ => none

/-- The text of a block that was written. -/
def blockOf? : Datum → Option String
  | .record [.text text] => some text
  | _ => none

/-- The parts of a completion: its text, the counts of its tokens and the word for its end; none when
the reply holds no completion. -/
def partsOf? (vendor : Vendor) (d : Datum) : Option (String × (Nat × Nat) × Option String) :=
  match vendor, d with
  | .openai, .record [.list (.record [.record [_, .text text], reason] :: _), usage] => do
    let counts ← usage.optional? countsOf?
    return (text, counts.getD (0, 0), ← reason.optional? Datum.text?)
  | .anthropic, .record [.list blocks, usage, reason] => do
    let texts ← blocks.mapM blockOf?
    return (String.join texts, ← countsOf? usage, ← reason.optional? Datum.text?)
  | .ollama, .record [.text text, reason, completion, prompt] => do
    let completion ← completion.optional? Datum.whole?
    let prompt ← prompt.optional? Datum.whole?
    return (text, (prompt.getD 0, completion.getD 0), ← reason.optional? Datum.text?)
  | _, _ => none

/-- The completion of a reply. -/
def completionOf (c : Connection) (r : Http.Reply) : ProviderAnswer :=
  if !Http.isSuccess r.status then .error (c.errorOf r)
  else
    match (replyForm c.vendor).read r.body with
    | .error _ =>
      .error (.provider ("Failed to parse response: error decoding response body for url (" ++
        c.url c.completionPath ++ ")"))
    | .ok d =>
      match partsOf? c.vendor d with
      | some (text, (prompt, completion), reason) =>
        match TokenUsage.ofCounts prompt completion with
        | .ok usage => .ok ⟨text, usage, c.vendor.name, c.model, .ofVendor reason⟩
        | .error p => .panic p
      | none => .error (.provider "No choices in response")

/-- What the reply to a probe says.  The Messages protocol has no probe of its own: a refusal of the
request itself shows that the key was accepted. -/
def healthOf (c : Connection) (r : Http.Reply) : Except ProviderError Unit :=
  let failed : ProviderError := .network ("HTTP " ++ Http.statusText r.status)
  if Http.isSuccess r.status then .ok ()
  else
    match c.vendor with
    | .openai => .error (c.errorOf ⟨r.status, ""⟩)
    | .anthropic =>
      if r.status = 404 ∨ r.status = 405 then .ok ()
      else if r.status = 401 ∨ r.status = 403 then .error (.authentication "Invalid API key")
      else .error failed
    | .ollama => .error failed

/-! ### Carriers -/

/-- Brings a request to its place, from a state: a reply, or why there is none. -/
abbrev Carrier (S : Type) := Http.Request → S → Except String Http.Reply × S

variable {S : Type}

/-- The completion of a prompt. -/
def generate (carry : Carrier S) (c : Connection) (prompt : String) (o : GenerationOptions)
    (s : S) : ProviderAnswer × S :=
  match carry (c.inquiry prompt o) s with
  | (.ok r, s) => (c.completionOf r, s)
  | (.error text, s) => (.error (.network text), s)

/-- Whether the vendor is there. -/
def checkHealth (carry : Carrier S) (c : Connection) (s : S) : Except ProviderError Unit × S :=
  match carry c.probe s with
  | (.ok r, s) => (c.healthOf r, s)
  | (.error text, s) => (.error (.network text), s)

end Connection

end AgentSwarm

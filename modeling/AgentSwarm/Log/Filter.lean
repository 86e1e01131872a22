/-
**Log filters.**

A filter is a list of directives with commas between them.  A directive is a level, or a target, a
span in brackets, or both, perhaps with a level behind an equals sign.  A span may have a field in
braces, with a pattern of its values.

Main definitions:

* `AgentSwarm.Log.isLevel` — the words and numbers of levels;
* `AgentSwarm.Log.isDirective`, `AgentSwarm.Log.isFilter` — what may be written;
* `AgentSwarm.LogSettings.filter?` — the filter that holds for log settings in an environment.
-/

import AgentSwarm.Log.Pattern
import AgentSwarm.Manifest.Environment
import AgentSwarm.Text.Alphanumeric
import AgentSwarm.Yaml.Core

set_option relaxedAutoImplicit false
set_option autoImplicit false

namespace AgentSwarm

namespace Log

/-! ### Levels and fields -/

/-- The words for levels. -/
def levelWords : List String := ["error", "warn", "info", "debug", "trace", "off"]

/-- Whether a text is a level: a word in any case, or a number up to five. -/
def isLevel (cs : List Char) : Bool :=
  let s := String.ofList cs
  levelWords.contains (Text.lowered s) || (Text.word64? s).any (· ≤ 5)

/-- Whether a text is a number or a word for one. -/
def isNumber (s : String) : Bool :=
  let unsigned := match s.toList with
    | '+' :: rest => rest
    | '-' :: rest => rest
    | cs => cs
  (Yaml.unsignedReal? unsigned).isSome ||
    ["inf", "infinity", "nan"].contains (Text.lowered (String.ofList unsigned))

/-- Whether a text is a field: a name, perhaps with a number or a pattern behind it. -/
def isField (cs : List Char) : Bool :=
  !cs.isEmpty &&
    match cs.dropWhile (· != '=') with
    | [] => true
    | _ :: rest =>
      let value := rest.takeWhile (· != '=')
      isNumber (String.ofList value) || isPattern value

/-! ### Directives -/

/-- Whether a text may stand behind a span: nothing, or an equals sign with a level or without;
`bare` tells whether a level may follow. -/
def isTail (bare : Bool) : List Char → Bool
  | [] => true
  | '=' :: level => bare && (level.isEmpty || isLevel level)
  | _ => false

/-- Whether a text is a span behind its opening bracket, with its tail. -/
def isSpan (bare : Bool) (cs : List Char) : Bool :=
  match cs.dropWhile fun c => c != ']' && c != '{' with
  | ']' :: rest => isTail bare rest
  | _ :: rest =>
    match rest.span (· != '}') with
    | (field, '}' :: ']' :: rest) => isField field && isTail bare rest
    | _ => false
  | [] => false

/-- Whether a character may begin a target. -/
def opensTarget (c : Char) : Bool := c == '-' || c == ':' || c == '_' || Text.isAlphanumeric c

/-- Whether a text is a directive.  Blanks around it are passed over, unless a level stands behind
an equals sign. -/
def isDirective (cs : List Char) : Bool :=
  let inner := Text.trimChars cs
  let bare := inner == cs
  match inner with
  | [] => false
  | '[' :: rest => isSpan bare rest
  | c :: rest =>
    opensTarget c &&
      match rest.dropWhile fun d => d != '=' && d != '[' with
      | '[' :: rest => isSpan bare rest
      | tail => isTail bare tail

/-- Whether a text is a filter; empty directives are passed over. -/
def isFilter (text : String) : Bool :=
  (Text.pieces ',' text.toList).all fun piece => piece.isEmpty || isDirective piece

end Log

/-! ### The filter of settings -/

namespace LogSettings

/-- The wording when no filter holds. -/
def filterFault : String := "Failed to create log filter"

/-- The filter that holds for log settings: of the variable, or of the level of the settings when the
variable is missing or no filter. -/
def filter? (env : Environment) (s : LogSettings) : Option String :=
  ((env "RUST_LOG").filter Log.isFilter).or ((some s.level).filter Log.isFilter)

end LogSettings

end AgentSwarm

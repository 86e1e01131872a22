/-
**What can be wrong with a JSON text.**

A fault has a cause and a place.  The place is kept as the number of bytes that had not been read
when the fault was found; together with the whole text it gives a line and a column.

Main definitions:

* `AgentSwarm.Json.Cause`, `AgentSwarm.Json.Fault` — a cause, and a cause at a place;
* `AgentSwarm.Json.Cause.message` — the wording of a cause;
* `AgentSwarm.Json.Fault.message` — the wording with line and column.
-/

import AgentSwarm.Text.Blank
import AgentSwarm.Decimal.Notation

set_option relaxedAutoImplicit false
set_option autoImplicit false

namespace AgentSwarm.Json

/-- Why a text is no JSON value. -/
inductive Cause where
  | eofInValue
  | eofInString
  | eofInList
  | eofInObject
  | expectedValue
  | expectedWord
  | expectedColon
  | expectedListCommaOrEnd
  | expectedObjectCommaOrEnd
  | keyNotString
  | trailingComma
  | trailingCharacters
  | invalidNumber
  | numberOutOfRange
  | invalidEscape
  | endOfHexEscape
  | loneSurrogate
  | controlCharacter
  | tooDeep
deriving DecidableEq, Repr

/-- A cause and the number of bytes not yet read where it was found. -/
structure Fault where
  cause : Cause
  unread : Nat
deriving DecidableEq, Repr

/-- A fault found with `rest` still unread. -/
def Fault.before (cause : Cause) (rest : List Char) : Fault := ⟨cause, Text.utf8Length rest⟩

/-- A fault found at the next byte, which counts as read when there is one. -/
def Fault.at (cause : Cause) (rest : List Char) : Fault := ⟨cause, Text.utf8Length rest - 1⟩

/-- The wording of a cause. -/
def Cause.message : Cause → String
  | .eofInValue => "EOF while parsing a value"
  | .eofInString => "EOF while parsing a string"
  | .eofInList => "EOF while parsing a list"
  | .eofInObject => "EOF while parsing an object"
  | .expectedValue => "expected value"
  | .expectedWord => "expected ident"
  | .expectedColon => "expected `:`"
  | .expectedListCommaOrEnd => "expected `,` or `]`"
  | .expectedObjectCommaOrEnd => "expected `,` or `\x7d`"
  | .keyNotString => "key must be a string"
  | .trailingComma => "trailing comma"
  | .trailingCharacters => "trailing characters"
  | .invalidNumber => "invalid number"
  | .numberOutOfRange => "number out of range"
  | .invalidEscape => "invalid escape"
  | .endOfHexEscape => "unexpected end of hex escape"
  | .loneSurrogate => "lone leading surrogate in hex escape"
  | .controlCharacter => "control character (\\u0000-\\u001F) found while parsing a string"
  | .tooDeep => "recursion limit exceeded"

/-! ### Places -/

/-- Line and column after reading `count` bytes of a text: lines count from one, columns count the
bytes read on the line. -/
def place : List Char → Nat → Nat × Nat → Nat × Nat
  | [], _, at' => at'
  | c :: rest, count, (line, column) =>
    if count = 0 then (line, column)
    else if c = '\n' then place rest (count - 1) (line + 1, 0)
    else place rest (count - c.utf8Size) (line, column + min count c.utf8Size)

/-- The wording of a fault found in `text`. -/
def Fault.message (f : Fault) (text : List Char) : String :=
  let (line, column) := place text (Text.utf8Length text - f.unread) (1, 0)
  f.cause.message ++ " at line " ++ String.ofList (Decimal.natChars line) ++ " column " ++
    String.ofList (Decimal.natChars column)

end AgentSwarm.Json

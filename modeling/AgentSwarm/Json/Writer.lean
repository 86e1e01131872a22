/-
**Writing JSON.**

The compact text of a value has no blanks.  The spread text puts every element and every member on
a line of its own, indented by two blanks for each enclosing container.  Strings escape the quote,
the backslash and the control characters below U+0020, and nothing else.

Main definitions:

* `AgentSwarm.Json.quote` — a string in quotes;
* `AgentSwarm.Json.listChars`, `AgentSwarm.Json.objectChars` — containers of what is written already;
* `AgentSwarm.Json.chars`, `AgentSwarm.Json.compact` — the compact text;
* `AgentSwarm.Json.spread` — the spread text.
-/

import AgentSwarm.Json.Basic
import AgentSwarm.Text.Blank

set_option relaxedAutoImplicit false
set_option autoImplicit false

namespace AgentSwarm.Json

open AgentSwarm

/-! ### Strings -/

/-- A hexadecimal digit in lower case. -/
def hexDigit (n : Nat) : Char := Nat.digitChar (n % 16)

/-- A character as it stands between quotes. -/
def escape (c : Char) : List Char :=
  if c = '"' then ['\\', '"']
  else if c = '\\' then ['\\', '\\']
  else if c = '\n' then ['\\', 'n']
  else if c = '\r' then ['\\', 'r']
  else if c = '\t' then ['\\', 't']
  else if c = '\x08' then ['\\', 'b']
  else if c = '\x0c' then ['\\', 'f']
  else if c.toNat < 0x20 then ['\\', 'u', '0', '0', hexDigit (c.toNat / 16), hexDigit c.toNat]
  else [c]

/-- A string in quotes. -/
def quote (s : String) : List Char := '"' :: (s.toList.flatMap escape ++ ['"'])

/-! ### Texts of containers -/

/-- Texts with commas between them. -/
def joined {A : Type} (f : A → List Char) : List A → List Char
  | [] => []
  | a :: rest => if rest.isEmpty then f a else f a ++ ',' :: joined f rest

/-- The text of the empty value. -/
def nullChars : List Char := ['n', 'u', 'l', 'l']

/-- The text of a list with given texts of its elements. -/
def listChars (items : List (List Char)) : List Char := '[' :: (joined id items ++ [']'])

/-- The text of a member with a given text of its value. -/
def memberText (m : String × List Char) : List Char := quote m.1 ++ ':' :: m.2

/-- The text of an object with given texts of its members. -/
def objectChars (members : List (String × List Char)) : List Char :=
  '{' :: (joined memberText members ++ ['}'])

/-! ### The compact text -/

variable {R : Type} [Scalar R]

mutual

/-- The compact text of a value. -/
def chars : JsonOf R → List Char
  | .null => ['n', 'u', 'l', 'l']
  | .bool true => ['t', 'r', 'u', 'e']
  | .bool false => ['f', 'a', 'l', 's', 'e']
  | .int n => Decimal.intChars n
  | .real x => Scalar.chars x
  | .str s => quote s
  | .arr items => '[' :: (itemsChars items ++ [']'])
  | .obj members => '{' :: (membersChars members ++ ['}'])

/-- The texts of values with commas between them. -/
def itemsChars : List (JsonOf R) → List Char
  | [] => []
  | v :: rest => if rest.isEmpty then chars v else chars v ++ ',' :: itemsChars rest

/-- The texts of members with commas between them. -/
def membersChars : List (String × JsonOf R) → List Char
  | [] => []
  | (k, v) :: rest =>
    quote k ++ ':' :: (if rest.isEmpty then chars v else chars v ++ ',' :: membersChars rest)

end

/-- The compact text of a value. -/
def compact (v : JsonOf R) : String := String.ofList (chars v)

/-! ### The spread text -/

/-- A new line and the indentation at a depth. -/
def newline (depth : Nat) : List Char := '\n' :: List.replicate (2 * depth) ' '

mutual

/-- The spread text of a value inside `depth` containers. -/
def spreadChars (depth : Nat) : JsonOf R → List Char
  | .arr items =>
    if items.isEmpty then ['[', ']']
    else '[' :: (spreadItems (depth + 1) items ++ newline depth ++ [']'])
  | .obj members =>
    if members.isEmpty then ['{', '}']
    else '{' :: (spreadMembers (depth + 1) members ++ newline depth ++ ['}'])
  | .null => chars (.null : JsonOf R)
  | .bool b => chars (.bool b : JsonOf R)
  | .int n => chars (.int n : JsonOf R)
  | .real x => chars (.real x)
  | .str s => chars (.str s : JsonOf R)

/-- The spread texts of values, each on a line of its own. -/
def spreadItems (depth : Nat) : List (JsonOf R) → List Char
  | [] => []
  | v :: rest =>
    newline depth ++ spreadChars depth v ++
      (if rest.isEmpty then [] else ',' :: spreadItems depth rest)

/-- The spread texts of members, each on a line of its own. -/
def spreadMembers (depth : Nat) : List (String × JsonOf R) → List Char
  | [] => []
  | (k, v) :: rest =>
    newline depth ++ quote k ++ [':', ' '] ++ spreadChars depth v ++
      (if rest.isEmpty then [] else ',' :: spreadMembers depth rest)

end

/-- The spread text of a value. -/
def spread (v : JsonOf R) : String := String.ofList (spreadChars 0 v)

end AgentSwarm.Json

/-
**Reading tags.**

A tag is read from the text behind its opening braces.  Blanks may stand between its parts, but
not inside a path.  A tilde next to the braces eats the blanks on its side of the tag.

Main definitions:

* `AgentSwarm.Template.readPath`, `AgentSwarm.Template.readOperand` — paths and values;
* `AgentSwarm.Template.readTag` — a tag up to its closing braces.
-/

import AgentSwarm.Template.Basic
import AgentSwarm.Json.Reader

set_option relaxedAutoImplicit false
set_option autoImplicit false

namespace AgentSwarm.Template

open AgentSwarm

/-! ### Words -/

/-- The blanks that may stand between the parts of a tag. -/
def isSpace (c : Char) : Bool := c == ' ' || c == '\t' || c == '\n' || c == '\r'

/-- The text without blanks in front. -/
def skipSpace (cs : List Char) : List Char := cs.dropWhile isSpace

/-- What follows `word`, which may have blanks in front. -/
def expect (word : List Char) (cs : List Char) : Option (List Char) :=
  Text.stripPrefix? word (skipSpace cs)

/-- Whether a tilde stands next, and what follows it. -/
def readTilde (cs : List Char) : Bool × List Char :=
  match expect ['~'] cs with
  | some rest => (true, rest)
  | none => (false, cs)

/-- Whether a character can stand in a name. -/
def isNameChar (c : Char) : Bool :=
  c.isAlphanum || c == '_' || c == '$' || c == '-' || 0x80 ≤ c.toNat

/-- The name at the front of a text. -/
def readName (cs : List Char) : Option (String × List Char) :=
  let name := cs.takeWhile isNameChar
  if name.isEmpty then none else some (String.ofList name, cs.dropWhile isNameChar)

/-- A given word that no name character follows. -/
def readWord (word : List Char) (cs : List Char) : Option (List Char) :=
  match Text.stripPrefix? word cs with
  | some (c :: rest) => if isNameChar c then none else some (c :: rest)
  | other => other

/-! ### Paths -/

/-- One key of a path: a name, or anything in brackets. -/
def readKey (cs : List Char) : Option (String × List Char) :=
  match cs with
  | '[' :: rest =>
    (Text.splitAtFirst [']'] rest).map fun (key, rest) => (String.ofList key, rest)
  | cs => readName cs

/-- Whether a character separates the keys of a path. -/
def isSeparator (c : Char) : Bool := c == '/' || c == '.'

/-- The keys after the first; a separator that no key follows ends the path. -/
def readKeys : Nat → List Char → List String × List Char
  | 0, cs => ([], cs)
  | fuel + 1, cs =>
    match cs with
    | c :: rest =>
      if isSeparator c then
        match readKey rest with
        | some (key, rest) => let (keys, rest) := readKeys fuel rest; (key :: keys, rest)
        | none => ([], cs)
      else ([], cs)
    | [] => ([], [])

/-- The steps up at the front of a path. -/
def readUps : Nat → List Char → Nat × List Char
  | 0, cs => (0, cs)
  | fuel + 1, cs =>
    match cs with
    | '.' :: '.' :: c :: rest =>
      if isSeparator c then let (n, rest) := readUps fuel rest; (n + 1, rest) else (0, cs)
    | cs => (0, cs)

/-- A word and a separator at the front of a path. -/
def readStart (word : List Char) (cs : List Char) : Bool × List Char :=
  match Text.stripPrefix? word cs with
  | some (c :: rest) => if isSeparator c then (true, rest) else (false, cs)
  | _ => (false, cs)

/-- The path at the front of a text; the key `this` stands for the value at hand. -/
def readPath (cs : List Char) : Option (Path × List Char) := do
  let cs := (readStart ['t', 'h', 'i', 's'] cs).2
  let cs := (Text.stripPrefix? ['.', '/'] cs).getD cs
  let (fromRoot, cs) := readStart ['@', 'r', 'o', 'o', 't'] cs
  let (isLocal, cs) :=
    match cs with
    | '@' :: rest => (true, rest)
    | cs => (false, cs)
  let (up, cs) := readUps cs.length cs
  let (key, cs) ← readKey cs
  let (keys, cs) := readKeys cs.length cs
  return (⟨fromRoot, isLocal, up, (key :: keys).filter (· ≠ "this")⟩, cs)

/-! ### Values -/

/-- A literal at the front of a text. -/
def readLiteral (cs : List Char) : Option (Json × List Char) :=
  match cs with
  | '"' :: rest =>
    match Json.readString rest with
    | .ok (s, rest) => some (.str s, rest)
    | .error _ => none
  | '\'' :: rest =>
    (Text.splitAtFirst ['\''] rest).map fun (s, rest) => (.str (String.ofList s), rest)
  | cs =>
    match readWord ['n', 'u', 'l', 'l'] cs with
    | some rest => some (.null, rest)
    | none =>
      match readWord ['t', 'r', 'u', 'e'] cs with
      | some rest => some (.bool true, rest)
      | none =>
        match readWord ['f', 'a', 'l', 's', 'e'] cs with
        | some rest => some (.bool false, rest)
        | none =>
          let (minus, digits) :=
            match cs with
            | '-' :: rest => (true, rest)
            | cs => (false, cs)
          match digits with
          | [] => none
          | c :: _ =>
            if !c.isDigit then none
            else
              match Json.readNumber minus digits with
              | .error _ => none
              | .ok (v, rest) =>
                if (rest.takeWhile isNameChar).isEmpty then some (v, rest) else none

/-- Whether a word ends the arguments of a tag. -/
def isReserved (cs : List Char) : Bool :=
  (readWord ['e', 'l', 's', 'e'] cs).isSome || (readWord ['a', 's'] cs).isSome

mutual

/-- The value at the front of a text. -/
def readOperand : Nat → List Char → Option (Operand × List Char)
  | 0, _ => none
  | fuel + 1, cs =>
    let cs := skipSpace cs
    if isReserved cs then none
    else
      match readLiteral cs with
      | some (v, rest) => some (.literal v, rest)
      | none =>
        match cs with
        | '(' :: rest => readInner fuel rest
        | cs => (readPath cs).map fun (p, rest) => (.path p, rest)

/-- A helper with arguments, or a path, up to a closing parenthesis. -/
def readInner : Nat → List Char → Option (Operand × List Char)
  | 0, _ => none
  | fuel + 1, cs => do
    let cs := skipSpace cs
    let called := do
      let (name, rest) ← readName cs
      let (args, _, rest) := readArgs fuel rest
      if args.isEmpty then none
      let rest ← expect [')'] rest
      return (Operand.call name args, rest)
    match called with
    | some r => return r
    | none =>
      let (p, rest) ← readPath cs
      let rest ← expect [')'] rest
      return (.path p, rest)

/-- The arguments and the settings at the front of a text. -/
def readArgs : Nat → List Char → List Operand × List (String × Operand) × List Char
  | 0, cs => ([], [], cs)
  | fuel + 1, cs =>
    let setting := do
      let (name, rest) ← readName (skipSpace cs)
      let rest ← expect ['='] rest
      let (x, rest) ← readOperand fuel rest
      return (name, x, rest)
    match setting with
    | some (name, x, rest) =>
      let (args, settings, rest) := readArgs fuel rest
      (args, (name, x) :: settings, rest)
    | none =>
      match readOperand fuel cs with
      | some (x, rest) =>
        let (args, settings, rest) := readArgs fuel rest
        (x :: args, settings, rest)
      | none => ([], [], cs)

end

/-- A helper and its arguments. -/
def readCall (cs : List Char) : Option (Call × List Char) := do
  let (name, rest) ← readName (skipSpace cs)
  let (args, settings, rest) := readArgs (2 * rest.length + 2) rest
  return (⟨name, args, settings⟩, rest)

/-! ### Tags -/

/-- The closing braces with a tilde before them. -/
def readClose (braces : List Char) (cs : List Char) : Option (Bool × List Char) := do
  let (tilde, cs) := readTilde cs
  let rest ← expect braces cs
  return (tilde, rest)

/-- A tag, whether it eats the blanks before and after it, and the text behind it. -/
abbrev ReadTag := Tag × Bool × Bool × List Char

/-- A value or a call with arguments, up to what `close` reads. -/
def readExpression (before : Bool) (cs : List Char)
    (close : List Char → Option (Bool × List Char)) : Option ReadTag :=
  let called := do
    let (c, rest) ← readCall cs
    if c.args.isEmpty && c.settings.isEmpty then none
    let (after, rest) ← close rest
    return (Tag.call c, before, after, rest)
  match called with
  | some r => some r
  | none => do
    let cs := skipSpace cs
    let (x, rest) ←
      match cs with
      | '(' :: rest => readInner (2 * rest.length + 2) rest
      | cs => (readPath cs).map fun (p, rest) => (Operand.path p, rest)
    let (after, rest) ← close rest
    return (Tag.value x, before, after, rest)

/-- A comment, whose text is passed over. -/
def readComment (before : Bool) (cs : List Char) : Option ReadTag :=
  let long := do
    let cs ← Text.stripPrefix? ['-', '-'] cs
    let (_, rest) ← Text.splitAtFirst ['-', '-', '}', '}'] cs
    return (Tag.comment, before, false, rest)
  match long with
  | some r => some r
  | none => do
    let (_, rest) ← Text.splitAtFirst ['}', '}'] cs
    return (Tag.comment, before, false, rest)

/-- The other branch of a section. -/
def readOtherwise (before : Bool) (cs : List Char) : Option ReadTag := do
  let rest ←
    match cs with
    | '^' :: rest => some rest
    | cs => readWord ['e', 'l', 's', 'e'] cs
  match readClose ['}', '}'] rest with
  | some (after, rest) => return (.otherwise none, before, after, rest)
  | none =>
    let (c, rest) ← readCall rest
    let (after, rest) ← readClose ['}', '}'] rest
    return (.otherwise (some c), before, after, rest)

/-- The tag behind two opening braces. -/
def readTag (cs : List Char) : Option ReadTag :=
  match cs with
  | '{' :: '{' :: _ => none
  | '{' :: rest =>
    let (before, rest) := readTilde rest
    readExpression before rest (readClose ['}', '}', '}'])
  | cs =>
    let (before, cs) := readTilde cs
    match skipSpace cs with
    | '!' :: rest => readComment before rest
    | '{' :: rest =>
      readExpression before rest fun cs => do readClose ['}', '}'] (← expect ['}'] cs)
    | '&' :: rest => do
      let (p, rest) ← readPath (skipSpace rest)
      let (after, rest) ← readClose ['}', '}'] rest
      return (.value (.path p), before, after, rest)
    | '#' :: rest => do
      let (c, rest) ← readCall rest
      let (after, rest) ← readClose ['}', '}'] rest
      return (.opening c, before, after, rest)
    | '/' :: rest => do
      let (name, rest) ← readName (skipSpace rest)
      let (after, rest) ← readClose ['}', '}'] rest
      return (.closing name, before, after, rest)
    | '>' :: rest => do
      let rest := (skipSpace rest).dropWhile fun c => isNameChar c || isSeparator c
      let (_, _, rest) := readArgs (2 * rest.length + 2) rest
      let (after, rest) ← readClose ['}', '}'] rest
      return (.insertion, before, after, rest)
    | cs =>
      match readOtherwise before cs with
      | some r => some r
      | none => readExpression before cs (readClose ['}', '}'])

end AgentSwarm.Template

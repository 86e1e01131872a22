/-
**Well-formed patterns.**

A pattern describes the values of a field: alternatives of characters, classes in brackets and groups
in parentheses, each perhaps repeated.  Here it is only decided whether a text is a pattern.
Assertions about the ends of words are none.

Main definitions:

* `AgentSwarm.Log.readClass` — the text behind a class;
* `AgentSwarm.Log.isPattern` — whether a text is a pattern.

Main results:

* `AgentSwarm.Log.isPattern_letters` — a word of letters is a pattern.
-/

import AgentSwarm.Text.Digits

set_option relaxedAutoImplicit false
set_option autoImplicit false

namespace AgentSwarm.Log

/-! ### Escapes -/

/-- What an escape stands for. -/
inductive Escaped where
  /-- One character. -/
  | char (c : Char)
  /-- A class of characters. -/
  | many
  /-- A place at an end of the text. -/
  | place

/-- The characters with a letter of their own. -/
def namedEscapes : List (Char × Char) :=
  [('n', '\n'), ('r', '\r'), ('t', '\t'), ('a', '\x07'), ('f', '\x0c'), ('v', '\x0b')]

/-- How many hexadecimal digits follow a letter. -/
def escapeDigits : List (Char × Nat) := [('x', 2), ('u', 4), ('U', 8)]

/-- What stands behind a backslash, and the text behind it. -/
def readEscape : List Char → Option (Escaped × List Char)
  | [] => none
  | c :: rest =>
    match namedEscapes.lookup c, escapeDigits.lookup c with
    | some d, _ => some (.char d, rest)
    | none, some width =>
      let digits := rest.take width
      if digits.length = width && digits.all Text.isHexDigit then some (.char c, rest.drop width)
      else none
    | none, none =>
      if ['d', 'D', 's', 'S', 'w', 'W'].contains c then some (.many, rest)
      else if ['A', 'z'].contains c then some (.place, rest)
      else if c.toNat < 0x80 && !c.isAlphanum && c != '<' && c != '>' then some (.char c, rest)
      else none

/-! ### Classes -/

/-- One character of a class or an escape, and the text behind it. -/
def readClassItem : List Char → Option (Escaped × List Char)
  | [] => none
  | '\\' :: rest =>
    match readEscape rest with
    | some (.place, _) | none => none
    | some item => some item
  | c :: rest => some (.char c, rest)

/-- The text behind a range that may begin at an item; its ends must be in order. -/
def readRange (start : Escaped) : List Char → Option (List Char)
  | '-' :: rest =>
    if rest.head?.any (fun c => c == ']' || c == '-') then some ('-' :: rest)
    else
      match start, readClassItem rest with
      | .char a, some (.char b, rest) => if a ≤ b then some rest else none
      | _, _ => none
  | rest => some rest

/-- What may stand at the beginning of a class: a negation, dashes, a closing bracket. -/
def openClass (cs : List Char) : List Char :=
  let cs := match cs with
    | '^' :: rest => rest
    | cs => cs
  match cs with
  | '-' :: rest => rest.dropWhile (· == '-')
  | ']' :: rest => rest
  | cs => cs

/-- The text behind a class that is open `depth + 1` times. -/
def readClass : Nat → Nat → List Char → Option (List Char)
  | 0, _, _ => none
  | fuel + 1, depth, cs =>
    match cs with
    | [] => none
    | ']' :: rest =>
      match depth with
      | 0 => some rest
      | depth + 1 => readClass fuel depth rest
    | '[' :: rest => readClass fuel (depth + 1) (openClass rest)
    | cs => do
      let (item, rest) ← readClassItem cs
      readClass fuel depth (← readRange item rest)

/-! ### Groups -/

/-- Whether a text names a group. -/
def isGroupName : List Char → Bool
  | [] => false
  | c :: rest =>
    (c.isAlpha || c == '_') &&
      rest.all fun d => d.isAlphanum || d == '_' || d == '.' || d == '[' || d == ']'

/-- Whether a text lists flags: each once, with one minus sign before those that are taken away. -/
def areFlags (cs : List Char) : Bool :=
  !cs.isEmpty && cs.all ['i', 'm', 's', 'U', 'u', 'x', 'R', '-'].contains &&
    cs.Nodup && cs.getLast? != some '-'

/-- How a group begins behind its question mark: the text behind the beginning, and whether the
group stays open. -/
def readGroupHead (cs : List Char) : Option (List Char × Bool) :=
  let named (cs : List Char) : Option (List Char × Bool) :=
    match cs.span (· != '>') with
    | (name, _ :: rest) => if isGroupName name then some (rest, true) else none
    | _ => none
  match cs with
  | ':' :: rest => some (rest, true)
  | 'P' :: '<' :: rest => named rest
  | '<' :: rest => named rest
  | cs =>
    match cs.span fun c => c != ')' && c != ':' with
    | (flags, c :: rest) => if areFlags flags then some (rest, c == ':') else none
    | _ => none

/-! ### Patterns -/

/-- Whether the rest of a pattern is well formed inside `depth` groups; `operand` tells whether
something stands before that can be repeated. -/
def readPattern : Nat → Nat → Bool → List Char → Bool
  | 0, depth, _, cs => depth == 0 && cs.isEmpty
  | fuel + 1, depth, operand, cs =>
    match cs with
    | [] => depth == 0
    | '\\' :: rest =>
      match readEscape rest with
      | some (_, rest) => readPattern fuel depth true rest
      | none => false
    | '(' :: '?' :: rest =>
      match readGroupHead rest with
      | some (rest, true) => readPattern fuel (depth + 1) false rest
      | some (rest, false) => readPattern fuel depth false rest
      | none => false
    | '(' :: rest => readPattern fuel (depth + 1) false rest
    | ')' :: rest => depth != 0 && readPattern fuel (depth - 1) true rest
    | '|' :: rest => readPattern fuel depth false rest
    | '[' :: rest =>
      match readClass rest.length.succ 0 (openClass rest) with
      | some rest => readPattern fuel depth true rest
      | none => false
    | '{' :: _ => false
    | c :: rest =>
      if c == '*' || c == '+' || c == '?' then operand && readPattern fuel depth true rest
      else readPattern fuel depth true rest

/-- Whether a text without closing brace is a pattern. -/
def isPattern (cs : List Char) : Bool := readPattern cs.length 0 false cs

theorem readPattern_letters (operand : Bool) (cs : List Char)
    (h : ∀ c ∈ cs, c.isAlphanum = true) : readPattern cs.length 0 operand cs = true := by
  induction cs generalizing operand with
  | nil => simp [readPattern]
  | cons c rest ih =>
    have hr := ih true fun d hd => h d (by simp [hd])
    have hc := h c (by simp)
    rw [List.length_cons]
    unfold readPattern
    split <;> simp_all
    rintro ((rfl | rfl) | rfl) <;> exact absurd h.1 (by decide)

theorem isPattern_letters {cs : List Char} (h : ∀ c ∈ cs, c.isAlphanum = true) :
    isPattern cs = true :=
  readPattern_letters false cs h

end AgentSwarm.Log

/-
**A place in a YAML text.**

Main definitions:

* `AgentSwarm.Yaml.isBreak`, `AgentSwarm.Yaml.isBlank` — the characters that end and divide lines;
* `AgentSwarm.Yaml.Cursor` — the rest of a text with line and column;
* `AgentSwarm.Yaml.Cursor.takeBreak?` — the line break at a place, in its normal form.

Main results:

* `AgentSwarm.Yaml.Cursor.span_append` — a span and what is behind it are the text.
-/

import AgentSwarm.Text.Blank

set_option relaxedAutoImplicit false
set_option autoImplicit false

namespace AgentSwarm.Yaml

/-! ### Characters -/

/-- Whether a character may stand in a text. -/
def isAllowed (c : Char) : Bool :=
  let n := c.toNat
  n = 0x09 || n = 0x0A || n = 0x0D || (0x20 ≤ n && n ≤ 0x7E) || n = 0x85 ||
    (0xA0 ≤ n && n ≤ 0xFFFD) || 0x10000 ≤ n

/-- Whether a character ends a line. -/
def isBreak (c : Char) : Bool :=
  c == '\n' || c == '\r' || c == '\u0085' || c == '\u2028' || c == '\u2029'

/-- Whether a character is a space or a tabulator. -/
def isBlank (c : Char) : Bool := c == ' ' || c == '\t'

/-- Whether a character may stand in a name. -/
def isNameChar (c : Char) : Bool := c.isAlphanum || c == '_' || c == '-'

/-- Whether a text ends or its next character is a blank or a break. -/
def endsWord : List Char → Bool
  | [] => true
  | c :: _ => isBlank c || isBreak c

/-- Whether the next character of a text is one of some. -/
def startsIn (options : List Char) : List Char → Bool
  | [] => false
  | c :: _ => options.contains c

/-! ### Cursors -/

/-- The rest of a text and where it begins. -/
structure Cursor where
  rest : List Char
  /-- The number of characters before. -/
  index : Nat
  line : Nat
  column : Nat
deriving Repr, Inhabited

namespace Cursor

/-- The beginning of a text. -/
def start (text : List Char) : Cursor := ⟨text, 0, 0, 0⟩

/-- The place some characters further on the same line. -/
def skipBy (c : Cursor) (n : Nat) : Cursor :=
  { c with rest := c.rest.drop n, index := c.index + n, column := c.column + n }

/-- The place behind the next character. -/
def skip (c : Cursor) : Cursor := c.skipBy 1

/-- The characters that satisfy a test, and the place behind them. -/
def span (c : Cursor) (p : Char → Bool) : List Char × Cursor :=
  let taken := c.rest.takeWhile p
  (taken, c.skipBy taken.length)

/-- The place behind the characters that satisfy a test. -/
def skipWhile (c : Cursor) (p : Char → Bool) : Cursor := (c.span p).2

theorem span_append (c : Cursor) (p : Char → Bool) : (c.span p).1 ++ (c.span p).2.rest = c.rest := by
  have h := List.takeWhile_append_dropWhile (p := p) (l := c.rest)
  have hd : c.rest.drop (c.rest.takeWhile p).length = c.rest.dropWhile p := by
    have hl : (c.rest.takeWhile p ++ c.rest.dropWhile p).drop (c.rest.takeWhile p).length =
        c.rest.dropWhile p := List.drop_left
    rwa [h] at hl
  simp [span, skipBy, hd]

/-- The place at the beginning of the next line, behind a break of so many characters. -/
def nextLine (c : Cursor) (n : Nat) : Cursor :=
  ⟨c.rest.drop n, c.index + n, c.line + 1, 0⟩

/-- The line break at a place, in its normal form, and the place behind it. -/
def takeBreak? (c : Cursor) : Option (Char × Cursor) :=
  match c.rest with
  | '\r' :: '\n' :: _ => some ('\n', c.nextLine 2)
  | ch :: _ =>
    if ch == '\u2028' || ch == '\u2029' then some (ch, c.nextLine 1)
    else if isBreak ch then some ('\n', c.nextLine 1)
    else none
  | [] => none

/-- Whether a word of three characters stands alone at the beginning of a line. -/
def hasMark (c : Cursor) (mark : List Char) : Bool :=
  c.column == 0 && c.rest.take 3 == mark && endsWord (c.rest.drop 3)

/-- What begins a document. -/
def startMark : List Char := ['-', '-', '-']

/-- What ends a document. -/
def endMark : List Char := ['.', '.', '.']

/-- Whether a document begins or ends here. -/
def atMark (c : Cursor) : Bool := c.hasMark startMark || c.hasMark endMark

end Cursor

end AgentSwarm.Yaml

/-
**Writing YAML.**

A value is written in block style: the entries of a mapping on lines of their own, two spaces deeper
than the key that holds them; the elements of a sequence at the column of that key.  The first
entry or element inside an element stands on the line of its dash.  Empty collections are written
as brackets.

A text is written plain when it would be read as this text.  Otherwise it stands in single quotes,
and in double quotes when a character of it cannot be shown.  A text of several lines is written
line by line.

Main definitions:

* `AgentSwarm.Yaml.Traits` — what decides about the style of a text;
* `AgentSwarm.Yaml.styleOf` — the style in which a text is written;
* `AgentSwarm.Yaml.scalarChars` — a text in a style;
* `AgentSwarm.Yaml.write` — the text of a value.

Main results:

* `AgentSwarm.Yaml.singleQuotedChars_of_plain` — a line without quotes stands between quotes as it is.
-/

import AgentSwarm.Json.Basic
import AgentSwarm.Yaml.Core
import AgentSwarm.Yaml.Scalar

set_option relaxedAutoImplicit false
set_option autoImplicit false

namespace AgentSwarm.Yaml

/-! ### Characters -/

/-- Whether a character is shown as it is. -/
def isShown (c : Char) : Bool :=
  let n := c.toNat
  n = 0x0A || (0x20 ≤ n && n ≤ 0x7E) || (0xA0 ≤ n && n ≤ 0xFFFD && n ≠ 0xFEFF) || 0x10000 ≤ n

/-- The characters that cannot begin a plain text. -/
def openingSigns : List Char :=
  ['#', ',', '[', ']', '{', '}', '&', '*', '!', '|', '>', '\'', '"', '%', '@', '`']

/-! ### Traits of a text -/

/-- Whether a text has an indicator where it would end or change a plain scalar; `blankBefore`
tells what the previous character is. -/
def hasSign (blankBefore : Bool) : List Char → Bool
  | [] => false
  | c :: rest =>
    (c == ':' && endsWord rest) || (c == '#' && blankBefore) ||
      hasSign (isBlank c || isBreak c) rest

/-- Whether a plain text must not begin like this. -/
def opensSign : List Char → Bool
  | [] => false
  | c :: rest =>
    openingSigns.contains c || ((c == '?' || c == '-') && endsWord rest) ||
      (c :: rest).take 3 == Cursor.startMark || (c :: rest).take 3 == Cursor.endMark

/-- Whether somewhere a character that satisfies `p` stands before one that satisfies `q`. -/
def hasPair (p q : Char → Bool) : List Char → Bool
  | c :: d :: rest => (p c && q d) || hasPair p q (d :: rest)
  | _ => false

/-- What decides about the style of a text. -/
structure Traits where
  /-- An indicator would be taken for more than text. -/
  hasIndicator : Bool
  /-- It goes over several lines. -/
  isMultiline : Bool
  /-- A space or a break stands at an end. -/
  isPadded : Bool
  endsInSpace : Bool
  /-- A space stands behind a break. -/
  hasBreakSpace : Bool
  /-- A space stands before a break, or a character cannot be shown. -/
  isSpecial : Bool
deriving DecidableEq, Repr

/-- The traits of a text. -/
def Traits.of (cs : List Char) : Traits :=
  let isSpace (c : Char) : Bool := c == ' '
  let isEdge (c : Char) : Bool := isSpace c || isBreak c
  { hasIndicator := opensSign cs || hasSign true cs
    isMultiline := cs.any isBreak
    isPadded := cs.head?.any isEdge || cs.getLast?.any isEdge
    endsInSpace := cs.getLast?.any isSpace
    hasBreakSpace := hasPair isBreak isSpace cs
    isSpecial := hasPair isSpace isBreak cs || cs.any (!isShown ·) }

namespace Traits

/-- Whether the text may be written plain. -/
def allowsPlain (t : Traits) : Bool :=
  !(t.hasIndicator || t.isMultiline || t.isPadded || t.hasBreakSpace || t.isSpecial)

/-- Whether the text may be written in single quotes. -/
def allowsSingle (t : Traits) : Bool := !(t.hasBreakSpace || t.isSpecial)

/-- Whether the text may be written line by line. -/
def allowsLiteral (t : Traits) : Bool := !(t.endsInSpace || t.isSpecial)

end Traits

/-! ### Styles -/

/-- Whether a plain text would be read as something else. -/
def isMisread (s : String) : Bool :=
  match meaningOf s with
  | .text => isPaddedNumber s.toList
  | _ => true

/-- The style in which a text is written. -/
def styleOf (s : String) : Style :=
  let traits := Traits.of s.toList
  let quotes : Style := if traits.allowsSingle then .singleQuoted else .doubleQuoted
  if s.toList.contains '\n' then if traits.allowsLiteral then .literal else .doubleQuoted
  else if isMisread s then quotes
  else if traits.allowsPlain then .plain
  else quotes

/-! ### Texts -/

/-- A hexadecimal number of a width in capital letters. -/
def upperHex : Nat → Nat → List Char
  | 0, _ => []
  | width + 1, n => upperHex width (n / 16) ++ [(Nat.digitChar (n % 16)).toUpper]

/-- A character between double quotes. -/
def escaped (c : Char) : List Char :=
  let n := c.toNat
  match [('\x00', '0'), ('\x07', 'a'), ('\x08', 'b'), ('\t', 't'), ('\n', 'n'), ('\x0b', 'v'),
      ('\x0c', 'f'), ('\r', 'r'), ('\x1b', 'e'), ('"', '"'), ('\\', '\\'), ('\u0085', 'N'),
      ('\u2028', 'L'), ('\u2029', 'P')].lookup c with
  | some sign => ['\\', sign]
  | none =>
    if isShown c then [c]
    else if n ≤ 0xFF then '\\' :: 'x' :: upperHex 2 n
    else if n ≤ 0xFFFF then '\\' :: 'u' :: upperHex 4 n
    else '\\' :: 'U' :: upperHex 8 n

/-- So many spaces. -/
def spaces (n : Nat) : List Char := List.replicate n ' '

/-- Lines with their indentation: it stands behind every break that no further break follows. -/
def indented (n : Nat) : Bool → List Char → List Char
  | _, [] => []
  | broken, c :: rest =>
    if isBreak c then c :: indented n true rest
    else if broken then spaces n ++ c :: indented n false rest
    else c :: indented n false rest

/-- A character between single quotes: a quote is written twice. -/
def doubled (c : Char) : List Char := if c = '\'' then [c, c] else [c]

/-- A text between single quotes. -/
def singleQuotedChars (n : Nat) (cs : List Char) : List Char :=
  let closing := if cs.getLast?.any isBreak then spaces n else []
  '\'' :: (indented n false cs).flatMap doubled ++ closing ++ ['\'']

theorem indented_line (n : Nat) {cs : List Char} (h : ∀ c ∈ cs, isBreak c = false) :
    indented n false cs = cs := by
  induction cs with
  | nil => rfl
  | cons c rest ih =>
    have hc := h c (by simp)
    simp [indented, hc, ih fun d hd => h d (by simp [hd])]

theorem flatMap_doubled {cs : List Char} (h : ∀ c ∈ cs, c ≠ '\'') : cs.flatMap doubled = cs := by
  induction cs with
  | nil => rfl
  | cons c rest ih =>
    rw [List.flatMap_cons, ih fun d hd => h d (by simp [hd])]
    simp [doubled, h c (by simp)]

theorem singleQuotedChars_of_plain (n : Nat) {cs : List Char}
    (hb : ∀ c ∈ cs, isBreak c = false) (hq : ∀ c ∈ cs, c ≠ '\'') :
    singleQuotedChars n cs = '\'' :: cs ++ ['\''] := by
  have hl : cs.getLast?.any isBreak = false := by
    cases hg : cs.getLast? with
    | none => rfl
    | some c => simpa using hb c (List.mem_of_getLast? hg)
  simp only [singleQuotedChars, hl, indented_line n hb, flatMap_doubled hq]
  simp

/-- The sign behind the bar: how the end of the text is kept. -/
def chompSign (cs : List Char) : List Char :=
  match cs.reverse with
  | [] => ['-']
  | [c] => if isBreak c then ['+'] else ['-']
  | c :: d :: _ => if !isBreak c then ['-'] else if isBreak d then ['+'] else []

/-- The header of a text that is written line by line. -/
def literalHeader (cs : List Char) : List Char :=
  let hint := if cs.head?.any fun c => c == ' ' || isBreak c then ['2'] else []
  '|' :: hint ++ chompSign cs

/-- A text in a style; its further lines are indented by `n`. -/
def scalarChars (n : Nat) (style : Style) (cs : List Char) : List Char :=
  match style with
  | .plain => cs
  | .singleQuoted => singleQuotedChars n cs
  | .doubleQuoted => '"' :: cs.flatMap escaped ++ ['"']
  | .literal | .folded => literalHeader cs ++ '\n' :: indented n true cs

/-- A text in its style. -/
def textChars (n : Nat) (s : String) : List Char := scalarChars n (styleOf s) s.toList

/-- A scalar to the end of its line. -/
def lineChars (cs : List Char) : List Char :=
  if cs.getLast?.any isBreak then cs else cs ++ ['\n']

/-! ### Values -/

/-- The text of a number. -/
def realChars (x : Float) : List Char :=
  if x.isNaN then ['.', 'n', 'a', 'n']
  else if x.isFinite then Decimal.Notation.yaml.ofFloat x
  else if x < 0 then ['-', '.', 'i', 'n', 'f']
  else ['.', 'i', 'n', 'f']

/-- Whether a key stands on one line with its colon: it has one line of at most 128 bytes. -/
def isSimpleKey (s : String) : Bool := !s.toList.any isBreak && s.utf8ByteSize ≤ 128

mutual

/-- A value behind the key of an entry at column `n`, to the end of its last line. -/
def valueChars (n : Nat) : Json → List Char
  | .obj (m :: rest) => '\n' :: entriesChars (n + 2) true (m :: rest)
  | .arr (v :: rest) => '\n' :: itemsChars n true (v :: rest)
  | v => ' ' :: leafChars (n + 2) v

/-- A value behind a sign at column `n`; its first line is the line of the sign. -/
def besideChars (n : Nat) : Json → List Char
  | .obj (m :: rest) => ' ' :: entriesChars (n + 2) false (m :: rest)
  | .arr (v :: rest) => ' ' :: itemsChars (n + 2) false (v :: rest)
  | v => ' ' :: leafChars (n + 2) v

/-- A scalar or an empty collection, to the end of its line. -/
def leafChars (n : Nat) : Json → List Char
  | .null => ['n', 'u', 'l', 'l', '\n']
  | .bool true => ['t', 'r', 'u', 'e', '\n']
  | .bool false => ['f', 'a', 'l', 's', 'e', '\n']
  | .int i => lineChars (Decimal.intChars i)
  | .real x => lineChars (realChars x)
  | .str s => lineChars (textChars n s)
  | .arr _ => ['[', ']', '\n']
  | .obj _ => ['{', '}', '\n']

/-- The entries of a mapping at column `n`; `fresh` tells whether the first one begins a line. -/
def entriesChars (n : Nat) (fresh : Bool) : List (String × Json) → List Char
  | [] => []
  | (k, v) :: rest =>
    let margin := if fresh then spaces n else []
    let entry :=
      if isSimpleKey k then textChars n k ++ ':' :: valueChars n v
      else '?' :: ' ' :: lineChars (textChars (n + 2) k) ++ spaces n ++ ':' :: besideChars n v
    margin ++ entry ++ entriesChars n true rest

/-- The elements of a sequence at column `n`; `fresh` tells whether the first one begins a line. -/
def itemsChars (n : Nat) (fresh : Bool) : List Json → List Char
  | [] => []
  | v :: rest =>
    let margin := if fresh then spaces n else []
    margin ++ '-' :: besideChars n v ++ itemsChars n true rest

end

/-- The lines of a value. -/
def documentChars : Json → List Char
  | .obj (m :: rest) => entriesChars 0 true (m :: rest)
  | .arr (v :: rest) => itemsChars 0 true (v :: rest)
  | v => leafChars 2 v

/-- The text of a value. -/
def write (v : Json) : String := String.ofList (documentChars v)

end AgentSwarm.Yaml

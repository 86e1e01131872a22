/-
**The tokens of a YAML text.**

Indentation becomes tokens that open and close block collections.  What turns out to be the key of a
mapping has been read as a scalar before: the tokens that make it a key are then put in front of it.
A key must end on its line and within a bound; inside flow collections indentation does not count.

Main definitions:

* `AgentSwarm.Yaml.Token` — a token;
* `AgentSwarm.Yaml.Scan` — a text that has been divided up to a place;
* `AgentSwarm.Yaml.Scan.fetch` — one more token, or several;
* `AgentSwarm.Yaml.Token.ofText?` — the tokens of a text.

Main results:

* `AgentSwarm.Yaml.Scan.getLast?_of_run?` — the tokens of a text end with its end.
-/

import AgentSwarm.Yaml.Scalar

set_option relaxedAutoImplicit false
set_option autoImplicit false

namespace AgentSwarm.Yaml

/-- A token of a YAML text. -/
inductive Token where
  | version (major minor : Nat)
  | tagPrefix (handle whole : String)
  | documentStart
  | documentEnd
  | textEnd
  | blockSequence
  | blockMapping
  | blockEnd
  | flowSequence
  | flowSequenceEnd
  | flowMapping
  | flowMappingEnd
  /-- A dash before an element. -/
  | entry
  /-- A comma. -/
  | comma
  | key
  | value
  | reference (name : String)
  | anchor (name : String)
  | tag (handle suffix : String)
  | scalar (text : String) (style : Style)
deriving DecidableEq, Repr, Inhabited

/-- The place of a token that may turn out to be a key. -/
structure PossibleKey where
  /-- How many tokens stand before it. -/
  position : Nat
  index : Nat
  line : Nat
  column : Nat
  /-- Whether it must be a key. -/
  isRequired : Bool
deriving Repr, Inhabited

/-- A text that has been divided up to a place. -/
structure Scan where
  behind : Cursor
  tokens : Array Token
  /-- The column of the innermost block collection; negative outside of all. -/
  indent : Int
  /-- The columns of the collections around it, innermost first. -/
  outer : List Int
  /-- Whether a key may begin here. -/
  allowsKey : Bool
  /-- The possible keys of all flow collections around the place, innermost first, and of the block
  around them. -/
  keys : List (Option PossibleKey)
deriving Inhabited

namespace Scan

/-- A text of which nothing has been divided. -/
def start (text : List Char) : Scan := ⟨.start text, #[], -1, [], true, [none]⟩

/-- Whether the place is in a flow collection. -/
def inFlow (s : Scan) : Bool := 1 < s.keys.length

/-- The column of the place. -/
def column (s : Scan) : Nat := s.behind.column

/-- The scan with one more token. -/
def push (s : Scan) (t : Token) : Scan := { s with tokens := s.tokens.push t }

/-- The scan behind some characters that make a token. -/
def take (s : Scan) (n : Nat) (t : Token) : Scan := { s.push t with behind := s.behind.skipBy n }

/-! ### Possible keys -/

/-- How many characters a key may have. -/
def keyBound : Nat := 1024

/-- Whether a possible key is too far back. -/
def isStale (c : Cursor) (k : PossibleKey) : Bool := k.line < c.line || k.index + keyBound < c.index

/-- The possible keys that are not too far back; none when one is that must be a key. -/
def freshKeys (c : Cursor) : List (Option PossibleKey) → Option (List (Option PossibleKey))
  | [] => some []
  | none :: rest => (freshKeys c rest).map (none :: ·)
  | some k :: rest =>
    if !isStale c k then (freshKeys c rest).map (some k :: ·)
    else if k.isRequired then none
    else (freshKeys c rest).map (none :: ·)

/-- The scan without possible keys that are too far back. -/
def dropStale (s : Scan) : Option Scan :=
  (freshKeys s.behind s.keys).map fun keys => { s with keys }

/-- The scan without the innermost possible key. -/
def dropKey (s : Scan) : Option Scan :=
  match s.keys with
  | some k :: rest => if k.isRequired then none else some { s with keys := none :: rest }
  | _ => some s

/-- The scan with the next token as a possible key. -/
def saveKey (s : Scan) : Option Scan :=
  if !s.allowsKey then some s
  else do
    let s ← s.dropKey
    let c := s.behind
    let k : PossibleKey :=
      ⟨s.tokens.size, c.index, c.line, c.column, !s.inFlow && s.indent == (c.column : Int)⟩
    return { s with keys := some k :: s.keys.drop 1 }

/-! ### Indentation -/

/-- The tokens that close the collections right of a column, the indentation and the columns of the
collections around it. -/
def closeBlocks (column : Int) : Int → List Int → Array Token → Array Token × Int × List Int
  | indent, [], tokens =>
    if column < indent then (tokens.push .blockEnd, -1, []) else (tokens, indent, [])
  | indent, next :: outer, tokens =>
    if column < indent then closeBlocks column next outer (tokens.push .blockEnd)
    else (tokens, indent, next :: outer)

/-- The scan with the collections right of a column closed. -/
def unroll (s : Scan) (column : Int) : Scan :=
  if s.inFlow then s
  else
    let (tokens, indent, outer) := closeBlocks column s.indent s.outer s.tokens
    { s with tokens, indent, outer }

/-- The scan with a collection opened at a column, if that is right of the innermost one; the token
goes to a position. -/
def roll (s : Scan) (column position : Nat) (t : Token) : Scan :=
  if s.inFlow || (column : Int) ≤ s.indent then s
  else
    { s with
      tokens := s.tokens.insertIdxIfInBounds position t
      outer := s.indent :: s.outer
      indent := column }

/-! ### Between tokens -/

/-- The place of the next token, and whether a key may begin there. -/
def nextPlace (flow : Bool) : Nat → Bool → Cursor → Bool × Cursor
  | 0, allowsKey, c => (allowsKey, c)
  | fuel + 1, allowsKey, c =>
    let c := if c.index = 0 && startsIn ['\ufeff'] c.rest then c.skip else c
    let c := c.skipWhile fun ch => ch == ' ' || ((flow || !allowsKey) && ch == '\t')
    let c := if startsIn ['#'] c.rest then c.skipWhile (!isBreak ·) else c
    match c.takeBreak? with
    | some (_, c) => nextPlace flow fuel (allowsKey || !flow) c
    | none => (allowsKey, c)

/-- The scan at the place of the next token. -/
def toNext (s : Scan) : Scan :=
  let (allowsKey, behind) := nextPlace s.inFlow (s.behind.rest.length + 1) s.allowsKey s.behind
  { s with allowsKey, behind }

/-! ### Marks and directives -/

/-- The scan at the margin, with all collections closed. -/
def toMargin (s : Scan) : Option Scan := do
  let s ← (s.unroll (-1)).dropKey
  return { s with allowsKey := false }

/-- The end of the text. -/
def fetchEnd (s : Scan) : Option Scan := do
  let c := s.behind
  let behind := if c.column = 0 then c else c.nextLine 0
  let s ← { s with behind }.toMargin
  return s.push .textEnd

/-- A mark between documents. -/
def fetchMark (s : Scan) (t : Token) : Option Scan := do return (← s.toMargin).take 3 t

/-- A number of at most nine digits. -/
def readNumber (c : Cursor) : Option (Nat × Cursor) :=
  let (digits, c) := c.span Char.isDigit
  if digits.isEmpty || 9 < digits.length then none
  else some (digits.foldl (fun n d => n * 10 + (d.toNat - 48)) 0, c)

/-- The characters of a tag after its handle. -/
def isTagChar (c : Char) : Bool :=
  isNameChar c || [';', '/', '?', ':', '@', '&', '=', '+', '$', '.', '!', '~', '*', '\'', '(', ')',
    '%'].contains c

/-- The bytes of escapes that follow one another, and the text behind them. -/
def escapedBytes : Nat → List Char → Option (List Nat × List Char)
  | 0, cs => some ([], cs)
  | n + 1, '%' :: a :: b :: rest => do
    let byte ← hexNumber? [a, b]
    let (more, cs) ← escapedBytes n rest
    return (byte :: more, cs)
  | _ + 1, _ => none

/-- How many bytes a character has whose first byte is given. -/
def byteCount (byte : Nat) : Option Nat :=
  if byte < 0x80 then some 1
  else if 0xC0 ≤ byte && byte < 0xE0 then some 2
  else if 0xE0 ≤ byte && byte < 0xF0 then some 3
  else if 0xF0 ≤ byte && byte < 0xF8 then some 4
  else none

/-- The characters of a tag; an escape stands for a byte. -/
def unescapeTag : Nat → List Char → Option (List Char)
  | 0, _ => none
  | _ + 1, [] => some []
  | fuel + 1, c :: rest =>
    if c != '%' then (unescapeTag fuel rest).map (c :: ·)
    else do
      let first ← hexNumber? (rest.take 2)
      if rest.length < 2 then none
      let count ← byteCount first
      let (bytes, behind) ← escapedBytes count (c :: rest)
      let text ← String.fromUTF8? (ByteArray.mk (bytes.map Nat.toUInt8).toArray)
      return text.toList ++ (← unescapeTag fuel behind)

/-- The rest of a tag, after the part that its handle has left. -/
def readTagText (verbatim : Bool) (head : List Char) (c : Cursor) : Option (String × Cursor) := do
  let (taken, c) := c.span fun ch => isTagChar ch || (verbatim && [',', '[', ']'].contains ch)
  let text ← unescapeTag (taken.length + 1) taken
  let all := head.drop 1 ++ text
  if head.isEmpty && taken.isEmpty then none
  return (String.ofList all, c)

/-- The handle of a tag: an exclamation mark, perhaps with a name and another one. -/
def readHandle (directive : Bool) (c : Cursor) : Option (List Char × Cursor) :=
  match c.rest with
  | '!' :: _ =>
    let (name, c) := c.skip.span isNameChar
    match c.rest with
    | '!' :: _ => some ('!' :: (name ++ ['!']), c.skip)
    | _ => if directive && !name.isEmpty then none else some ('!' :: name, c)
  | _ => none

/-- The value of a directive. -/
def readDirective (name : List Char) (c : Cursor) : Option (Token × Cursor) := do
  if name = ['Y', 'A', 'M', 'L'] then
    let (major, c) ← readNumber (c.skipWhile isBlank)
    if !startsIn ['.'] c.rest then none
    let (minor, c) ← readNumber c.skip
    return (.version major minor, c)
  else if name = ['T', 'A', 'G'] then
    let (handle, c) ← readHandle true (c.skipWhile isBlank)
    if !startsIn [' ', '\t'] c.rest then none
    let (whole, c) ← readTagText true [] (c.skipWhile isBlank)
    if !endsWord c.rest then none
    return (.tagPrefix (String.ofList handle) whole, c)
  else none

/-- A directive, with the end of its line. -/
def fetchDirective (s : Scan) : Option Scan := do
  let s ← s.toMargin
  let (name, c) := s.behind.skip.span isNameChar
  if name.isEmpty || !endsWord c.rest then none
  let (t, c) ← readDirective name c
  let c := c.skipWhile isBlank
  let c := if startsIn ['#'] c.rest then c.skipWhile (!isBreak ·) else c
  if c.rest.isEmpty then return { s.push t with behind := c }
  let (_, c) ← c.takeBreak?
  return { s.push t with behind := c }

/-! ### Collections -/

/-- The beginning of a flow collection. -/
def openFlow (s : Scan) (t : Token) : Option Scan := do
  let s ← s.saveKey
  return { s with keys := none :: s.keys, allowsKey := true }.take 1 t

/-- The end of a flow collection. -/
def closeFlow (s : Scan) (t : Token) : Option Scan := do
  let s ← s.dropKey
  let keys := if s.inFlow then s.keys.drop 1 else s.keys
  return { s with keys, allowsKey := false }.take 1 t

/-- A comma. -/
def fetchComma (s : Scan) : Option Scan := do
  return { (← s.dropKey) with allowsKey := true }.take 1 .comma

/-- A dash before an element. -/
def fetchEntry (s : Scan) : Option Scan := do
  if !s.inFlow && !s.allowsKey then none
  let s := s.roll s.column s.tokens.size .blockSequence
  return { (← s.dropKey) with allowsKey := true }.take 1 .entry

/-- A question mark before a key. -/
def fetchKey (s : Scan) : Option Scan := do
  if !s.inFlow && !s.allowsKey then none
  let s := s.roll s.column s.tokens.size .blockMapping
  return { (← s.dropKey) with allowsKey := !s.inFlow }.take 1 .key

/-- A colon behind a key. -/
def fetchValue (s : Scan) : Option Scan :=
  match s.keys with
  | some k :: rest =>
    let s := { s with tokens := s.tokens.insertIdxIfInBounds k.position .key }
    let s := s.roll k.column k.position .blockMapping
    some ({ s with keys := none :: rest, allowsKey := false }.take 1 .value)
  | _ =>
    if !s.inFlow && !s.allowsKey then none
    else
      let s := s.roll s.column s.tokens.size .blockMapping
      some ({ s with allowsKey := !s.inFlow }.take 1 .value)

/-! ### Nodes -/

/-- An anchor or a reference to one. -/
def fetchName (s : Scan) (token : String → Token) : Option Scan := do
  let s ← s.saveKey
  let (name, c) := s.behind.skip.span isNameChar
  let ends := endsWord c.rest || startsIn ['?', ':', ',', ']', '}', '%', '@', '`'] c.rest
  if name.isEmpty || !ends then none
  return { s.push (token (String.ofList name)) with behind := c, allowsKey := false }

/-- The handle and the suffix of a tag. -/
def readTag (c : Cursor) : Option (Token × Cursor) :=
  match c.rest with
  | '!' :: '<' :: _ => do
    let (text, c) ← readTagText true [] (c.skipBy 2)
    if startsIn ['>'] c.rest then return (.tag "" text, c.skip) else none
  | _ => do
    let (handle, c) ← readHandle false c
    if 1 < handle.length && handle.getLast? == some '!' then
      let (suffix, c) ← readTagText false [] c
      return (.tag (String.ofList handle) suffix, c)
    else
      let (suffix, c) ← readTagText false handle c
      if suffix = "" then return (.tag "" "!", c) else return (.tag "!" suffix, c)

/-- A tag. -/
def fetchTag (s : Scan) : Option Scan := do
  let s ← s.saveKey
  let (t, c) ← readTag s.behind
  if !(endsWord c.rest || (s.inFlow && startsIn [','] c.rest)) then none
  return { s.push t with behind := c, allowsKey := false }

/-- A block scalar. -/
def fetchBlock (s : Scan) (style : Style) : Option Scan := do
  let s ← s.dropKey
  let (text, behind) ← readBlock (style == .literal) s.indent s.behind.skip
  return { s.push (.scalar (String.ofList text) style) with behind, allowsKey := true }

/-- A quoted scalar. -/
def fetchQuoted (s : Scan) (style : Style) : Option Scan := do
  let s ← s.saveKey
  let (text, behind) ← readQuoted (style == .singleQuoted) s.behind.skip
  return { s.push (.scalar (String.ofList text) style) with behind, allowsKey := false }

/-- A plain scalar. -/
def fetchPlain (s : Scan) : Option Scan := do
  let s ← s.saveKey
  let p ← readPlain s.inFlow (s.indent + 1).toNat s.behind
  return { s.push (.scalar (String.ofList p.text) .plain) with
    behind := p.behind, allowsKey := p.endsLine }

/-- The characters that no plain scalar begins with, unless more is known. -/
def signs : List Char :=
  ['-', '?', ':', ',', '[', ']', '{', '}', '#', '&', '*', '!', '|', '>', '\'', '"', '%', '@', '`']

/-- Whether a plain scalar begins with a character before a text. -/
def beginsPlain (flow : Bool) (ch : Char) (rest : List Char) : Bool :=
  !signs.contains ch || (ch == '-' && !startsIn [' ', '\t'] rest) ||
    (!flow && (ch == '?' || ch == ':') && !endsWord rest)

/-! ### Dividing a text -/

/-- The token at the place of the scan, which has the character `ch` there. -/
def fetchAt (s : Scan) (ch : Char) (rest : List Char) : Option Scan :=
  let c := s.behind
  let stands := s.inFlow || endsWord rest
  if c.column = 0 && ch == '%' then s.fetchDirective
  else if c.hasMark Cursor.startMark then s.fetchMark .documentStart
  else if c.hasMark Cursor.endMark then s.fetchMark .documentEnd
  else if ch == '[' then s.openFlow .flowSequence
  else if ch == '{' then s.openFlow .flowMapping
  else if ch == ']' then s.closeFlow .flowSequenceEnd
  else if ch == '}' then s.closeFlow .flowMappingEnd
  else if ch == ',' then s.fetchComma
  else if ch == '-' && endsWord rest then s.fetchEntry
  else if ch == '?' && stands then s.fetchKey
  else if ch == ':' && stands then s.fetchValue
  else if ch == '*' then s.fetchName .reference
  else if ch == '&' then s.fetchName .anchor
  else if ch == '!' then s.fetchTag
  else if ch == '|' && !s.inFlow then s.fetchBlock .literal
  else if ch == '>' && !s.inFlow then s.fetchBlock .folded
  else if ch == '\'' then s.fetchQuoted .singleQuoted
  else if ch == '"' then s.fetchQuoted .doubleQuoted
  else if beginsPlain s.inFlow ch rest && !isBlank ch then s.fetchPlain
  else none

/-- The scan with one more token, or several; none when the text is broken. -/
def fetch (s : Scan) : Option Scan := do
  let s ← s.toNext.dropStale
  let s := s.unroll s.column
  match s.behind.rest with
  | [] => s.fetchEnd
  | ch :: rest => s.fetchAt ch rest

/-- The tokens of the text; none when it is broken. -/
def run? : Nat → Scan → Option (List Token)
  | 0, _ => none
  | fuel + 1, s => do
    let next ← s.fetch
    if next.tokens.back? = some .textEnd then some next.tokens.toList else run? fuel next

theorem getLast?_of_run? {fuel : Nat} {s : Scan} {tokens : List Token}
    (h : run? fuel s = some tokens) : tokens.getLast? = some .textEnd := by
  induction fuel generalizing s with
  | zero => simp [run?] at h
  | succ fuel ih =>
    simp only [run?, Option.bind_eq_bind, Option.bind_eq_some_iff] at h
    obtain ⟨next, -, h⟩ := h
    split at h
    · rename_i hb
      cases h
      simpa using hb
    · exact ih h

end Scan

/-- The tokens of a text; none when it is broken. -/
def Token.ofText? (text : String) : Option (List Token) :=
  let cs := text.toList
  if cs.all isAllowed then (Scan.start cs).run? (cs.length + 2) else none

end AgentSwarm.Yaml

/-
**Reading scalars.**

A plain or quoted scalar may go over several lines: a single break becomes a space, and further
breaks are kept.  A block scalar keeps its lines, or folds them in the same way.

Main definitions:

* `AgentSwarm.Yaml.Style`, `AgentSwarm.Yaml.Gap` — how a scalar is written, and what stands between
  two of its words;
* `AgentSwarm.Yaml.readPlain`, `AgentSwarm.Yaml.readQuoted`, `AgentSwarm.Yaml.readBlock` — the text
  of a scalar and the place behind it; none when it is broken.
-/

import AgentSwarm.Yaml.Cursor

set_option relaxedAutoImplicit false
set_option autoImplicit false

namespace AgentSwarm.Yaml

/-- How a scalar is written. -/
inductive Style where
  | plain | singleQuoted | doubleQuoted | literal | folded
deriving DecidableEq, Repr, Inhabited

/-! ### Gaps -/

/-- What stands between two words of a scalar. -/
structure Gap where
  /-- The blanks, as long as there is no break. -/
  blanks : List Char
  /-- The first break; an escaped one is empty. -/
  first : Option (List Char)
  /-- The further breaks. -/
  more : List Char
deriving Inhabited

namespace Gap

/-- Nothing. -/
def none : Gap := ⟨[], Option.none, []⟩

/-- What a gap is worth: a single break is a space. -/
def fill (g : Gap) : List Char :=
  match g.first with
  | Option.none => g.blanks
  | some ['\n'] => if g.more.isEmpty then [' '] else g.more
  | some first => first ++ g.more

/-- Whether a gap goes over the end of a line. -/
def isBroken (g : Gap) : Bool := g.first.isSome

end Gap

/-- The blanks and breaks at a place, after those of a gap; a tabulator may not stand before the
column `indent` of a further line. -/
def readGap (indent : Nat) : Nat → Gap → Cursor → Option (Gap × Cursor)
  | 0, g, c => some (g, c)
  | fuel + 1, g, c =>
    match c.rest with
    | [] => some (g, c)
    | ch :: _ =>
      if isBlank ch then
        if !g.isBroken then readGap indent fuel { g with blanks := g.blanks ++ [ch] } c.skip
        else if c.column < indent && ch == '\t' then none
        else readGap indent fuel g c.skip
      else
        match c.takeBreak? with
        | none => some (g, c)
        | some (b, c) =>
          if g.isBroken then readGap indent fuel { g with more := g.more ++ [b] } c
          else readGap indent fuel ⟨[], some [b], []⟩ c

/-! ### Plain scalars -/

/-- The characters of a plain scalar up to a blank, or up to a sign that ends it; none when a colon
stands before a sign of a flow collection. -/
def plainRun (flow : Bool) : List Char → Option (List Char)
  | [] => some []
  | c :: rest =>
    if isBlank c || isBreak c then some []
    else if c == ':' then
      if flow && startsIn [',', '?', '[', ']', '{', '}'] rest then none
      else if endsWord rest then some []
      else (plainRun flow rest).map (c :: ·)
    else if flow && [',', '[', ']', '{', '}'].contains c then some []
    else (plainRun flow rest).map (c :: ·)

/-- A scalar's text, whether it was followed by a line break, and the place behind it. -/
structure PlainText where
  text : List Char
  endsLine : Bool
  behind : Cursor
deriving Inhabited

/-- The rest of a plain scalar, after a gap. -/
def readPlainFrom (flow : Bool) (indent : Nat) : Nat → Gap → List Char → Cursor → Option PlainText
  | 0, g, text, c => some ⟨text, g.isBroken, c⟩
  | fuel + 1, g, text, c =>
    if c.atMark || startsIn ['#'] c.rest then some ⟨text, g.isBroken, c⟩
    else do
      let run ← plainRun flow c.rest
      let (g, text) := if run.isEmpty then (g, text) else (Gap.none, text ++ g.fill ++ run)
      let c := c.skipBy run.length
      if c.rest.isEmpty || !endsWord c.rest then return ⟨text, g.isBroken, c⟩
      let (g, c) ← readGap indent (c.rest.length + 1) g c
      if !flow && c.column < indent then return ⟨text, g.isBroken, c⟩
      readPlainFrom flow indent fuel g text c

/-- A plain scalar; its further lines begin at least at the column `indent`, unless it stands in a
flow collection. -/
def readPlain (flow : Bool) (indent : Nat) (c : Cursor) : Option PlainText :=
  readPlainFrom flow indent (c.rest.length + 1) .none [] c

/-! ### Quoted scalars -/

/-- The value of a hexadecimal digit. -/
def hexDigit? (c : Char) : Option Nat :=
  if c.isDigit then some (c.toNat - 48)
  else if 'a' ≤ c && c ≤ 'f' then some (c.toNat - 87)
  else if 'A' ≤ c && c ≤ 'F' then some (c.toNat - 55)
  else none

/-- The number of some hexadecimal digits. -/
def hexNumber? (cs : List Char) : Option Nat :=
  cs.foldlM (fun n c => (hexDigit? c).map fun d => n * 16 + d) 0

/-- The characters that an escape of one letter stands for. -/
def shortEscapes : List (Char × Char) :=
  [('0', '\x00'), ('a', '\x07'), ('b', '\x08'), ('t', '\t'), ('\t', '\t'), ('n', '\n'),
    ('v', '\x0b'), ('f', '\x0c'), ('r', '\r'), ('e', '\x1b'), (' ', ' '), ('"', '"'), ('/', '/'),
    ('\\', '\\'), ('N', '\u0085'), ('_', '\u00a0'), ('L', '\u2028'), ('P', '\u2029')]

/-- How many digits follow an escape that gives a number. -/
def escapeWidths : List (Char × Nat) := [('x', 2), ('u', 4), ('U', 8)]

/-- The character of the escape after a backslash, and how long the escape is. -/
def readEscape : List Char → Option (Char × Nat)
  | [] => none
  | e :: rest =>
    match shortEscapes.lookup e with
    | some c => some (c, 1)
    | none => do
      let width ← escapeWidths.lookup e
      if rest.length < width then none
      let n ← hexNumber? (rest.take width)
      if (0xD800 ≤ n && n ≤ 0xDFFF) || 0x10FFFF < n then none
      return (Char.ofNat n, width + 1)

/-- The characters of a quoted scalar up to a blank, a break or the closing quote, whether an
escaped break came last, and the place behind them. -/
def quotedRun (single : Bool) : Nat → List Char → Cursor → Option (List Char × Bool × Cursor)
  | 0, got, c => some (got, false, c)
  | fuel + 1, got, c =>
    match c.rest with
    | [] => some (got, false, c)
    | ch :: rest =>
      if isBlank ch || isBreak ch then some (got, false, c)
      else if single then
        if ch == '\'' then
          if startsIn ['\''] rest then quotedRun single fuel (got ++ [ch]) (c.skipBy 2)
          else some (got, false, c)
        else quotedRun single fuel (got ++ [ch]) c.skip
      else if ch == '"' then some (got, false, c)
      else if ch == '\\' then
        match c.skip.takeBreak? with
        | some (_, c) => some (got, true, c)
        | none => do
          let (d, n) ← readEscape rest
          quotedRun single fuel (got ++ [d]) (c.skipBy (n + 1))
      else quotedRun single fuel (got ++ [ch]) c.skip

/-- The rest of a quoted scalar, after what has been read of it. -/
def readQuotedFrom (single : Bool) : Nat → List Char → Cursor → Option (List Char × Cursor)
  | 0, _, _ => none
  | fuel + 1, text, c =>
    if c.atMark then none
    else do
      let (run, escaped, c) ← quotedRun single (c.rest.length + 1) [] c
      let text := text ++ run
      match c.rest with
      | [] => none
      | ch :: _ =>
        if ch == (if single then '\'' else '"') then return (text, c.skip)
        let g : Gap := if escaped then ⟨[], some [], []⟩ else .none
        let (g, c) ← readGap 0 (c.rest.length + 1) g c
        readQuotedFrom single fuel (text ++ g.fill) c

/-- A quoted scalar whose opening quote has been read. -/
def readQuoted (single : Bool) (c : Cursor) : Option (List Char × Cursor) :=
  readQuotedFrom single (c.rest.length + 1) [] c

/-! ### Block scalars -/

/-- What becomes of the breaks at the end of a block scalar. -/
inductive Chomp where
  | strip | clip | keep
deriving DecidableEq, Repr, Inhabited

/-- The sign that says what becomes of the last breaks. -/
def readChomp (c : Cursor) : Chomp × Cursor :=
  match c.rest with
  | '+' :: _ => (.keep, c.skip)
  | '-' :: _ => (.strip, c.skip)
  | _ => (.clip, c)

/-- The digit that gives the indentation; zero is none. -/
def readIndent (c : Cursor) : Option (Option Nat × Cursor) :=
  match c.rest with
  | d :: _ =>
    if d == '0' then none
    else if d.isDigit then some (some (d.toNat - 48), c.skip)
    else some (none, c)
  | [] => some (none, c)

/-- The signs behind the bar or angle of a block scalar, in either order, up to the next line. -/
def readHeader (c : Cursor) : Option (Chomp × Option Nat × Cursor) := do
  let (chomp, c) := readChomp c
  let (indent, c) ← readIndent c
  let (chomp, c) := if chomp = .clip then readChomp c else (chomp, c)
  let c := c.skipWhile isBlank
  let c := if startsIn ['#'] c.rest then c.skipWhile (!isBreak ·) else c
  if c.rest.isEmpty then return (chomp, indent, c)
  let (_, c) ← c.takeBreak?
  return (chomp, indent, c)

/-- The empty lines at a place, up to the column `indent` of the next one, or, as long as that is
zero, to any column; with it the greatest column that was reached. -/
def readBreaks (indent : Nat) : Nat → Nat → List Char → Cursor → Option (Nat × List Char × Cursor)
  | 0, deepest, breaks, c => some (deepest, breaks, c)
  | fuel + 1, deepest, breaks, c =>
    let spaces := (c.rest.takeWhile (· == ' ')).length
    let c := c.skipBy (if indent = 0 then spaces else min spaces (indent - c.column))
    let deepest := max deepest c.column
    if (indent = 0 || c.column < indent) && startsIn ['\t'] c.rest then none
    else
      match c.takeBreak? with
      | none => some (deepest, breaks, c)
      | some (b, c) => readBreaks indent fuel deepest (breaks ++ [b]) c

/-- A block scalar of which some lines have been read. -/
structure BlockText where
  text : List Char
  /-- The break behind the last line. -/
  lead : List Char
  /-- The empty lines behind that. -/
  breaks : List Char
  /-- Whether the last line began with a blank. -/
  afterBlank : Bool
  behind : Cursor
deriving Inhabited

/-- The text between the last line and a further one, which begins with a blank or not. -/
def BlockText.join (b : BlockText) (literal blank : Bool) : List Char :=
  if !literal && b.lead == ['\n'] && !b.afterBlank && !blank then
    if b.breaks.isEmpty then [' '] else b.breaks
  else b.lead ++ b.breaks

/-- The further lines of a block scalar. -/
def readLines (literal : Bool) (indent : Nat) : Nat → BlockText → Option BlockText
  | 0, b => some b
  | fuel + 1, b =>
    let c := b.behind
    if c.column ≠ indent || c.rest.isEmpty then some b
    else do
      let blank := startsIn [' ', '\t'] c.rest
      let (line, c) := c.span (!isBreak ·)
      let (lead, c) := match c.takeBreak? with
        | some (ch, c) => ([ch], c)
        | none => ([], c)
      let (_, breaks, c) ← readBreaks indent (c.rest.length + 1) 0 [] c
      readLines literal indent fuel ⟨b.text ++ b.join literal blank ++ line, lead, breaks, blank, c⟩

/-- A block scalar whose bar or angle has been read, below a collection at the column `parent`, or
below none when that is negative. -/
def readBlock (literal : Bool) (parent : Int) (c : Cursor) : Option (List Char × Cursor) := do
  let (chomp, indent, c) ← readHeader c
  let given := match indent with
    | some n => if 0 ≤ parent then parent.toNat + n else n
    | none => 0
  let (deepest, breaks, c) ← readBreaks given (c.rest.length + 1) 0 [] c
  let indent := if given = 0 then max (max deepest (parent + 1).toNat) 1 else given
  let b ← readLines literal indent (c.rest.length + 1) ⟨[], [], breaks, false, c⟩
  let tail := match chomp with
    | .strip => []
    | .clip => b.lead
    | .keep => b.lead ++ b.breaks
  return (b.text ++ tail, b.behind)

end AgentSwarm.Yaml

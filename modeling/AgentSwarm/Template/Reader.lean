/-
**Reading templates.**

A template is cut into tags and texts.  A backslash before braces makes them plain text; more
backslashes give one less and leave the braces a tag.  A tag for a section or a comment that is
alone on its line takes the line with it.  The pieces are then nested by their sections.

Main definitions:

* `AgentSwarm.Template.cut` — the tags and texts of a template;
* `AgentSwarm.Template.tidy` — the texts without the blanks that the tags eat;
* `AgentSwarm.Template.parse` — the nodes of a template.
-/

import AgentSwarm.Template.Tag

set_option relaxedAutoImplicit false
set_option autoImplicit false

namespace AgentSwarm.Template

open AgentSwarm

/-! ### Lines -/

/-- The blanks inside a line. -/
def isGap (c : Char) : Bool := c == ' ' || c == '\t'

/-- Whether a character ends a line. -/
def isLineEnd (c : Char) : Bool := c == '\n' || c == '\r'

/-- Whether a text, given backwards, ends in a line of blanks. -/
def endsLine (before : List Char) : Bool :=
  match before.dropWhile isGap with
  | [] => true
  | c :: _ => isLineEnd c

/-- Whether a text starts with blanks and the end of a line. -/
def startsLine (after : List Char) : Bool :=
  match after.dropWhile isGap with
  | [] => false
  | c :: _ => isLineEnd c

/-- The text after the first end of a line, which only blanks precede. -/
def dropLineEnd (cs : List Char) : List Char :=
  match cs.dropWhile isGap with
  | '\r' :: '\n' :: rest => rest
  | '\n' :: rest => rest
  | rest => rest

/-! ### Cutting -/

/-- A text piece, unless it is empty; the text is given backwards. -/
def textPiece (text : List Char) : List Piece := if text.isEmpty then [] else [.text text.reverse]

/-- How many backslashes stand at the front, when opening braces follow them. -/
def escapesBraces (cs : List Char) : Nat :=
  match cs.dropWhile (· == '\\') with
  | '{' :: '{' :: _ => (cs.takeWhile (· == '\\')).length
  | _ => 0

/-- The pieces of a template.  `before` is all that has been read, `text` the text since the last
tag, both backwards. -/
def cutFrom : Nat → List Char → List Char → List Char → Option (List Piece)
  | 0, _, _, _ => none
  | fuel + 1, before, text, cs =>
    match cs with
    | [] => some (textPiece text)
    | '{' :: '{' :: rest => do
      let (tag, eatsBefore, eatsAfter, after) ← readTag rest
      let ownLine := tag.takesLine && endsLine before && startsLine after
      let read := cs.take (cs.length - after.length)
      let pieces ← cutFrom fuel (read.reverse ++ before) [] after
      return textPiece text ++ .tag tag ⟨eatsBefore, eatsAfter, ownLine⟩ :: pieces
    | '\\' :: rest =>
      match escapesBraces ('\\' :: rest) with
      | 0 => cutFrom fuel ('\\' :: before) ('\\' :: text) rest
      | 1 =>
        let braces := ((rest.takeWhile (· == '{')).take 4)
        let braces := if braces.length = 4 then braces else braces.take 2
        cutFrom fuel (braces ++ '\\' :: before) (braces ++ text) (rest.drop braces.length)
      | n + 1 =>
        let slashes := List.replicate n '\\'
        cutFrom fuel ('\\' :: slashes ++ before) (slashes ++ text) (rest.drop n)
    | c :: rest => cutFrom fuel (c :: before) (c :: text) rest

/-- The tags and texts of a template. -/
def cut (source : List Char) : Option (List Piece) := cutFrom (source.length + 1) [] [] source

/-! ### Blanks -/

/-- A text as it is left by the tags before and after it. -/
def tidyText (left right : Option Margins) (cs : List Char) : List Char :=
  let cs :=
    match left with
    | some m => if m.eatsAfter then Text.trimStart cs else if m.ownLine then dropLineEnd cs else cs
    | none => cs
  match right with
  | some m =>
    let cs := if m.eatsBefore then Text.trimEnd cs else cs
    if m.ownLine then (cs.reverse.dropWhile isGap).reverse else cs
  | none => cs

/-- The margins of a tag that comes next. -/
def nextMargins : List Piece → Option Margins
  | .tag _ m :: _ => some m
  | _ => none

/-- The pieces without the blanks that tags eat; `left` are the margins of the tag before. -/
def tidy (left : Option Margins) : List Piece → List Piece
  | [] => []
  | .text cs :: rest => .text (tidyText left (nextMargins rest) cs) :: tidy none rest
  | .tag t m :: rest => .tag t m :: tidy (some m) rest

/-! ### Nesting -/

mutual

/-- The nodes up to a tag that ends the section or its branch. -/
def readNodes : Nat → List Piece → Option (List Node × List Piece)
  | 0, _ => none
  | _ + 1, [] => some ([], [])
  | fuel + 1, .text cs :: rest => do
    let (nodes, rest) ← readNodes fuel rest
    return (.text cs :: nodes, rest)
  | fuel + 1, .tag t m :: rest =>
    match t with
    | .comment => readNodes fuel rest
    | .value x => do
      let (nodes, rest) ← readNodes fuel rest
      return (.value x :: nodes, rest)
    | .call c => do
      let (nodes, rest) ← readNodes fuel rest
      return (.call c :: nodes, rest)
    | .insertion => do
      let (nodes, rest) ← readNodes fuel rest
      return (.insertion :: nodes, rest)
    | .opening c => do
      let (node, rest) ← readSection fuel c.name c rest
      let (nodes, rest) ← readNodes fuel rest
      return (node :: nodes, rest)
    | .otherwise c => some ([], .tag (.otherwise c) m :: rest)
    | .closing name => some ([], .tag (.closing name) m :: rest)

/-- A section after its opening tag, which a tag with the name `closing` closes. -/
def readSection : Nat → String → Call → List Piece → Option (Node × List Piece)
  | 0, _, _, _ => none
  | fuel + 1, closing, c, pieces => do
    let (body, rest) ← readNodes fuel pieces
    match rest with
    | .tag (.closing name) _ :: rest =>
      if name = closing then return (.branch c body [], rest) else none
    | .tag (.otherwise (some inner)) _ :: rest =>
      let (node, rest) ← readSection fuel closing inner rest
      return (.branch c body [node], rest)
    | .tag (.otherwise none) _ :: rest =>
      let (other, rest) ← readNodes fuel rest
      match rest with
      | .tag (.closing name) _ :: rest =>
        if name = closing then return (.branch c body other, rest) else none
      | _ => none
    | _ => none

end

/-- The nodes of a template, if it is well formed. -/
def parse (source : String) : Option (List Node) := do
  let pieces ← cut source.toList
  let (nodes, rest) ← readNodes (2 * pieces.length + 1) (tidy none pieces)
  if rest.isEmpty then some nodes else none

end AgentSwarm.Template

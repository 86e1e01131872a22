/-
**The nodes of a YAML text.**

A document is a tree of scalars, sequences and mappings.  A text must be a single document.

Main definitions:

* `AgentSwarm.Yaml.Node` — a node;
* `AgentSwarm.Yaml.Document` — a document with the nodes of its anchors;
* `AgentSwarm.Yaml.Document.ofTokens?`, `AgentSwarm.Yaml.Document.ofText?` — the document of tokens
  and of a text.
-/

import AgentSwarm.Yaml.Token

set_option relaxedAutoImplicit false
set_option autoImplicit false

namespace AgentSwarm.Yaml

/-! ### Nodes -/

/-- A scalar with its tag, if it has one. -/
structure Scalar where
  text : String
  style : Style
  tag : Option String
deriving DecidableEq, Repr, Inhabited

/-- A node of a document. -/
inductive Node where
  /-- Not even an empty scalar: the document of an empty text. -/
  | void
  | scalar (s : Scalar)
  | sequence (items : List Node)
  /-- Entries in the order of the text. -/
  | mapping (entries : List (Node × Node))
  /-- The node of an anchor. -/
  | reference (anchor : Nat)
deriving Inhabited

/-- The scalar for a node that is left out. -/
def Node.empty : Node := .scalar ⟨"", .plain, none⟩

/-- A document. -/
structure Document where
  root : Node
  /-- The nodes with anchors, latest first. -/
  anchors : List (Nat × Node)
deriving Inhabited

/-! ### Building nodes -/

/-- Tokens still to come, and the anchors so far. -/
structure Builder where
  tokens : List Token
  /-- Handles of tags with what they stand for. -/
  handles : List (String × String)
  /-- The anchors by their names. -/
  names : List (String × Nat)
  nodes : List (Nat × Node)
deriving Inhabited

namespace Builder

/-- The builder with some tokens still to come. -/
def behind (b : Builder) (tokens : List Token) : Builder := { b with tokens }

/-- Gives the anchor of a name a number. -/
def nameAnchor (b : Builder) (name : String) : Builder × Nat :=
  let id := b.names.length
  let others := b.names.filter (·.1 != name)
  ({ b with names := (name, id) :: others }, id)

/-- The number of the anchor, if there is one. -/
def openAnchor (b : Builder) : Option String → Builder × Option Nat
  | none => (b, none)
  | some name =>
    let (b, id) := b.nameAnchor name
    (b, some id)

/-- Keeps the node of an anchor. -/
def keep (b : Builder) (id : Option Nat) (n : Node) : Builder :=
  match id with
  | none => b
  | some id => { b with nodes := (id, n) :: b.nodes }

/-- The tag that a handle and a suffix make. -/
def tagOf (b : Builder) (handle suffix : String) : Option String :=
  if handle = "" then some suffix
  else (b.handles.lookup handle).map (· ++ suffix)

/-- Anchor and tag before a node, in either order; none when the handle of the tag is unknown. -/
def properties (b : Builder) : Option (Option String × Option String × Builder) :=
  match b.tokens with
  | .anchor name :: .tag handle suffix :: rest =>
    (b.tagOf handle suffix).map fun tag => (some name, some tag, b.behind rest)
  | .anchor name :: rest => some (some name, none, b.behind rest)
  | .tag handle suffix :: .anchor name :: rest =>
    (b.tagOf handle suffix).map fun tag => (some name, some tag, b.behind rest)
  | .tag handle suffix :: rest =>
    (b.tagOf handle suffix).map fun tag => (none, some tag, b.behind rest)
  | _ => some (none, none, b)

/-- Whether a value follows in a block mapping, after its key or its colon. -/
def opensBlockNode : Token → Bool
  | .key | .value | .blockEnd => false
  | _ => true

/-- Whether a node follows in a flow mapping. -/
def opensMappingNode : Token → Bool
  | .value | .comma | .flowMappingEnd => false
  | _ => true

/-- Whether a node follows in a flow sequence. -/
def opensSequenceNode : Token → Bool
  | .value | .comma | .flowSequenceEnd => false
  | _ => true

mutual

/-- A node; `block` tells whether block collections may begin here, `dashes` whether elements may
follow without indentation of their own. -/
def node : Nat → Bool → Bool → Builder → Option (Node × Builder)
  | 0, _, _, _ => none
  | fuel + 1, block, dashes, b =>
    match b.tokens with
    | .reference name :: rest => (b.names.lookup name).map fun id => (.reference id, b.behind rest)
    | _ => do
      let (name, tag, b) ← b.properties
      content fuel block dashes name tag b

/-- A node behind its anchor and its tag. -/
def content : Nat → Bool → Bool → Option String → Option String → Builder → Option (Node × Builder)
  | 0, _, _, _, _, _ => none
  | fuel + 1, block, dashes, name, tag, b =>
    let (opened, id) := b.openAnchor name
    let found (n : Node) (b : Builder) : Node × Builder := (n, b.keep id n)
    let bare : Option (Node × Builder) :=
      if name.isSome || tag.isSome then some (found (.scalar ⟨"", .plain, tag⟩) opened) else none
    match b.tokens with
    | .scalar text style :: rest => some (found (.scalar ⟨text, style, tag⟩) (opened.behind rest))
    | .flowSequence :: rest => do
      let (items, b) ← flowItems fuel true (opened.behind rest)
      return found (.sequence items) b
    | .flowMapping :: rest => do
      let (entries, b) ← flowEntries fuel true (opened.behind rest)
      return found (.mapping entries) b
    | .entry :: _ =>
      if dashes then do
        let (items, b) ← dashItems fuel opened
        return found (.sequence items) b
      else bare
    | .blockSequence :: rest =>
      if block then do
        let (items, b) ← blockItems fuel (opened.behind rest)
        return found (.sequence items) b
      else bare
    | .blockMapping :: rest =>
      if block then do
        let (entries, b) ← blockEntries fuel (opened.behind rest)
        return found (.mapping entries) b
      else bare
    | [] => none
    | _ => bare

/-- The elements of a block sequence. -/
def blockItems : Nat → Builder → Option (List Node × Builder)
  | 0, _ => none
  | fuel + 1, b =>
    match b.tokens with
    | .entry :: t :: rest => do
      let b := b.behind (t :: rest)
      let (n, b) ←
        if t = .entry || t = .blockEnd then some (Node.empty, b) else node fuel true false b
      let (items, b) ← blockItems fuel b
      return (n :: items, b)
    | .blockEnd :: rest => some ([], b.behind rest)
    | _ => none

/-- The elements of a sequence without indentation of its own. -/
def dashItems : Nat → Builder → Option (List Node × Builder)
  | 0, _ => none
  | fuel + 1, b =>
    match b.tokens with
    | .entry :: t :: rest => do
      let b := b.behind (t :: rest)
      let (n, b) ←
        if t = .entry || !opensBlockNode t then some (Node.empty, b) else node fuel true false b
      let (items, b) ← dashItems fuel b
      return (n :: items, b)
    | _ => some ([], b)

/-- A node of a block mapping behind its key or its colon, perhaps left out. -/
def blockPart : Nat → Builder → Option (Node × Builder)
  | 0, _ => none
  | fuel + 1, b =>
    match b.tokens with
    | [] => none
    | t :: _ => if opensBlockNode t then node fuel true true b else some (Node.empty, b)

/-- The value of an entry of a block mapping. -/
def blockValue : Nat → Builder → Option (Node × Builder)
  | 0, _ => none
  | fuel + 1, b =>
    match b.tokens with
    | .value :: rest => blockPart fuel (b.behind rest)
    | _ => some (Node.empty, b)

/-- The entries of a block mapping. -/
def blockEntries : Nat → Builder → Option (List (Node × Node) × Builder)
  | 0, _ => none
  | fuel + 1, b =>
    match b.tokens with
    | .key :: rest => do
      let (k, b) ← blockPart fuel (b.behind rest)
      let (v, b) ← blockValue fuel b
      let (entries, b) ← blockEntries fuel b
      return ((k, v) :: entries, b)
    | .blockEnd :: rest => some ([], b.behind rest)
    | _ => none

/-- A pair that stands for a mapping in a flow sequence, behind its question mark or in its place.
A colon there is passed over. -/
def flowPair : Nat → Builder → Option (Node × Builder)
  | 0, _ => none
  | fuel + 1, b => do
    let (k, b) ←
      match b.tokens with
      | [] => none
      | t :: rest =>
        if opensSequenceNode t then node fuel false false b else some (Node.empty, b.behind rest)
    let (v, b) ←
      match b.tokens with
      | .value :: t :: rest =>
        let b := b.behind (t :: rest)
        if t = .comma || t = .flowSequenceEnd then some (Node.empty, b) else node fuel false false b
      | _ => some (Node.empty, b)
    return (.mapping [(k, v)], b)

/-- The elements of a flow sequence; `first` tells whether none has been read. -/
def flowItems : Nat → Bool → Builder → Option (List Node × Builder)
  | 0, _, _ => none
  | fuel + 1, first, b =>
    let more (b : Builder) : Option (List Node × Builder) :=
      match b.tokens with
      | .flowSequenceEnd :: rest => some ([], b.behind rest)
      | .key :: rest => do
        let (n, b) ← flowPair fuel (b.behind rest)
        let (items, b) ← flowItems fuel false b
        return (n :: items, b)
      | _ => do
        let (n, b) ← node fuel false false b
        let (items, b) ← flowItems fuel false b
        return (n :: items, b)
    match b.tokens with
    | .flowSequenceEnd :: rest => some ([], b.behind rest)
    | .comma :: rest => if first then more b else more (b.behind rest)
    | _ => if first then more b else none

/-- The value of an entry of a flow mapping. -/
def flowValue : Nat → Builder → Option (Node × Builder)
  | 0, _ => none
  | fuel + 1, b =>
    match b.tokens with
    | .value :: t :: rest =>
      let b := b.behind (t :: rest)
      if t = .comma || t = .flowMappingEnd then some (Node.empty, b) else node fuel false false b
    | _ => some (Node.empty, b)

/-- The entries of a flow mapping; `first` tells whether none has been read. -/
def flowEntries : Nat → Bool → Builder → Option (List (Node × Node) × Builder)
  | 0, _, _ => none
  | fuel + 1, first, b =>
    let more (b : Builder) : Option (List (Node × Node) × Builder) :=
      match b.tokens with
      | .flowMappingEnd :: rest => some ([], b.behind rest)
      | .key :: t :: rest => do
        let b := b.behind (t :: rest)
        let (k, b) ← if opensMappingNode t then node fuel false false b else some (Node.empty, b)
        let (v, b) ← flowValue fuel b
        let (entries, b) ← flowEntries fuel false b
        return ((k, v) :: entries, b)
      | _ => do
        let (k, b) ← node fuel false false b
        let (entries, b) ← flowEntries fuel false b
        return ((k, Node.empty) :: entries, b)
    match b.tokens with
    | .flowMappingEnd :: rest => some ([], b.behind rest)
    | .comma :: rest => if first then more b else more (b.behind rest)
    | _ => if first then more b else none

end

/-! ### Documents -/

/-- What the two handles stand for that need no directive. -/
def knownHandles : List (String × String) := [("!", "!"), ("!!", "tag:yaml.org,2002:")]

/-- Whether a token is a directive. -/
def isDirective : Token → Bool
  | .version _ _ | .tagPrefix _ _ => true
  | _ => false

/-- The handles that directives give; none when they are wrong. -/
def readDirectives : List Token → Bool → List (String × String) →
    Option (List (String × String) × List Token)
  | .version major minor :: rest, seen, handles =>
    if seen || major ≠ 1 || (minor ≠ 1 && minor ≠ 2) then none
    else readDirectives rest true handles
  | .tagPrefix handle whole :: rest, seen, handles =>
    if (handles.lookup handle).isSome then none
    else readDirectives rest seen ((handle, whole) :: handles)
  | rest, _, handles => some (handles, rest)

/-- Whether only the end of the text follows a document. -/
def endsText (tokens : List Token) : Bool := tokens.dropWhile (· == .documentEnd) == [.textEnd]

/-- A number of steps that suffices. -/
def enough (tokens : List Token) : Nat := 4 * tokens.length + 4

/-- The document of some tokens, behind which the text ends. -/
def document? (handles : List (String × String)) (tokens : List Token) : Option Document := do
  let b : Builder := ⟨tokens, handles ++ knownHandles, [], []⟩
  let (root, b) ← node (enough tokens) true false b
  if endsText b.tokens then some ⟨root, b.nodes⟩ else none

/-- The document behind its mark; it may be left out. -/
def markedDocument? (handles : List (String × String)) (tokens : List Token) : Option Document :=
  match tokens with
  | .documentEnd :: _ | .textEnd :: _ => if endsText tokens then some ⟨.empty, []⟩ else none
  | tokens => document? handles tokens

end Builder

namespace Document

/-- The document of some tokens; none when they are not one document. -/
def ofTokens? (tokens : List Token) : Option Document :=
  match tokens with
  | [] => none
  | .textEnd :: _ => some ⟨.void, []⟩
  | t :: rest =>
    if Builder.isDirective t || t = .documentStart then
      match Builder.readDirectives (t :: rest) false [] with
      | some (handles, .documentStart :: rest) => Builder.markedDocument? handles rest
      | _ => none
    else Builder.document? [] (t :: rest)

/-- The document of a text; none when the text is not one document. -/
def ofText? (text : String) : Option Document := (Token.ofText? text).bind ofTokens?

end Document

end AgentSwarm.Yaml

/-
**Reading JSON.**

Values are read from the front of a list of characters; a reader returns the value and the text
after it.  Containers may be nested 127 deep.  The members of an object are kept as they stand, with
equal keys and in the order of the text; `JsonOf.settle` puts them in order.

A value that nobody wants is passed over by `skipValue`, which asks less of it: nesting may be
deeper, numbers may be out of range and surrogates may be alone.

Main definitions:

* `AgentSwarm.Json.readString`, `AgentSwarm.Json.readValue`, `AgentSwarm.Json.skipValue`;
* `AgentSwarm.Json.nextItem`, `AgentSwarm.Json.nextKey` — the steps between elements and members;
* `AgentSwarm.Json.parse` — a whole text as one settled value.
-/

import AgentSwarm.Json.Number

set_option relaxedAutoImplicit false
set_option autoImplicit false

namespace AgentSwarm.Json

/-! ### Blanks and words -/

/-- The blanks allowed between the parts of a JSON text. -/
def isSpace (c : Char) : Bool := c == ' ' || c == '\n' || c == '\t' || c == '\r'

/-- The text from its first character that is not a blank. -/
def skipSpace (cs : List Char) : List Char := cs.dropWhile isSpace

/-- The text after the given letters. -/
def readWord : List Char → List Char → Except Fault (List Char)
  | [], cs => .ok cs
  | _ :: _, [] => .error (.before .eofInValue [])
  | w :: ws, c :: cs => if w = c then readWord ws cs else .error (.at .expectedWord (c :: cs))

/-! ### Strings -/

/-- The value of a hexadecimal digit. -/
def hexValue (c : Char) : Option Nat :=
  let n := c.toNat
  if 48 ≤ n && n ≤ 57 then some (n - 48)
  else if 97 ≤ n && n ≤ 102 then some (n - 87)
  else if 65 ≤ n && n ≤ 70 then some (n - 55)
  else none

/-- The unread bytes after four bytes of a text; none when it has fewer. -/
def afterFourBytes (cs : List Char) : Option Nat :=
  let n := Text.utf8Length cs
  if 4 ≤ n then some (n - 4) else none

/-- The code unit of four hexadecimal digits. -/
def readHex (cs : List Char) : Except Fault (Nat × List Char) :=
  let invalid : Except Fault (Nat × List Char) :=
    match afterFourBytes cs with
    | some unread => .error ⟨.invalidEscape, unread⟩
    | none => .error (.before .eofInString [])
  match cs with
  | a :: b :: c :: d :: rest =>
    match hexValue a, hexValue b, hexValue c, hexValue d with
    | some a, some b, some c, some d => .ok (((a * 16 + b) * 16 + c) * 16 + d, rest)
    | _, _, _, _ => invalid
  | _ => invalid

/-- Whether a code unit is the first of a surrogate pair. -/
def isHighSurrogate (n : Nat) : Bool := 0xD800 ≤ n && n ≤ 0xDBFF

/-- Whether a code unit is the second of a surrogate pair. -/
def isLowSurrogate (n : Nat) : Bool := 0xDC00 ≤ n && n ≤ 0xDFFF

/-- The character of a surrogate pair. -/
def pairChar (high low : Nat) : Char :=
  Char.ofNat (0x10000 + (high - 0xD800) * 0x400 + (low - 0xDC00))

/-- The character of a code unit whose escape has been read, with the second escape of a pair. -/
def readUnit (n : Nat) (rest : List Char) : Except Fault (Char × List Char) :=
  if isLowSurrogate n then .error (.before .loneSurrogate rest)
  else if !isHighSurrogate n then .ok (Char.ofNat n, rest)
  else
    match rest with
    | [] => .error (.before .eofInString [])
    | '\\' :: [] => .error (.before .eofInString [])
    | '\\' :: 'u' :: rest' => do
      let (m, rest'') ← readHex rest'
      if isLowSurrogate m then return (pairChar n m, rest'')
      else throw (.before .loneSurrogate rest'')
    | '\\' :: rest' => .error (.at .endOfHexEscape rest')
    | rest' => .error (.at .endOfHexEscape rest')

/-- The character of an escape whose backslash has been read. -/
def readEscape : List Char → Except Fault (Char × List Char)
  | [] => .error (.before .eofInString [])
  | c :: rest =>
    match c with
    | '"' => .ok ('"', rest)
    | '\\' => .ok ('\\', rest)
    | '/' => .ok ('/', rest)
    | 'b' => .ok ('\x08', rest)
    | 'f' => .ok ('\x0c', rest)
    | 'n' => .ok ('\n', rest)
    | 'r' => .ok ('\r', rest)
    | 't' => .ok ('\t', rest)
    | 'u' => do
      let (n, rest') ← readHex rest
      readUnit n rest'
    | _ => .error (.at .invalidEscape (c :: rest))

/-- The characters up to the closing quote, after those already read, which are held in reverse. -/
def readStringFrom : Nat → List Char → List Char → Except Fault (List Char × List Char)
  | 0, _, _ => .error (.before .eofInString [])
  | _ + 1, _, [] => .error (.before .eofInString [])
  | fuel + 1, got, c :: rest =>
    if c = '"' then .ok (got.reverse, rest)
    else if c = '\\' then do
      let (d, rest') ← readEscape rest
      readStringFrom fuel (d :: got) rest'
    else if c.toNat < 0x20 then .error (.at .controlCharacter (c :: rest))
    else readStringFrom fuel (c :: got) rest

/-- A string whose opening quote has been read. -/
def readString (cs : List Char) : Except Fault (String × List Char) := do
  let (got, rest) ← readStringFrom (cs.length + 1) [] cs
  return (String.ofList got, rest)

/-- The text after a string whose opening quote has been read; surrogates may be alone in it. -/
def skipStringFrom : Nat → List Char → Except Fault (List Char)
  | 0, _ => .error (.before .eofInString [])
  | _ + 1, [] => .error (.before .eofInString [])
  | fuel + 1, c :: rest =>
    if c = '"' then .ok rest
    else if c = '\\' then
      match rest with
      | 'u' :: rest' => do
        let (_, rest'') ← readHex rest'
        skipStringFrom fuel rest''
      | _ => do
        let (_, rest') ← readEscape rest
        skipStringFrom fuel rest'
    else if c.toNat < 0x20 then .error (.at .controlCharacter (c :: rest))
    else skipStringFrom fuel rest

/-- The text after a string whose opening quote has been read. -/
def skipString (cs : List Char) : Except Fault (List Char) := skipStringFrom (cs.length + 1) cs

/-! ### Steps inside containers -/

/-- Before an element: the text at it, or none where the list ends.  `first` tells whether no
element has been read. -/
def nextItem (first : Bool) (cs : List Char) : Except Fault (Option (List Char)) :=
  match skipSpace cs with
  | [] => .error (.before .eofInList [])
  | c :: rest =>
    if c = ']' then .ok none
    else if first then .ok (some (c :: rest))
    else if c = ',' then
      match skipSpace rest with
      | [] => .error (.before .eofInValue [])
      | d :: rest' => if d = ']' then .error (.at .trailingComma (d :: rest'))
        else .ok (some (d :: rest'))
    else .error (.at .expectedListCommaOrEnd (c :: rest))

/-- Before a member: the text after the quote that opens its key, or none where the object ends. -/
def nextKey (first : Bool) (cs : List Char) : Except Fault (Option (List Char)) :=
  match skipSpace cs with
  | [] => .error (.before .eofInObject [])
  | c :: rest =>
    if c = '}' then .ok none
    else if first then
      if c = '"' then .ok (some rest) else .error (.at .keyNotString (c :: rest))
    else if c = ',' then
      match skipSpace rest with
      | [] => .error (.before .eofInValue [])
      | d :: rest' =>
        if d = '"' then .ok (some rest')
        else if d = '}' then .error (.at .trailingComma (d :: rest'))
        else .error (.at .keyNotString (d :: rest'))
    else .error (.at .expectedObjectCommaOrEnd (c :: rest))

/-- The text after the colon behind a key. -/
def readColon (cs : List Char) : Except Fault (List Char) :=
  match skipSpace cs with
  | [] => .error (.before .eofInObject [])
  | c :: rest => if c = ':' then .ok rest else .error (.at .expectedColon (c :: rest))

/-- The text after the bracket that ends a list. -/
def endList (cs : List Char) : Except Fault (List Char) :=
  match skipSpace cs with
  | [] => .error (.before .eofInList [])
  | c :: rest =>
    if c = ']' then .ok rest
    else if c = ',' then
      match skipSpace rest with
      | ']' :: rest' => .error (.at .trailingComma (']' :: rest'))
      | rest' => .error (.at .trailingCharacters rest')
    else .error (.at .trailingCharacters (c :: rest))

/-- The text after the brace that ends an object. -/
def endObject (cs : List Char) : Except Fault (List Char) :=
  match skipSpace cs with
  | [] => .error (.before .eofInObject [])
  | c :: rest =>
    if c = '}' then .ok rest
    else if c = ',' then .error (.at .trailingComma (c :: rest))
    else .error (.at .trailingCharacters (c :: rest))

/-- Nothing but blanks may follow. -/
def endText (cs : List Char) : Except Fault Unit :=
  match skipSpace cs with
  | [] => .ok ()
  | rest => .error (.at .trailingCharacters rest)

/-! ### Values -/

/-- How deep containers may be nested, plus one. -/
def depthLimit : Nat := 128

mutual

/-- A value; `depth` counts how many containers may still be opened, plus one. -/
def readValueAt : Nat → Nat → List Char → Except Fault (Json × List Char)
  | 0, _, cs => .error (.before .eofInValue cs)
  | fuel + 1, depth, cs =>
    match skipSpace cs with
    | [] => .error (.before .eofInValue [])
    | c :: rest =>
      if c = 'n' then do return (.null, ← readWord ['u', 'l', 'l'] rest)
      else if c = 't' then do return (.bool true, ← readWord ['r', 'u', 'e'] rest)
      else if c = 'f' then do return (.bool false, ← readWord ['a', 'l', 's', 'e'] rest)
      else if c = '-' then readNumber true rest
      else if c.isDigit then readNumber false (c :: rest)
      else if c = '"' then do
        let (s, rest') ← readString rest
        return (.str s, rest')
      else if c = '[' then
        if depth ≤ 1 then .error (.at .tooDeep (c :: rest))
        else do
          let (items, rest') ← readItemsAt fuel (depth - 1) true rest
          return (.arr items, rest')
      else if c = '{' then
        if depth ≤ 1 then .error (.at .tooDeep (c :: rest))
        else do
          let (members, rest') ← readMembersAt fuel (depth - 1) true rest
          return (.obj members, rest')
      else .error (.at .expectedValue (c :: rest))

/-- The elements of a list and the text after its closing bracket. -/
def readItemsAt : Nat → Nat → Bool → List Char → Except Fault (List Json × List Char)
  | 0, _, _, cs => .error (.before .eofInList cs)
  | fuel + 1, depth, first, cs => do
    match ← nextItem first cs with
    | none => return ([], ← endList cs)
    | some cs =>
      let (v, cs) ← readValueAt fuel depth cs
      let (vs, cs) ← readItemsAt fuel depth false cs
      return (v :: vs, cs)

/-- The members of an object and the text after its closing brace. -/
def readMembersAt : Nat → Nat → Bool → List Char → Except Fault (List (String × Json) × List Char)
  | 0, _, _, cs => .error (.before .eofInObject cs)
  | fuel + 1, depth, first, cs => do
    match ← nextKey first cs with
    | none => return ([], ← endObject cs)
    | some cs =>
      let (k, cs) ← readString cs
      let cs ← readColon cs
      let (v, cs) ← readValueAt fuel depth cs
      let (rest, cs) ← readMembersAt fuel depth false cs
      return ((k, v) :: rest, cs)

end

/-- A value, with as many container levels left as `depth` says. -/
def readValue (depth : Nat) (cs : List Char) : Except Fault (Json × List Char) :=
  readValueAt (2 * cs.length + 2) depth cs

mutual

/-- The text after a value. -/
def skipValueAt : Nat → List Char → Except Fault (List Char)
  | 0, cs => .error (.before .eofInValue cs)
  | fuel + 1, cs =>
    match skipSpace cs with
    | [] => .error (.before .eofInValue [])
    | c :: rest =>
      if c = 'n' then readWord ['u', 'l', 'l'] rest
      else if c = 't' then readWord ['r', 'u', 'e'] rest
      else if c = 'f' then readWord ['a', 'l', 's', 'e'] rest
      else if c = '-' then do return (← readLiteral true rest).2
      else if c.isDigit then do return (← readLiteral false (c :: rest)).2
      else if c = '"' then skipString rest
      else if c = '[' then skipItemsAt fuel true rest
      else if c = '{' then skipMembersAt fuel true rest
      else .error (.at .expectedValue (c :: rest))

/-- The text after the bracket that closes a list. -/
def skipItemsAt : Nat → Bool → List Char → Except Fault (List Char)
  | 0, _, cs => .error (.before .eofInList cs)
  | fuel + 1, first, cs => do
    match ← nextItem first cs with
    | none => endList cs
    | some cs => skipItemsAt fuel false (← skipValueAt fuel cs)

/-- The text after the brace that closes an object. -/
def skipMembersAt : Nat → Bool → List Char → Except Fault (List Char)
  | 0, _, cs => .error (.before .eofInObject cs)
  | fuel + 1, first, cs => do
    match ← nextKey first cs with
    | none => endObject cs
    | some cs => skipMembersAt fuel false (← skipValueAt fuel (← readColon (← skipString cs)))

end

/-- The text after a value that is not wanted. -/
def skipValue (cs : List Char) : Except Fault (List Char) := skipValueAt (2 * cs.length + 2) cs

/-- A whole text as one value, its objects in order. -/
def parse (text : String) : Except Fault Json := do
  let (v, rest) ← readValue depthLimit text.toList
  endText rest
  return v.settle

end AgentSwarm.Json

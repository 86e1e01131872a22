/-
**The JSON object in a completion.**

A completion holds its object in a fence marked `json`, in any fence, or simply between the first
opening and the last closing brace.  The first of these that is there counts; an empty fence is as
good as none.

Main definitions:

* `AgentSwarm.fenced`, `AgentSwarm.braced` — the text in a fence and the text between braces;
* `AgentSwarm.embeddedObject` — the text that is taken for the object.

Main results:

* `AgentSwarm.fenced_append` — what stands in a fence is found without the blanks around it.
-/

import AgentSwarm.Text.Blank

set_option relaxedAutoImplicit false
set_option autoImplicit false

namespace AgentSwarm

/-- What opens and closes a fence. -/
def fence : List Char := ['`', '`', '`']

/-- What opens a fence marked for JSON. -/
def jsonFence : List Char := ['`', '`', '`', 'j', 's', 'o', 'n']

/-- The trimmed text between the first `opening` and the next fence, unless it is empty. -/
def fenced (opening cs : List Char) : Option (List Char) := do
  let (_, after) ← Text.splitAtFirst opening cs
  let (inside, _) ← Text.splitAtFirst fence after
  let text := Text.trimChars inside
  if text.isEmpty then none else some text

/-- The text from the first opening brace to the last closing brace behind it. -/
def braced (cs : List Char) : Option (List Char) :=
  let inside := cs.dropWhile (· ≠ '\x7b')
  let text := (inside.reverse.dropWhile (· ≠ '\x7d')).reverse
  if text.isEmpty then none else some text

/-- The text that is taken for the object of a completion. -/
def embeddedObject (cs : List Char) : Option (List Char) :=
  ((fenced jsonFence cs).or (fenced fence cs)).or (braced cs)

theorem fenced_append {opening before inside after rest : List Char} {cs : List Char}
    (h : Text.splitAtFirst opening cs = some (before, rest))
    (hi : Text.splitAtFirst fence rest = some (inside, after))
    (hn : Text.trimChars inside ≠ []) : fenced opening cs = some (Text.trimChars inside) := by
  simp [fenced, h, hi, hn]

end AgentSwarm

/-
**A text shown in quotes.**

Messages show a piece of text between double quotes.  The quote, the backslash, the tab, the two line
ends and the zero character have escapes of two characters; other characters that do not show by
themselves are written by number.

Main definitions:

* `AgentSwarm.Text.quoted` — a text in double quotes.
-/

import AgentSwarm.Text.Hidden

set_option relaxedAutoImplicit false
set_option autoImplicit false

namespace AgentSwarm.Text

/-- A character as it is shown between quotes. -/
def shown (c : Char) : List Char :=
  if c = '"' then ['\\', '"']
  else if c = '\\' then ['\\', '\\']
  else if c = '\t' then ['\\', 't']
  else if c = '\n' then ['\\', 'n']
  else if c = '\r' then ['\\', 'r']
  else if c.toNat = 0 then ['\\', '0']
  else if 0x20 ≤ c.toNat && c.toNat < 0x7F then [c]
  else if isHidden c then ['\\', 'u', '\x7b'] ++ Nat.toDigits 16 c.toNat ++ ['\x7d']
  else [c]

/-- A text in double quotes. -/
def quotedChars (cs : List Char) : List Char := '"' :: (cs.flatMap shown ++ ['"'])

/-- A text in double quotes. -/
def quoted (s : String) : String := String.ofList (quotedChars s.toList)

end AgentSwarm.Text

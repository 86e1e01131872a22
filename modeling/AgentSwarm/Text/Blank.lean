/-
**Blank characters, trimming and searching.**

A character is blank when it has the Unicode property White_Space.  Names, environment settings
and the text between code fences are trimmed of blank characters at both ends before they are
read.  Names are compared after lowering their ASCII letters; no other letter is folded.

Main definitions:

* `AgentSwarm.Text.isBlank` — the Unicode property White_Space;
* `AgentSwarm.Text.trim` — a text without its blank ends;
* `AgentSwarm.Text.lowered` — a text with its ASCII letters in lower case;
* `AgentSwarm.Text.splitAtFirst` — the text before and after the first occurrence of a word;
* `AgentSwarm.Text.pieces` — the pieces of a text between separators.

Main results:

* `AgentSwarm.Text.trimStart_blank_append`, `AgentSwarm.Text.trimEnd_append_blank` — blanks put
  around a text do not change its trimming;
* `AgentSwarm.Text.eq_append_of_splitAtFirst`, `AgentSwarm.Text.joinWith_pieces` — splitting loses
  nothing.
-/

set_option relaxedAutoImplicit false
set_option autoImplicit false

namespace AgentSwarm.Text

/-! ### Blank characters -/

/-- The characters of Unicode's property White_Space. -/
def isBlank (c : Char) : Bool :=
  let n := c.toNat
  (0x09 ≤ n && n ≤ 0x0D) || n == 0x20 || n == 0x85 || n == 0xA0 || n == 0x1680 ||
    (0x2000 ≤ n && n ≤ 0x200A) || n == 0x2028 || n == 0x2029 || n == 0x202F || n == 0x205F ||
    n == 0x3000

/-- The characters from the first that is not blank. -/
def trimStart (cs : List Char) : List Char := cs.dropWhile isBlank

/-- The characters up to the last that is not blank. -/
def trimEnd (cs : List Char) : List Char := (cs.reverse.dropWhile isBlank).reverse

/-- The characters between the first and the last that are not blank. -/
def trimChars (cs : List Char) : List Char := trimEnd (trimStart cs)

/-- A text without its blank ends. -/
def trim (s : String) : String := String.ofList (trimChars s.toList)

/-- Whether a text has no character but blanks. -/
def isAllBlank (s : String) : Bool := s.toList.all isBlank

theorem trimStart_blank_append {u cs : List Char} (h : ∀ c ∈ u, isBlank c = true) :
    trimStart (u ++ cs) = trimStart cs := by
  induction u with
  | nil => rfl
  | cons c u ih =>
    have hc : isBlank c = true := h c (by simp)
    have hu : ∀ d ∈ u, isBlank d = true := fun d hd => h d (by simp [hd])
    simpa [trimStart, List.dropWhile_cons, hc] using ih hu

theorem trimEnd_append_blank {cs v : List Char} (h : ∀ c ∈ v, isBlank c = true) :
    trimEnd (cs ++ v) = trimEnd cs := by
  have hv : ∀ c ∈ v.reverse, isBlank c = true := fun c hc => h c (by simpa using hc)
  have := @trimStart_blank_append v.reverse cs.reverse hv
  simp only [trimStart] at this
  simp [trimEnd, List.reverse_append, this]

/-! ### Letters -/

/-- A text with its ASCII letters in lower case. -/
def lowered (s : String) : String := String.ofList (s.toList.map Char.toLower)

/-- A name as it is compared: trimmed, its ASCII letters in lower case. -/
def normalized (s : String) : String := lowered (trim s)

/-- A name as it is compared where hyphens and underscores are the same. -/
def normalizedSnake (s : String) : String :=
  String.ofList ((normalized s).toList.map fun c => if c = '-' then '_' else c)

/-! ### Searching -/

/-- What follows `word` when the text starts with it. -/
def stripPrefix? : List Char → List Char → Option (List Char)
  | [], cs => some cs
  | _ :: _, [] => none
  | w :: ws, c :: cs => if w = c then stripPrefix? ws cs else none

theorem stripPrefix?_append (w cs : List Char) : stripPrefix? w (w ++ cs) = some cs := by
  induction w with
  | nil => rfl
  | cons c w ih => simp [stripPrefix?, ih]

theorem eq_append_of_stripPrefix? {w cs rest : List Char} (h : stripPrefix? w cs = some rest) :
    cs = w ++ rest := by
  induction w generalizing cs with
  | nil => simpa [stripPrefix?] using h
  | cons c w ih =>
    cases cs with
    | nil => simp [stripPrefix?] at h
    | cons d cs =>
      by_cases hcd : c = d
      · simp only [stripPrefix?, hcd, if_true] at h
        simp [hcd, ih h]
      · simp [stripPrefix?, hcd] at h

/-- The text before and after the first occurrence of `word`. -/
def splitAtFirst (word : List Char) : List Char → Option (List Char × List Char)
  | [] => (stripPrefix? word []).map fun rest => ([], rest)
  | c :: cs =>
    match stripPrefix? word (c :: cs) with
    | some rest => some ([], rest)
    | none => (splitAtFirst word cs).map fun (before, after) => (c :: before, after)

theorem eq_append_of_splitAtFirst {word cs before after : List Char}
    (h : splitAtFirst word cs = some (before, after)) : cs = before ++ word ++ after := by
  induction cs generalizing before with
  | nil =>
    simp only [splitAtFirst, Option.map_eq_some_iff, Prod.mk.injEq] at h
    obtain ⟨rest, hr, rfl, rfl⟩ := h
    simpa using eq_append_of_stripPrefix? hr
  | cons c cs ih =>
    simp only [splitAtFirst] at h
    split at h
    · rename_i rest hr
      simp only [Option.some.injEq, Prod.mk.injEq] at h
      obtain ⟨rfl, rfl⟩ := h
      simpa using eq_append_of_stripPrefix? hr
    · simp only [Option.map_eq_some_iff, Prod.mk.injEq] at h
      obtain ⟨⟨b, a⟩, hba, rfl, rfl⟩ := h
      simp [ih hba]

/-- The number of bytes of a text in UTF-8. -/
def utf8Length (cs : List Char) : Nat := cs.foldl (fun n c => n + c.utf8Size) 0

/-- The texts joined, with `sep` between neighbours. -/
def joinWith (sep : List Char) : List (List Char) → List Char
  | [] => []
  | [a] => a
  | a :: b :: rest => a ++ sep ++ joinWith sep (b :: rest)

/-- The pieces of a text between separators; there is one more than separators. -/
def pieces (sep : Char) : List Char → List (List Char)
  | [] => [[]]
  | c :: rest =>
    if c = sep then [] :: pieces sep rest
    else
      match pieces sep rest with
      | [] => [[c]]
      | piece :: more => (c :: piece) :: more

theorem pieces_ne_nil (sep : Char) (cs : List Char) : pieces sep cs ≠ [] := by
  cases cs with
  | nil => simp [pieces]
  | cons c rest =>
    simp only [pieces]
    split
    · simp
    · split <;> simp

theorem joinWith_pieces (sep : Char) (cs : List Char) : joinWith [sep] (pieces sep cs) = cs := by
  induction cs with
  | nil => rfl
  | cons c rest ih =>
    simp only [pieces]
    split
    · rename_i h
      cases hp : pieces sep rest with
      | nil => exact absurd hp (pieces_ne_nil sep rest)
      | cons piece more => simp [joinWith, ← hp, ih, h]
    · cases hp : pieces sep rest with
      | nil => exact absurd hp (pieces_ne_nil sep rest)
      | cons piece more =>
        rw [hp] at ih
        cases more with
        | nil => simpa [joinWith] using ih
        | cons next more => simpa [joinWith] using ih

end AgentSwarm.Text

/-
**Identifiers are read back.**

What is read of an identifier are its 32 digits in lower case, whatever groups, braces or letters they
were given in.  They are written in five groups of the right lengths, without braces or words before
them, and such a text denotes the digits that it shows.

Main definitions:

* `AgentSwarm.Identifier.Canonical` — 32 hexadecimal digits in lower case.

Main results:

* `AgentSwarm.Identifier.canonical_of_parse` — what is read is canonical;
* `AgentSwarm.Identifier.parse_text` — **canonical digits are read back**.
-/

import AgentSwarm.Identifier
import AgentSwarm.Proofs.Text.Blank

set_option relaxedAutoImplicit false
set_option autoImplicit false

namespace AgentSwarm.Identifier

/-! ### Digits in lower case -/

/-- A hexadecimal digit in lower case. -/
def IsLowerHex (c : Char) : Prop := c.isDigit = true ∨ 'a' ≤ c ∧ c ≤ 'f'

theorem IsLowerHex.toLower_eq {c : Char} (h : IsLowerHex c) : c.toLower = c := by
  refine dif_neg ?_
  simp only [IsLowerHex, Char.isDigit, Char.le_def, Bool.and_eq_true, decide_eq_true_eq,
    UInt32.le_iff_toNat_le, ge_iff_le, Char.reduceVal, UInt32.reduceToNat] at h ⊢
  omega

theorem IsLowerHex.isHexDigit {c : Char} (h : IsLowerHex c) : Text.isHexDigit c = true := by
  rw [Text.isHexDigit, h.toLower_eq]
  simpa [IsLowerHex] using h

theorem isLowerHex_toLower {c : Char} (h : Text.isHexDigit c = true) : IsLowerHex c.toLower := by
  simp only [Text.isHexDigit, Bool.or_eq_true, Bool.and_eq_true, decide_eq_true_eq] at h
  rcases h with hdigit | hletter
  · rw [IsLowerHex.toLower_eq (.inl hdigit)]
    exact Or.inl hdigit
  · exact Or.inr hletter

theorem IsLowerHex.ne {c d : Char} (h : IsLowerHex c) (hd : Text.isHexDigit d = false) : c ≠ d := by
  rintro rfl
  rw [h.isHexDigit] at hd
  cases hd

/-- 32 hexadecimal digits in lower case. -/
def Canonical (digits : List Char) : Prop := digits.length = 32 ∧ ∀ c ∈ digits, IsLowerHex c

/-- What is read is canonical. -/
theorem canonical_of_parse {s : String} {digits : List Char} (h : parse s = .ok digits) :
    Canonical digits := by
  unfold parse at h
  simp only at h
  generalize (unwrap s.toList).1 = body at h
  split at h
  next hall =>
      obtain rfl := Except.ok.inj h
      simp only [Bool.and_eq_true, List.all_eq_true, Bool.or_eq_true, beq_iff_eq] at hall
      obtain ⟨hbody, hlengths⟩ := hall
      refine ⟨?_, fun c hc => ?_⟩
      · rw [List.length_map, ← Text.flatten_pieces, List.length_flatten]
        rcases hlengths with ⟨⟨-, hlength⟩, hgroups⟩ | hgroups
        · obtain ⟨g, hg⟩ := List.length_eq_one_iff.1 hgroups
          have hjoin := Text.joinWith_pieces '-' body
          rw [hg] at hjoin ⊢
          simpa [Text.joinWith, ← hlength] using congrArg List.length hjoin
        · rw [hgroups]
          rfl
      · obtain ⟨d, hd, rfl⟩ := List.mem_map.1 hc
        obtain ⟨hmem, hne⟩ := List.mem_filter.1 hd
        exact isLowerHex_toLower ((hbody d hmem).resolve_left (by simpa using hne))
  next =>
      split at h
      next => cases h
      next =>
          split at h
          next => cases h
          next => split at h <;> cases h

/-! ### Reading back -/

variable {digits : List Char}

/-- Without braces or words before it, a text is read as it stands. -/
theorem unwrap_of_isLowerHex {c : Char} {cs : List Char} (hc : IsLowerHex c) :
    unwrap (c :: cs) = (c :: cs, 0, true) := by
  have hbrace : c ≠ '{' := hc.ne (by decide)
  have hletter : 'u' ≠ c := (hc.ne (by decide)).symm
  have hstart : Text.stripPrefix? "urn:uuid:".toList (c :: cs) = none := if_neg hletter
  unfold unwrap
  split
  next heq _ => exact absurd (List.cons.inj heq).1 hbrace
  next => rw [hstart]

/-- The groups of the digits. -/
def groups (digits : List Char) : List (List Char) :=
  [digits.take 8, (digits.drop 8).take 4, (digits.drop 12).take 4, (digits.drop 16).take 4,
    digits.drop 20]

theorem flatten_groups (digits : List Char) : (groups digits).flatten = digits := by
  have hsplit (n m k : ℕ) (h : n + m = k) :
      (digits.drop n).take m ++ digits.drop k = digits.drop n := by
    rw [← h, ← List.drop_drop, List.take_append_drop]
  simp only [groups, List.flatten_cons, List.flatten_nil, List.append_nil]
  rw [hsplit 16 4 20 rfl, hsplit 12 4 16 rfl, hsplit 8 4 12 rfl, List.take_append_drop]

theorem pieces_text (h : ∀ c ∈ digits, IsLowerHex c) :
    Text.pieces '-' (text digits).toList = groups digits := by
  have hmem : '-' ∉ digits := fun hmem => (h _ hmem).ne (by decide) rfl
  have hfirst : '-' ∉ digits.take 8 := fun h => hmem (List.mem_of_mem_take h)
  have htake (n : ℕ) : '-' ∉ (digits.drop n).take 4 :=
    fun h => hmem (List.mem_of_mem_drop (List.mem_of_mem_take h))
  rw [text, String.toList_ofList]
  simp only [List.append_assoc, List.cons_append]
  rw [Text.pieces_append hfirst, Text.pieces_append (htake 8), Text.pieces_append (htake 12),
    Text.pieces_append (htake 16), Text.pieces_of_not_mem fun h => hmem (List.mem_of_mem_drop h)]
  rfl

/-- **Canonical digits are read back.** -/
theorem parse_text (h : Canonical digits) : parse (text digits) = .ok digits := by
  obtain ⟨hlength, hdigits⟩ := h
  have hpieces := pieces_text hdigits
  have hfilter : (text digits).toList.filter (· ≠ '-') = digits := by
    rw [← Text.flatten_pieces, hpieces, flatten_groups]
  have hlower : digits.map Char.toLower = digits :=
    (List.map_congr_left fun c hc => (hdigits c hc).toLower_eq).trans (List.map_id _)
  have hall : (text digits).toList.all (fun c => c == '-' || Text.isHexDigit c) = true := by
    rw [List.all_eq_true]
    intro c hc
    by_cases hdash : c = '-'
    · simp [hdash]
    · have hmem : c ∈ (text digits).toList.filter (· ≠ '-') :=
        List.mem_filter.2 ⟨hc, by simpa using hdash⟩
      rw [hfilter] at hmem
      simp [(hdigits c hmem).isHexDigit]
  have hgroups : (groups digits).map List.length = groupLengths := by
    simp [groups, groupLengths, hlength]
  have hunwrap : unwrap (text digits).toList = ((text digits).toList, 0, true) := by
    obtain ⟨c, cs, rfl⟩ := List.exists_cons_of_length_pos (by omega : 0 < digits.length)
    rw [text, String.toList_ofList]
    exact unwrap_of_isLowerHex (hdigits c List.mem_cons_self)
  unfold parse
  simp only [hunwrap, hpieces, hfilter, hlower, hall, hgroups, beq_self_eq_true, Bool.or_true,
    Bool.and_self, if_true]

/-- Digits that were read are read back. -/
theorem parse_text_of_parse {s : String} (h : parse s = .ok digits) :
    parse (text digits) = .ok digits :=
  parse_text (canonical_of_parse h)

end AgentSwarm.Identifier

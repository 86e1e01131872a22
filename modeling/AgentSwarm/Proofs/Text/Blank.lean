/-
**Blanks and separators.**

Digits are no blanks, so a text that starts with one is not trimmed.  Trimming takes away blanks at
the ends and nothing else.  The pieces of a text between its separators are found one after the other,
and they are what is left of the text without these.

Main results:

* `AgentSwarm.Text.not_isBlank_of_isDigit` — digits are no blanks;
* `AgentSwarm.Text.exists_blanks`, `AgentSwarm.Text.trimChars_between` — trimming takes away blanks,
  and all of them;
* `AgentSwarm.Text.pieces_append` — a piece ends at its separator;
* `AgentSwarm.Text.flatten_pieces` — the pieces are the text without the separators.
-/

import AgentSwarm.Text.Blank
import Mathlib.Data.List.TakeWhile
import Mathlib.Tactic.Common

set_option relaxedAutoImplicit false
set_option autoImplicit false

namespace AgentSwarm.Text

/-! ### Blanks -/

theorem not_isBlank_of_isDigit {c : Char} (h : c.isDigit = true) : isBlank c = false := by
  have hrange := Char.isDigit_iff_toNat.1 h
  have hlow : '0'.toNat = 48 := rfl
  have hhigh : '9'.toNat = 57 := rfl
  rw [hlow, hhigh] at hrange
  simp only [isBlank, Bool.or_eq_false_iff, Bool.and_eq_false_iff, decide_eq_false_iff_not,
    beq_eq_false_iff_ne]
  omega

/-! ### Trimming -/

section Trimming

variable {cs u o v : List Char}

theorem trimChars_isInfix : trimChars cs <:+: cs := by
  have hend : trimEnd (trimStart cs) <+: trimStart cs :=
    List.reverse_suffix.1 (by
      rw [trimEnd, List.reverse_reverse]
      exact List.dropWhile_suffix _)
  exact hend.isInfix.trans (List.dropWhile_suffix _).isInfix

/-- Nothing is left of a text exactly when it has blanks only. -/
theorem trimChars_eq_nil_iff : trimChars cs = [] ↔ ∀ c ∈ cs, isBlank c = true := by
  constructor
  · intro h c hc
    rw [trimChars, trimEnd, List.reverse_eq_nil_iff, List.dropWhile_eq_nil_iff] at h
    by_contra hblank
    -- the first character that is not blank is left
    have hleft : cs.dropWhile isBlank ≠ [] := fun hnil =>
      hblank (List.dropWhile_eq_nil_iff.1 hnil c hc)
    have hfirst := List.head_dropWhile_not isBlank hleft
    rw [h _ (List.mem_reverse.2 (List.head_mem hleft))] at hfirst
    cases hfirst
  · intro h
    rw [trimChars, trimStart, List.dropWhile_eq_nil_iff.2 h]
    rfl

/-- Only blanks are trimmed away. -/
theorem exists_blanks (cs : List Char) : ∃ u v, (∀ c ∈ u, isBlank c = true) ∧
    (∀ c ∈ v, isBlank c = true) ∧ cs = u ++ trimChars cs ++ v := by
  have hstart : cs.takeWhile isBlank ++ trimStart cs = cs := List.takeWhile_append_dropWhile
  have hend : trimStart cs =
      trimChars cs ++ ((trimStart cs).reverse.takeWhile isBlank).reverse := by
    rw [trimChars, trimEnd, ← List.reverse_append, List.takeWhile_append_dropWhile,
      List.reverse_reverse]
  refine ⟨cs.takeWhile isBlank, ((trimStart cs).reverse.takeWhile isBlank).reverse, ?_, ?_, ?_⟩
  · exact fun c hc => List.mem_takeWhile_imp hc
  · exact fun c hc => List.mem_takeWhile_imp (List.mem_reverse.1 hc)
  · rw [List.append_assoc, ← hend, hstart]

/-- What begins and ends without a blank is left between blanks. -/
theorem trimChars_between (hu : ∀ c ∈ u, isBlank c = true) (hv : ∀ c ∈ v, isBlank c = true)
    (hhead : ∀ c ∈ o.head?, isBlank c = false) (hlast : ∀ c ∈ o.getLast?, isBlank c = false) :
    trimChars (u ++ o ++ v) = o := by
  have hdrop : ∀ {a b : List Char}, (∀ c ∈ a.head?, isBlank c = false) → a ≠ [] →
      trimStart (a ++ b) = a ++ b := by
    intro a b ha hne
    obtain ⟨c, tail, rfl⟩ := List.exists_cons_of_ne_nil hne
    exact List.dropWhile_cons_of_neg (by simp [ha c rfl])
  rcases List.eq_nil_or_concat o with rfl | hconcat
  · refine trimChars_eq_nil_iff.2 fun c hc => ?_
    rcases List.mem_append.1 hc with hc | hc
    · exact hu c (by simpa using hc)
    · exact hv c hc
  · have hne : o ≠ [] := by
      obtain ⟨_, _, rfl⟩ := hconcat
      simp
    have hreverse : ∀ c ∈ o.reverse.head?, isBlank c = false := by
      rw [List.head?_reverse]
      exact hlast
    have hend : trimStart (o.reverse ++ []) = o.reverse ++ [] :=
      hdrop hreverse (by simpa using hne)
    rw [trimChars, List.append_assoc, trimStart_blank_append hu, hdrop hhead hne,
      trimEnd_append_blank hv, trimEnd]
    rw [List.append_nil] at hend
    show (trimStart o.reverse).reverse = o
    rw [hend, List.reverse_reverse]

end Trimming

/-! ### Pieces between separators -/

variable {sep : Char} {a cs : List Char}

theorem pieces_of_not_mem (h : sep ∉ cs) : pieces sep cs = [cs] := by
  induction cs with
  | nil => rfl
  | cons c cs ih =>
      have hc : c ≠ sep := (List.ne_of_not_mem_cons h).symm
      rw [pieces, if_neg hc, ih (List.not_mem_of_not_mem_cons h)]

theorem pieces_append (h : sep ∉ a) : pieces sep (a ++ sep :: cs) = a :: pieces sep cs := by
  induction a with
  | nil => simp [pieces]
  | cons c a ih =>
      have hc : c ≠ sep := (List.ne_of_not_mem_cons h).symm
      rw [List.cons_append, pieces, if_neg hc, ih (List.not_mem_of_not_mem_cons h)]

/-- The pieces are what is left without the separators. -/
theorem flatten_pieces (sep : Char) (cs : List Char) :
    (pieces sep cs).flatten = cs.filter (· ≠ sep) := by
  induction cs with
  | nil => rfl
  | cons c cs ih =>
      rw [pieces]
      split
      next h => simp [h, ih]
      next h =>
          rw [List.filter_cons_of_pos (by simpa using h), ← ih]
          cases hp : pieces sep cs with
          | nil => exact absurd hp (pieces_ne_nil sep cs)
          | cons piece more => rfl

end AgentSwarm.Text

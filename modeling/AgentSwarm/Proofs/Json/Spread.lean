/-
**Values have different spread texts.**

The spread text of a value is its compact text with blanks and new lines between the parts, and no
part but a string has blanks of its own.  So the compact text is what is left when blanks outside
strings are dropped, and values with one spread text have one compact text, too.

Main definitions:

* `AgentSwarm.Json.squeeze` — a text without the blanks outside its strings.

Main results:

* `AgentSwarm.Json.squeeze_quote` — strings are left as they are;
* `AgentSwarm.Json.squeeze_spreadChars` — **what is left of a spread text is the compact one**;
* `AgentSwarm.Json.spread_injective` — values have different spread texts.
-/

import AgentSwarm.Proofs.Json.Compact

set_option relaxedAutoImplicit false
set_option autoImplicit false

namespace AgentSwarm.Json

open Decimal

/-! ### Blanks outside strings -/

/-- A text without the blanks outside its strings; it starts inside of one or not. -/
def squeeze : Bool → List Char → List Char
  | _, [] => []
  | true, '\\' :: c :: rest => '\\' :: c :: squeeze true rest
  | true, c :: rest => c :: squeeze (c != '"') rest
  | false, c :: rest =>
    if c = ' ' ∨ c = '\n' then squeeze false rest else c :: squeeze (c == '"') rest

variable {cs rest : List Char}

/-- Inside of a string a character is left that neither escapes another one nor ends the string. -/
theorem squeeze_inside {c : Char} (hslash : c ≠ '\\') (hquote : c ≠ '"') :
    squeeze true (c :: rest) = c :: squeeze true rest := by
  rw [squeeze]
  · rw [bne_iff_ne.2 hquote]
  · rintro d - rfl
    exact absurd rfl hslash

theorem hexDigit_ne (n : Nat) : hexDigit n ≠ '\\' ∧ hexDigit n ≠ '"' := by
  have hdigit : ∀ d < 16, Nat.digitChar d ≠ '\\' ∧ Nat.digitChar d ≠ '"' := by decide
  exact hdigit _ (Nat.mod_lt _ (by decide))

/-- The escape of a character is left as it is. -/
theorem squeeze_escape (c : Char) : squeeze true (escape c ++ rest) = escape c ++ squeeze true rest := by
  unfold escape
  split
  next => rfl
  next hquote =>
  split
  next => rfl
  next hslash =>
  -- the escapes of two characters, the one by number, and the character itself
  iterate 5
    split
    · rfl
  split
  next =>
      obtain ⟨hhigh, hhigh'⟩ := hexDigit_ne (c.toNat / 16)
      obtain ⟨hlow, hlow'⟩ := hexDigit_ne c.toNat
      simp only [List.cons_append, List.nil_append]
      rw [squeeze, squeeze_inside (by decide) (by decide), squeeze_inside (by decide) (by decide),
        squeeze_inside hhigh hhigh', squeeze_inside hlow hlow']
  next => exact squeeze_inside hslash hquote

/-- **Strings are left as they are.** -/
theorem squeeze_quote (s : String) : squeeze false (quote s ++ rest) = quote s ++ squeeze false rest := by
  have hinside : ∀ cs : List Char, squeeze true (cs.flatMap escape ++ '"' :: rest) =
      cs.flatMap escape ++ '"' :: squeeze false rest := by
    intro cs
    induction cs with
    | nil => rfl
    | cons c cs ih => rw [List.flatMap_cons, List.append_assoc, squeeze_escape, ih, List.append_assoc]
  simp only [quote, List.cons_append, List.append_assoc, List.nil_append]
  rw [squeeze, if_neg (by decide)]
  exact congrArg _ (hinside s.toList)

/-- A text without blanks and quotes is left as it is. -/
theorem squeeze_solid (h : ∀ c ∈ cs, c ≠ ' ' ∧ c ≠ '\n' ∧ c ≠ '"') :
    squeeze false (cs ++ rest) = cs ++ squeeze false rest := by
  induction cs with
  | nil => rfl
  | cons c cs ih =>
      obtain ⟨⟨hblank, hline, hquote⟩, hcs⟩ := List.forall_mem_cons.1 h
      rw [List.cons_append, squeeze, if_neg (by simp [hblank, hline]), beq_eq_false_iff_ne.2 hquote,
        ih hcs]
      rfl

/-- What stands between the parts of a value is left as it is. -/
theorem squeeze_mark {c : Char} (h : c ≠ ' ' ∧ c ≠ '\n' ∧ c ≠ '"') :
    squeeze false (c :: rest) = c :: squeeze false rest :=
  squeeze_solid fun _ hd => List.mem_singleton.1 hd ▸ h

/-- Blanks are dropped. -/
theorem squeeze_blanks (h : ∀ c ∈ cs, c = ' ' ∨ c = '\n') :
    squeeze false (cs ++ rest) = squeeze false rest := by
  induction cs with
  | nil => rfl
  | cons c cs ih =>
      obtain ⟨hblank, hcs⟩ := List.forall_mem_cons.1 h
      rw [List.cons_append, squeeze, if_pos hblank, ih hcs]

theorem squeeze_blank : squeeze false (' ' :: rest) = squeeze false rest := rfl

/-- New lines are dropped with their indentation. -/
theorem squeeze_newline (depth : Nat) : squeeze false (newline depth ++ rest) = squeeze false rest := by
  refine squeeze_blanks fun c hc => ?_
  rcases List.mem_cons.1 hc with rfl | hc
  · exact .inr rfl
  · exact .inl (List.eq_of_mem_replicate hc)

/-- A number has no blanks. -/
theorem solid_of_isNumeral {c : Char} (h : isNumeral c = true) : c ≠ ' ' ∧ c ≠ '\n' ∧ c ≠ '"' := by
  refine ⟨?_, ?_, ?_⟩ <;> rintro rfl <;> revert h <;> decide

/-! ### Values -/

/-- A number is left as it is. -/
theorem squeeze_real (x : Float) :
    squeeze false (chars (.real x : Json) ++ rest) = chars (.real x : Json) ++ squeeze false rest := by
  refine squeeze_solid ?_
  by_cases hfinite : Scalar.isFinite x = true
  · rw [chars_real hfinite]
    exact fun c hc => solid_of_isNumeral (isNumeral_ofFloat _ x c hc)
  · rw [show chars (.real x : Json) = ['n', 'u', 'l', 'l'] from if_neg hfinite]
    simp

mutual

/-- **What is left of a spread text is the compact one.** -/
theorem squeeze_spreadChars (depth : Nat) (rest : List Char) : ∀ v : Json,
    squeeze false (spreadChars depth v ++ rest) = chars v ++ squeeze false rest
  | .null => rfl
  | .bool true => rfl
  | .bool false => rfl
  | .int n => by
      rw [spreadChars]
      exact squeeze_solid fun c hc => solid_of_isNumeral (isNumeral_of_mem_intChars hc)
  | .real x => by
      rw [spreadChars]
      exact squeeze_real x
  | .str s => by
      rw [spreadChars]
      exact squeeze_quote s
  | .arr [] => rfl
  | .arr (v :: items) => by
      have hitems := squeeze_spreadItems (depth + 1) (newline depth ++ ']' :: rest) (v :: items)
      rw [spreadChars, if_neg (by simp), chars]
      simp only [List.cons_append, List.append_assoc, List.nil_append]
      rw [squeeze_mark (by decide)]
      exact congrArg _ (hitems.trans (congrArg _ (squeeze_newline depth)))
  | .obj [] => rfl
  | .obj (m :: members) => by
      have hmembers := squeeze_spreadMembers (depth + 1) (newline depth ++ '}' :: rest) (m :: members)
      rw [spreadChars, if_neg (by simp), chars]
      simp only [List.cons_append, List.append_assoc, List.nil_append]
      rw [squeeze_mark (by decide)]
      exact congrArg _ (hmembers.trans (congrArg _ (squeeze_newline depth)))

theorem squeeze_spreadItems (depth : Nat) (rest : List Char) : ∀ items : List Json,
    squeeze false (spreadItems depth items ++ rest) = itemsChars items ++ squeeze false rest
  | [] => rfl
  | [v] => by
      rw [spreadItems, itemsChars]
      simp only [List.isEmpty_nil, if_true, List.append_nil, List.append_assoc]
      rw [squeeze_newline]
      exact squeeze_spreadChars depth rest v
  | v :: w :: items => by
      have hrest := squeeze_spreadItems depth rest (w :: items)
      rw [spreadItems, itemsChars]
      simp only [List.isEmpty_cons, Bool.false_eq_true, if_false, List.append_assoc, List.cons_append]
      rw [squeeze_newline, squeeze_spreadChars depth _ v, squeeze_mark (by decide)]
      exact congrArg (chars v ++ ',' :: ·) hrest

theorem squeeze_spreadMembers (depth : Nat) (rest : List Char) : ∀ members : List (String × Json),
    squeeze false (spreadMembers depth members ++ rest) = membersChars members ++ squeeze false rest
  | [] => rfl
  | [(k, v)] => by
      rw [spreadMembers, membersChars]
      simp only [List.isEmpty_nil, if_true, List.append_nil, List.append_assoc, List.cons_append,
        List.nil_append]
      rw [squeeze_newline, squeeze_quote, squeeze_mark (by decide), squeeze_blank]
      exact congrArg (quote k ++ ':' :: ·) (squeeze_spreadChars depth rest v)
  | (k, v) :: w :: members => by
      have hrest := squeeze_spreadMembers depth rest (w :: members)
      rw [spreadMembers, membersChars]
      simp only [List.isEmpty_cons, Bool.false_eq_true, if_false, List.append_assoc, List.cons_append,
        List.nil_append]
      rw [squeeze_newline, squeeze_quote, squeeze_mark (by decide), squeeze_blank,
        squeeze_spreadChars depth _ v, squeeze_mark (by decide)]
      exact congrArg (fun cs => quote k ++ ':' :: (chars v ++ ',' :: cs)) hrest

end

/-- **Values have different spread texts.** -/
theorem spread_injective {v w : Json} (hv : v.WellFormed) (hw : w.WellFormed)
    (h : spread v = spread w) : v = w := by
  have htext : squeeze false (spreadChars 0 v ++ []) = squeeze false (spreadChars 0 w ++ []) := by
    rw [String.ofList_injective h]
  rw [squeeze_spreadChars, squeeze_spreadChars, squeeze, List.append_nil, List.append_nil] at htext
  exact compact_injective hv hw (congrArg String.ofList htext)

end AgentSwarm.Json

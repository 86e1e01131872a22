/-
**The first occurrence of a word.**

Searching goes through a text from its front, so what it finds is the occurrence that begins first.
An occurrence in a text that is put together of others lies in one of them or over a seam.  None
lies over a seam where a character stands that the word does not have.

Main definitions:

* `AgentSwarm.Text.First` — the text before and behind the first occurrence of a word.

Main results:

* `AgentSwarm.Text.splitAtFirst_eq_some_iff`, `AgentSwarm.Text.splitAtFirst_eq_none_iff` —
  **searching finds the first occurrence**, if there is one;
* `AgentSwarm.Text.First.of_clear` — an occurrence is the first when no other ends before it
  does;
* `AgentSwarm.Text.infix_append_cons_iff` — nothing occurs over a character that is not in the word;
* `AgentSwarm.Text.splitAtFirst_append_left`, `AgentSwarm.Text.splitAtFirst_append_right` — text
  around that has no part in an occurrence.
-/

import AgentSwarm.Text.Blank
import Mathlib.Data.List.Infix

set_option relaxedAutoImplicit false
set_option autoImplicit false

namespace AgentSwarm.Text

variable {word cs before after rest : List Char} {c : Char}

/-- What stands before and behind the first occurrence of a word. -/
structure First (word cs before after : List Char) : Prop where
  eq : cs = before ++ word ++ after
  le : ∀ b a, cs = b ++ word ++ a → before.length ≤ b.length

/-- A character of a text occurs last somewhere. -/
theorem exists_last_of_mem (h : c ∈ cs) : ∃ before after, cs = before ++ c :: after ∧ c ∉ after := by
  obtain ⟨back, front, he, hback⟩ := List.eq_append_cons_of_mem (List.mem_reverse.2 h)
  refine ⟨front.reverse, back.reverse, ?_, by simpa using hback⟩
  rw [← List.reverse_reverse cs, he]
  simp

/-! ### Searching -/

theorem stripPrefix?_eq_some_iff : stripPrefix? word cs = some rest ↔ cs = word ++ rest := by
  constructor
  · exact eq_append_of_stripPrefix?
  · rintro rfl
    exact stripPrefix?_append word rest

/-- An occurrence in a text begins with its first character or is one in the rest. -/
theorem infix_cons_iff : word <:+: c :: cs ↔ stripPrefix? word (c :: cs) ≠ none ∨ word <:+: cs := by
  rw [List.infix_cons_iff]
  refine or_congr_left ?_
  constructor
  · rintro ⟨a, ha⟩
    rw [stripPrefix?_eq_some_iff.2 ha.symm]
    exact Option.some_ne_none a
  · intro h
    obtain ⟨a, ha⟩ := Option.ne_none_iff_exists'.1 h
    exact ⟨a, (eq_append_of_stripPrefix? ha).symm⟩

/-- Nothing is found exactly when the word does not occur. -/
theorem splitAtFirst_eq_none_iff : splitAtFirst word cs = none ↔ ¬ word <:+: cs := by
  induction cs with
  | nil =>
      cases word with
      | nil => simp [splitAtFirst, stripPrefix?]
      | cons w word => simp [splitAtFirst, stripPrefix?]
  | cons c cs ih =>
      rw [infix_cons_iff, not_or, ← ih, splitAtFirst]
      cases stripPrefix? word (c :: cs) <;> simp

/-- What is found occurs first. -/
theorem First.of_splitAtFirst (h : splitAtFirst word cs = some (before, after)) :
    First word cs before after := by
  refine ⟨eq_append_of_splitAtFirst h, ?_⟩
  induction cs generalizing before with
  | nil =>
      obtain ⟨hb, -⟩ := List.append_eq_nil_iff.1 (eq_append_of_splitAtFirst h).symm
      rw [(List.append_eq_nil_iff.1 hb).1]
      exact fun b a _ => Nat.zero_le _
  | cons c cs ih =>
      intro b a hba
      rw [splitAtFirst] at h
      split at h
      next =>
          obtain ⟨rfl, -⟩ := Prod.mk.inj (Option.some.inj h)
          exact Nat.zero_le _
      next hnone =>
          obtain ⟨⟨before', after'⟩, hrest, he⟩ := Option.map_eq_some_iff.1 h
          obtain ⟨rfl, rfl⟩ := Prod.mk.inj he
          cases b with
          | nil =>
              -- the word does not stand at the front
              rw [hba] at hnone
              exact absurd hnone (by simp [stripPrefix?_append])
          | cons d b =>
              obtain ⟨-, hcs⟩ := List.cons_eq_cons.1 hba
              exact Nat.succ_le_succ (ih hrest b a hcs)

/-- There is one first occurrence. -/
theorem First.unique {before' after' : List Char} (h : First word cs before after)
    (h' : First word cs before' after') : before = before' ∧ after = after' := by
  have hlength : before.length = before'.length :=
    Nat.le_antisymm (h.le _ _ h'.eq) (h'.le _ _ h.eq)
  have he := h.eq.symm.trans h'.eq
  rw [List.append_assoc, List.append_assoc] at he
  obtain ⟨hbefore, hafter⟩ := List.append_inj he hlength
  exact ⟨hbefore, List.append_cancel_left hafter⟩

/-- **Searching finds the first occurrence.** -/
theorem splitAtFirst_eq_some_iff :
    splitAtFirst word cs = some (before, after) ↔ First word cs before after := by
  constructor
  · exact First.of_splitAtFirst
  · intro h
    have hfound : splitAtFirst word cs ≠ none := fun hnone =>
      splitAtFirst_eq_none_iff.1 hnone ⟨before, after, h.eq.symm⟩
    obtain ⟨⟨before', after'⟩, hfirst⟩ := Option.ne_none_iff_exists'.1 hfound
    obtain ⟨rfl, rfl⟩ := h.unique (First.of_splitAtFirst hfirst)
    exact hfirst

/-! ### Texts put together -/

/-- An occurrence is the first when no other ends before it does. -/
theorem First.of_clear (h : ¬ word <:+: before ++ word.dropLast) :
    First word (before ++ word ++ after) before after := by
  refine ⟨rfl, fun b a hba => ?_⟩
  by_contra hlt
  -- an occurrence that begins earlier ends before the last character of this one
  have hlength : (b ++ word).length ≤ (before ++ word.dropLast).length := by
    rw [List.length_append, List.length_append, List.length_dropLast]
    omega
  have hearly : b ++ word <+: before ++ word ++ after := ⟨a, hba.symm⟩
  have hlast : before ++ word.dropLast <+: before ++ word ++ after :=
    ((List.prefix_append_right_inj before).2 (List.dropLast_prefix word)).trans
      (List.prefix_append ..)
  exact h ((List.suffix_append b word).isInfix.trans
    (List.prefix_of_prefix_length_le hearly hlast hlength).isInfix)

/-- Nothing occurs over a seam behind which the last character of the word is missing. -/
theorem infix_of_infix_append {d : Char} {more : List Char} (hd : word.getLast? = some d)
    (h : word <:+: before ++ more) (hmore : d ∉ more) : word <:+: before := by
  induction more using List.reverseRecOn with
  | nil => rwa [List.append_nil] at h
  | append_singleton more e ih =>
      rw [List.mem_append, List.mem_singleton, not_or] at hmore
      rw [← List.append_assoc, List.infix_concat_iff] at h
      rcases h with ⟨front, hfront⟩ | h
      · -- what ends with `e` is another word
        have hlast := congrArg List.getLast? hfront
        rw [List.getLast?_append, hd, List.getLast?_concat] at hlast
        exact absurd (Option.some.inj hlast) hmore.2
      · exact ih h hmore.1

/-- Nothing occurs over a character which the word does not have. -/
theorem infix_append_cons_iff {d : Char} {more : List Char} (hd : d ∉ word) :
    word <:+: before ++ d :: more ↔ word <:+: before ∨ word <:+: more := by
  constructor
  · rintro ⟨front, back, he⟩
    rcases List.append_eq_append_iff.1 he with ⟨gap, rfl, -⟩ | ⟨beyond, hbeyond, hback⟩
    · exact .inl ⟨front, gap, rfl⟩
    · cases beyond with
      | nil =>
          rw [List.append_nil] at hbeyond
          exact .inl ⟨front, [], by rw [List.append_nil, hbeyond]⟩
      | cons e beyond =>
          -- the occurrence ends behind `d`, so it begins there as well
          obtain ⟨rfl, hmore⟩ := List.cons_eq_cons.1 hback
          rcases List.append_eq_append_iff.1 hbeyond with ⟨part, -, hword⟩ | ⟨part, rfl, hpart⟩
          · exact absurd (by simp [hword]) hd
          · cases part with
            | nil => exact absurd (show d ∈ [] ++ word from hpart ▸ List.mem_cons_self ..) hd
            | cons e part =>
                obtain ⟨-, rfl⟩ := List.cons_eq_cons.1 hpart
                exact .inr ⟨part, back, hmore.symm⟩
  · rintro (h | h)
    · exact h.trans (List.prefix_append ..).isInfix
    · exact h.trans ((List.suffix_cons d more).trans (List.suffix_append ..)).isInfix

/-- Text without the first character of the word has no part in an occurrence behind it. -/
theorem splitAtFirst_append_left {w : Char} {ws : List Char} (h : w ∉ before) :
    splitAtFirst (w :: ws) (before ++ cs) =
      (splitAtFirst (w :: ws) cs).map fun found => (before ++ found.1, found.2) := by
  induction before with
  | nil => simp
  | cons c before ih =>
      obtain ⟨hne, hrest⟩ := not_or.1 (mt List.mem_cons.2 h)
      rw [List.cons_append, splitAtFirst, stripPrefix?, if_neg hne]
      simp only [ih hrest, Option.map_map]
      rfl

/-- A word that stands at the front of a text is not longer when the text goes on behind a character
which the word does not have. -/
theorem stripPrefix?_append_right (hlast : ∃ d ∈ cs, d ∉ word) :
    stripPrefix? word (cs ++ rest) = (stripPrefix? word cs).map (· ++ rest) := by
  induction word generalizing cs with
  | nil => rfl
  | cons w word ih =>
      obtain ⟨d, hd, hword⟩ := hlast
      cases cs with
      | nil => cases hd
      | cons c cs =>
          simp only [List.cons_append, stripPrefix?]
          split
          next hwc =>
              subst hwc
              obtain ⟨hne, hword⟩ := not_or.1 (mt List.mem_cons.2 hword)
              exact ih ⟨d, (List.mem_cons.1 hd).resolve_left hne, hword⟩
          next => rfl

/-- Text without the first character of the word has no part in an occurrence before it, when a
character stands between which the word does not have. -/
theorem splitAtFirst_append_right {w d : Char} {ws : List Char} (hd : d ∉ w :: ws) (h : w ∉ rest) :
    splitAtFirst (w :: ws) (cs ++ d :: rest) =
      (splitAtFirst (w :: ws) (cs ++ [d])).map fun found => (found.1, found.2 ++ rest) := by
  have hnone : splitAtFirst (w :: ws) rest = none := by
    rw [splitAtFirst_eq_none_iff]
    exact fun hword => h (hword.subset (List.mem_cons_self ..))
  induction cs with
  | nil =>
      obtain ⟨hne, -⟩ := not_or.1 (mt List.mem_cons.2 hd)
      simp [splitAtFirst, stripPrefix?, Ne.symm hne, hnone]
  | cons c cs ih =>
      have hfront : stripPrefix? (w :: ws) (c :: cs ++ [d] ++ rest) =
          (stripPrefix? (w :: ws) (c :: cs ++ [d])).map (· ++ rest) :=
        stripPrefix?_append_right ⟨d, by simp, hd⟩
      simp only [List.cons_append, List.append_assoc, List.nil_append] at hfront
      rw [List.cons_append, List.cons_append, splitAtFirst, splitAtFirst, hfront, ih]
      cases stripPrefix? (w :: ws) (c :: (cs ++ [d])) with
      | some found => rfl
      | none =>
          simp only [Option.map_none, Option.map_map]
          rfl

end AgentSwarm.Text

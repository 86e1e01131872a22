/-
**Places in a text, counted in bytes.**

In UTF-8 a character takes up to four bytes.  A text can be cut at a number of bytes only where a
character begins or the text ends; any other place lies inside a character or behind the end.

Main definitions:

* `AgentSwarm.Text.cutAt?`, `AgentSwarm.Text.slice?` — a text cut at a place, and the text between
  two places;
* `AgentSwarm.Text.find?`, `AgentSwarm.Text.findLast?` — the places of the first occurrence of a
  word and of the last one of a character.

Main results:

* `AgentSwarm.Text.cutAt?_eq_some_iff` — a text can be cut exactly at the lengths of its front parts;
* `AgentSwarm.Text.slice?_eq` — the text between two places where it can be cut;
* `AgentSwarm.Text.find?_singleton`, `AgentSwarm.Text.findLast?_append` — the places of a character.
-/

import AgentSwarm.Text.Blank
import Mathlib.Data.List.TakeWhile

set_option relaxedAutoImplicit false
set_option autoImplicit false

namespace AgentSwarm.Text

/-! ### Lengths -/

theorem foldl_utf8Size (cs : List Char) (n : Nat) :
    cs.foldl (fun n c => n + c.utf8Size) n = n + utf8Length cs := by
  induction cs generalizing n with
  | nil => rfl
  | cons c cs ih =>
    rw [utf8Length, List.foldl_cons, List.foldl_cons, ih, ih]
    omega

@[simp] theorem utf8Length_nil : utf8Length [] = 0 := rfl

@[simp] theorem utf8Length_cons (c : Char) (cs : List Char) :
    utf8Length (c :: cs) = c.utf8Size + utf8Length cs := by
  rw [utf8Length, List.foldl_cons, foldl_utf8Size, Nat.zero_add]

@[simp] theorem utf8Length_append (cs more : List Char) :
    utf8Length (cs ++ more) = utf8Length cs + utf8Length more := by
  rw [utf8Length, List.foldl_append, foldl_utf8Size]
  rfl

/-! ### Cuts -/

/-- The text before and behind a number of bytes, if it can be cut there. -/
def cutAt? : List Char → Nat → Option (List Char × List Char)
  | cs, 0 => some ([], cs)
  | [], _ + 1 => none
  | c :: cs, n + 1 =>
    if c.utf8Size ≤ n + 1 then
      (cutAt? cs (n + 1 - c.utf8Size)).map fun cut => (c :: cut.1, cut.2)
    else none

/-- The text between two places, if it can be cut at both and the second is not before the first. -/
def slice? (cs : List Char) (start stop : Nat) : Option (List Char) := do
  let (front, _) ← cutAt? cs stop
  let (_, middle) ← cutAt? front start
  return middle

/-- The place of the first occurrence of a word. -/
def find? (word cs : List Char) : Option Nat :=
  (splitAtFirst word cs).map fun found => utf8Length found.1

/-- The place of the last occurrence of a character. -/
def findLast? (c : Char) (cs : List Char) : Option Nat :=
  match cs.reverse.dropWhile (· ≠ c) with
  | [] => none
  | _ :: before => some (utf8Length before.reverse)

/-- **A text can be cut exactly at the lengths of its front parts.** -/
theorem cutAt?_eq_some_iff {cs before after : List Char} {n : Nat} :
    cutAt? cs n = some (before, after) ↔ cs = before ++ after ∧ utf8Length before = n := by
  induction cs generalizing before n with
  | nil =>
    cases n with
    | zero => cases before <;> simp [cutAt?, eq_comm]
    | succ n => cases before <;> simp [cutAt?]
  | cons c cs ih =>
    cases n with
    | zero =>
      cases before with
      | nil => simp [cutAt?, eq_comm]
      | cons d before =>
        have := d.utf8Size_pos
        simp [cutAt?]
        omega
    | succ n =>
      rw [cutAt?]
      cases before with
      | nil => split <;> simp
      | cons d before =>
        rw [utf8Length_cons, List.cons_append, List.cons_eq_cons]
        constructor
        · intro h
          split at h
          next hle =>
            obtain ⟨⟨front, rest⟩, hcut, he⟩ := Option.map_eq_some_iff.1 h
            obtain ⟨hcons, rfl⟩ := Prod.mk.inj he
            obtain ⟨rfl, rfl⟩ := List.cons_eq_cons.1 hcons
            obtain ⟨rfl, hn⟩ := ih.1 hcut
            exact ⟨⟨rfl, rfl⟩, by dsimp only; omega⟩
          next => cases h
        · rintro ⟨⟨rfl, rfl⟩, hn⟩
          rw [if_pos (by omega), ih.2 ⟨rfl, by omega⟩]
          rfl

/-- The text between two places where it can be cut. -/
theorem slice?_eq {cs before middle after : List Char} {start stop : Nat}
    (h : cs = before ++ middle ++ after) (hstart : utf8Length before = start)
    (hstop : start + utf8Length middle = stop) : slice? cs start stop = some middle := by
  have hfront : cutAt? cs stop = some (before ++ middle, after) :=
    cutAt?_eq_some_iff.2 ⟨h, by rw [utf8Length_append, hstart, hstop]⟩
  have hmiddle : cutAt? (before ++ middle) start = some (before, middle) :=
    cutAt?_eq_some_iff.2 ⟨rfl, hstart⟩
  simp only [slice?, hfront, hmiddle, bind, Option.bind_some]
  rfl

/-! ### Places of a character -/

section

variable {c : Char} {cs before after : List Char}

theorem splitAtFirst_singleton (h : c ∉ before) :
    splitAtFirst [c] (before ++ c :: after) = some (before, after) := by
  induction before with
  | nil => simp [splitAtFirst, stripPrefix?]
  | cons d before ih =>
    obtain ⟨hne, hrest⟩ := not_or.1 (mt List.mem_cons.2 h)
    simp [splitAtFirst, stripPrefix?, hne, ih hrest]

theorem find?_singleton (h : c ∉ before) :
    find? [c] (before ++ c :: after) = some (utf8Length before) := by
  rw [find?, splitAtFirst_singleton h]
  rfl

theorem find?_singleton_eq_none (h : c ∉ cs) : find? [c] cs = none := by
  rw [find?, Option.map_eq_none_iff]
  cases hfound : splitAtFirst [c] cs with
  | none => rfl
  | some found => exact absurd (by simp [eq_append_of_splitAtFirst hfound]) h

theorem findLast?_append (h : c ∉ after) :
    findLast? c (before ++ c :: after) = some (utf8Length before) := by
  have hback : (before ++ c :: after).reverse.dropWhile (· ≠ c) = c :: before.reverse := by
    rw [List.reverse_append, List.reverse_cons, List.append_assoc,
      List.dropWhile_append_of_pos fun d hd => by
        simpa using fun he : d = c => h (he ▸ List.mem_reverse.1 hd)]
    simp
  rw [findLast?, hback]
  simp

theorem findLast?_eq_none (h : c ∉ cs) : findLast? c cs = none := by
  have hback : cs.reverse.dropWhile (· ≠ c) = [] :=
    List.dropWhile_eq_nil_iff.2 fun d hd => by
      simpa using fun he : d = c => h (he ▸ List.mem_reverse.1 hd)
  rw [findLast?, hback]

end

end AgentSwarm.Text

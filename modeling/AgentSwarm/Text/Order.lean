/-
**Sets of texts in ascending order.**

Texts are compared by their characters, which is the order of their bytes in UTF-8.

Main definitions:

* `AgentSwarm.Text.insertSorted` — an ascending list with one more text;
* `AgentSwarm.Text.sortedSet` — the distinct texts of a list in ascending order;
* `AgentSwarm.Text.ordered` — all texts of a list in ascending order.

Main results:

* `AgentSwarm.Text.mem_sortedSet`, `AgentSwarm.Text.pairwise_sortedSet` — the set has the members of
  the list, in ascending order;
* `AgentSwarm.Text.perm_ordered` — ordering only moves texts.
-/

set_option relaxedAutoImplicit false
set_option autoImplicit false

namespace AgentSwarm.Text

/-- An ascending list of distinct texts with one more. -/
def insertSorted (s : String) : List String → List String
  | [] => [s]
  | t :: rest =>
    if s < t then s :: t :: rest else if s = t then t :: rest else t :: insertSorted s rest

/-- The distinct texts of a list in ascending order. -/
def sortedSet (texts : List String) : List String := texts.foldr insertSorted []

@[simp] theorem mem_insertSorted {s t : String} {l : List String} :
    t ∈ insertSorted s l ↔ t = s ∨ t ∈ l := by
  induction l with
  | nil => simp [insertSorted]
  | cons u rest ih =>
    by_cases h1 : s < u
    · simp [insertSorted, h1]
    · by_cases h2 : s = u
      · subst h2
        simp [insertSorted]
      · simp only [insertSorted, h1, h2, if_false, List.mem_cons, ih]
        exact or_left_comm

theorem mem_sortedSet {t : String} {l : List String} : t ∈ sortedSet l ↔ t ∈ l := by
  induction l with
  | nil => simp [sortedSet]
  | cons u rest ih =>
    simp only [sortedSet, List.foldr_cons, mem_insertSorted, List.mem_cons]
    rw [← ih]
    rfl

theorem pairwise_insertSorted {s : String} {l : List String} (h : l.Pairwise (· < ·)) :
    (insertSorted s l).Pairwise (· < ·) := by
  induction l with
  | nil => simp [insertSorted]
  | cons t rest ih =>
    obtain ⟨hfirst, hrest⟩ := List.pairwise_cons.1 h
    rw [insertSorted]
    split
    next hst =>
      refine List.pairwise_cons.2 ⟨fun u hu => ?_, h⟩
      rcases List.mem_cons.1 hu with rfl | hu
      · exact hst
      · exact String.lt_trans hst (hfirst u hu)
    next hst =>
      split
      next => exact h
      next hne =>
        have hts : t < s :=
          String.not_le.1 fun hle => hne (String.le_antisymm hle (String.not_lt.1 hst))
        refine List.pairwise_cons.2 ⟨fun u hu => ?_, ih hrest⟩
        rcases mem_insertSorted.1 hu with rfl | hu
        · exact hts
        · exact hfirst u hu

theorem pairwise_sortedSet (texts : List String) : (sortedSet texts).Pairwise (· < ·) := by
  induction texts with
  | nil => exact .nil
  | cons t rest ih => exact pairwise_insertSorted ih

/-- An ascending list with one more text. -/
def insertOrdered (s : String) : List String → List String
  | [] => [s]
  | t :: rest => if s ≤ t then s :: t :: rest else t :: insertOrdered s rest

/-- The texts of a list in ascending order. -/
def ordered (texts : List String) : List String := texts.foldr insertOrdered []

theorem perm_insertOrdered (s : String) (l : List String) :
    (insertOrdered s l).Perm (s :: l) := by
  induction l with
  | nil => exact .refl _
  | cons t rest ih =>
    by_cases h : s ≤ t
    · simp [insertOrdered, h]
    · simp only [insertOrdered, h, if_false]
      exact ((List.Perm.cons t ih).trans (List.Perm.swap s t rest))

theorem perm_ordered (texts : List String) : (ordered texts).Perm texts := by
  induction texts with
  | nil => exact .refl _
  | cons t rest ih => exact (perm_insertOrdered t _).trans (ih.cons t)

end AgentSwarm.Text

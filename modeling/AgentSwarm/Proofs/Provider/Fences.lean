/-
**Objects in fences.**

A fence opens at its first marker, with or without `json`, and closes at the next marker behind it.
The two markers overlap: the one for JSON begins with the plain one, and every closing marker could
open another fence.  Still an object in a fence is found, because an object ends with a brace, and
no marker lies over a brace.

The search is said here in a second way, by places in the text counted in bytes, as the text is cut
there.  All cuts fall between characters.

Main definitions:

* `AgentSwarm.Braced` — a text from an opening to a closing brace;
* `AgentSwarm.Fences` — a first fence and what stands in it;
* `AgentSwarm.fencedSlice?`, `AgentSwarm.bracedSlice?`, `AgentSwarm.embeddedSlice?` — the search by
  places in the text; none when the text cannot be cut.

Main results:

* `AgentSwarm.fenced_eq_some_iff` — what is found in a fence;
* `AgentSwarm.embeddedSlice?_eq` — **the text can be cut at all places of the search**;
* `AgentSwarm.infix_of_embeddedObject` — what is found is a part of the text;
* `AgentSwarm.embeddedObject_fenced` — **an object in a fence is found and preferred**.
-/

import AgentSwarm.Proofs.Text.Blank
import AgentSwarm.Proofs.Text.Search
import AgentSwarm.Provider.Embedded
import AgentSwarm.Text.Bytes
import Mathlib.Data.List.TakeWhile

set_option relaxedAutoImplicit false
set_option autoImplicit false

namespace AgentSwarm

open Text

variable {opening cs t o p q u v : List Char}

/-! ### Texts in braces -/

/-- A text from an opening to a closing brace. -/
structure Braced (o : List Char) : Prop where
  opens : o.head? = some '{'
  closes : o.getLast? = some '}'

namespace Braced

/-- What stands between the braces. -/
theorem exists_eq (h : Braced o) : ∃ inner, o = '{' :: (inner ++ ['}']) := by
  obtain ⟨opens, closes⟩ := h
  cases o with
  | nil => cases opens
  | cons c rest =>
      obtain rfl := Option.some.inj opens
      rcases List.eq_nil_or_concat rest with rfl | ⟨inner, d, rfl⟩
      · cases closes
      · rw [List.concat_eq_append, ← List.cons_append, List.getLast?_concat] at closes
        exact ⟨inner, by rw [List.concat_eq_append, Option.some.inj closes]⟩

theorem ne_nil (h : Braced o) : o ≠ [] := by
  rintro rfl
  cases h.opens

/-- Blanks around are trimmed away, and nothing else. -/
theorem trimChars_eq (h : Braced o) (hu : ∀ c ∈ u, isBlank c = true)
    (hv : ∀ c ∈ v, isBlank c = true) : trimChars (u ++ o ++ v) = o := by
  obtain ⟨inner, rfl⟩ := h.exists_eq
  rw [trimChars, List.append_assoc, trimStart_blank_append hu, List.cons_append,
    show trimStart ('{' :: (inner ++ ['}'] ++ v)) = '{' :: (inner ++ ['}']) ++ v from rfl,
    trimEnd_append_blank hv, trimEnd, ← List.cons_append, List.reverse_append]
  simp [show isBlank '}' = false from rfl]

end Braced

/-! ### Fences -/

/-- The first fence of a text: where its marker stands first, and behind it the next plain one. -/
structure Fences (opening cs before inside after : List Char) : Prop where
  opens : First opening cs before (inside ++ fence ++ after)
  closes : First fence (inside ++ fence ++ after) inside after

/-- **What is found in a fence**: what the first one holds besides blanks. -/
theorem fenced_eq_some_iff : fenced opening cs = some t ↔
    ∃ before inside after, Fences opening cs before inside after ∧ trimChars inside = t ∧ t ≠ [] := by
  constructor
  · intro h
    simp only [fenced, bind, Option.bind_eq_some_iff] at h
    obtain ⟨⟨before, rest⟩, hopens, ⟨inside, after⟩, hcloses, ht⟩ := h
    rw [splitAtFirst_eq_some_iff] at hopens hcloses
    obtain rfl := hcloses.eq
    split at ht
    next => cases ht
    next hne =>
        obtain rfl := Option.some.inj ht
        exact ⟨before, inside, after, ⟨hopens, hcloses⟩, rfl, by simpa using hne⟩
  · rintro ⟨before, inside, after, h, rfl, hne⟩
    exact fenced_append (splitAtFirst_eq_some_iff.2 h.opens) (splitAtFirst_eq_some_iff.2 h.closes) hne

/-- Nothing is found in a fence whose marker does not occur. -/
theorem fenced_eq_none (h : ¬ opening <:+: cs) : fenced opening cs = none := by
  rw [fenced, splitAtFirst_eq_none_iff.2 h]
  rfl

/-- What is found in a fence is a part of the text. -/
theorem infix_of_fenced (h : fenced opening cs = some t) : t ≠ [] ∧ t <:+: cs := by
  obtain ⟨before, inside, after, hfences, rfl, hne⟩ := fenced_eq_some_iff.1 h
  have hinside : inside <:+: cs := by
    rw [hfences.opens.eq]
    exact ⟨before ++ opening, fence ++ after, by simp [List.append_assoc]⟩
  exact ⟨hne, trimChars_isInfix.trans hinside⟩

/-! ### Braces -/

/-- What is found between braces. -/
theorem braced_append (ho : Braced o) (hp : '{' ∉ p) (hq : '}' ∉ q) :
    braced (p ++ o ++ q) = some o := by
  obtain ⟨inner, rfl⟩ := ho.exists_eq
  have hfront : (p ++ '{' :: (inner ++ ['}']) ++ q).dropWhile (· ≠ '{') =
      '{' :: (inner ++ ['}']) ++ q := by
    rw [List.append_assoc, List.dropWhile_append_of_pos fun c hc => by
      simpa using ne_of_mem_of_not_mem hc hp]
    rfl
  have hback : ('{' :: (inner ++ ['}']) ++ q).reverse.dropWhile (· ≠ '}') =
      ('{' :: (inner ++ ['}'])).reverse := by
    rw [List.reverse_append, List.dropWhile_append_of_pos fun c hc => by
      simpa using ne_of_mem_of_not_mem (List.mem_reverse.1 hc) hq]
    simp
  simp only [braced, hfront, hback, List.reverse_reverse]
  rfl

/-- Nothing is found between braces that do not open. -/
theorem braced_eq_none (h : '{' ∉ cs) : braced cs = none := by
  have hfront : cs.dropWhile (· ≠ '{') = [] :=
    List.dropWhile_eq_nil_iff.2 fun c hc => by simpa using ne_of_mem_of_not_mem hc h
  simp only [braced, hfront]
  rfl

/-- Nothing is found between braces that do not close again. -/
theorem braced_eq_none_of_open (hp : '{' ∉ p) (hq : '}' ∉ q) : braced (p ++ '{' :: q) = none := by
  have hfront : (p ++ '{' :: q).dropWhile (· ≠ '{') = '{' :: q := by
    rw [List.dropWhile_append_of_pos fun c hc => by simpa using ne_of_mem_of_not_mem hc hp]
    rfl
  have hback : ('{' :: q).reverse.dropWhile (· ≠ '}') = [] :=
    List.dropWhile_eq_nil_iff.2 fun c hc => by
      rcases List.mem_cons.1 (List.mem_reverse.1 hc) with rfl | hc
      · rfl
      · simpa using ne_of_mem_of_not_mem hc hq
  simp only [braced, hfront, hback]
  rfl

/-! ### Places in the text -/

/-- What is found in a fence, said by places.  None when the text cannot be cut at one of them. -/
def fencedSlice? (opening cs : List Char) : Option (Option (List Char)) :=
  match find? opening cs with
  | none => some none
  | some start => do
      let place := start + utf8Length opening
      let rest ← slice? cs place (utf8Length cs)
      match find? fence rest with
      | none => return none
      | some length => do
          let text := trimChars (← slice? cs place (place + length))
          return if text.isEmpty then none else some text

/-- What is found between braces, said by places. -/
def bracedSlice? (cs : List Char) : Option (Option (List Char)) :=
  match find? ['{'] cs, findLast? '}' cs with
  | some start, some stop =>
      if start < stop then (slice? cs start (stop + 1)).map some else some none
  | _, _ => some none

/-- What is taken for the object, said by places. -/
def embeddedSlice? (cs : List Char) : Option (Option (List Char)) := do
  match ← fencedSlice? jsonFence cs with
  | some text => return some text
  | none =>
      match ← fencedSlice? fence cs with
      | some text => return some text
      | none => bracedSlice? cs

/-- The text can be cut behind the opening of a fence and before its close. -/
theorem fencedSlice?_eq (opening cs : List Char) :
    fencedSlice? opening cs = some (fenced opening cs) := by
  cases hopens : splitAtFirst opening cs with
  | none => simp [fencedSlice?, fenced, find?, hopens]
  | some found =>
      obtain ⟨before, rest⟩ := found
      have hcs := eq_append_of_splitAtFirst hopens
      have hrest : slice? cs (utf8Length before + utf8Length opening) (utf8Length cs) = some rest :=
        slice?_eq (show cs = before ++ opening ++ rest ++ [] by rw [List.append_nil, hcs])
          (utf8Length_append ..) (by simp [hcs, Nat.add_assoc])
      cases hcloses : splitAtFirst fence rest with
      | none => simp [fencedSlice?, fenced, find?, hopens, hrest, hcloses]
      | some found =>
          obtain ⟨inside, after⟩ := found
          have hrest' := eq_append_of_splitAtFirst hcloses
          have hinside : slice? cs (utf8Length before + utf8Length opening)
              (utf8Length before + utf8Length opening + utf8Length inside) = some inside :=
            slice?_eq (show cs = before ++ opening ++ inside ++ (fence ++ after) by simp [hcs, hrest'])
              (utf8Length_append ..) rfl
          simp [fencedSlice?, fenced, find?, hopens, hrest, hcloses, hinside]

/-- The text can be cut before its first opening brace and behind its last closing one. -/
theorem bracedSlice?_eq (cs : List Char) : bracedSlice? cs = some (braced cs) := by
  by_cases hopens : '{' ∈ cs
  case neg =>
      rw [bracedSlice?, find?_singleton_eq_none hopens, braced_eq_none hopens]
  case pos =>
      obtain ⟨p, rest, hcs, hp⟩ := List.eq_append_cons_of_mem hopens
      have hstart : find? ['{'] cs = some (utf8Length p) := by rw [hcs, find?_singleton hp]
      by_cases hcloses : '}' ∈ rest
      case pos =>
          obtain ⟨inner, q, rfl, hq⟩ := exists_last_of_mem hcloses
          have hobject : cs = p ++ '{' :: (inner ++ ['}']) ++ q := by simp [hcs]
          have hstop : findLast? '}' cs = some (utf8Length (p ++ '{' :: inner)) := by
            rw [← findLast?_append hq, hcs, List.append_assoc, List.cons_append]
          have hlt : utf8Length p < utf8Length (p ++ '{' :: inner) := by
            rw [utf8Length_append, utf8Length_cons, show '{'.utf8Size = 1 from rfl]
            omega
          have hslice : slice? cs (utf8Length p) (utf8Length (p ++ '{' :: inner) + 1) =
              some ('{' :: (inner ++ ['}'])) :=
            slice?_eq hobject rfl (by simp [show '}'.utf8Size = 1 from rfl, Nat.add_assoc])
          have hbraced : braced cs = some ('{' :: (inner ++ ['}'])) := by
            rw [hobject, braced_append ⟨rfl, by rw [← List.cons_append, List.getLast?_concat]⟩ hp hq]
          simp only [bracedSlice?, hstart, hstop, hlt, if_true, hslice, hbraced, Option.map_some]
      case neg =>
          have hbraced : braced cs = none := by rw [hcs, braced_eq_none_of_open hp hcloses]
          by_cases hearly : '}' ∈ p
          case pos =>
              -- the last closing brace stands before the first opening one
              obtain ⟨front, back, rfl, hback⟩ := exists_last_of_mem hearly
              have hstop : findLast? '}' cs = some (utf8Length front) := by
                rw [hcs, List.append_assoc, List.cons_append, findLast?_append]
                simp [hback, hcloses]
              have hnot : ¬ utf8Length (front ++ '}' :: back) < utf8Length front := by simp
              simp only [bracedSlice?, hstart, hstop, hnot, if_false, hbraced]
          case neg =>
              have hstop : findLast? '}' cs = none :=
                findLast?_eq_none (by simp [hcs, hearly, hcloses])
              simp only [bracedSlice?, hstart, hstop, hbraced]

/-- **The text can be cut at all places of the search.** -/
theorem embeddedSlice?_eq (cs : List Char) : embeddedSlice? cs = some (embeddedObject cs) := by
  simp only [embeddedSlice?, fencedSlice?_eq, bracedSlice?_eq, embeddedObject]
  cases fenced jsonFence cs <;> cases fenced fence cs <;> rfl

/-! ### Parts of the text -/

/-- What is found between braces is a part of the text. -/
theorem infix_of_braced (h : braced cs = some t) : t ≠ [] ∧ t <:+: cs := by
  simp only [braced] at h
  split at h
  next => cases h
  next hne =>
      obtain rfl := Option.some.inj h
      refine ⟨by simpa using hne, ?_⟩
      have hback (ds : List Char) : (ds.reverse.dropWhile (· ≠ '}')).reverse <:+: ds :=
        (List.reverse_suffix.1 (by
          rw [List.reverse_reverse]
          exact List.dropWhile_suffix _)).isInfix
      exact (hback _).trans (List.dropWhile_suffix _).isInfix

/-- **What is found is a part of the text**, and not an empty one. -/
theorem infix_of_embeddedObject (h : embeddedObject cs = some t) : t ≠ [] ∧ t <:+: cs := by
  rw [embeddedObject, Option.or_eq_some_iff, Option.or_eq_some_iff] at h
  obtain (h | ⟨-, h⟩) | ⟨-, h⟩ := h
  · exact infix_of_fenced h
  · exact infix_of_fenced h
  · exact infix_of_braced h

/-! ### Objects in fences -/

/-- A text has no fence over its end when it has no backtick. -/
theorem not_fence_isInfix (h : '`' ∉ cs) : ¬ fence <:+: cs ++ fence.dropLast := by
  intro hfence
  have hcount := hfence.sublist.count_le '`'
  rw [List.count_append, List.count_eq_zero_of_not_mem h] at hcount
  exact absurd hcount (by decide)

/-- A fence for JSON opens where its marker stands, if there is none before. -/
theorem first_jsonFence (h : ¬ jsonFence <:+: p) (rest : List Char) :
    First jsonFence (p ++ jsonFence ++ rest) p rest :=
  .of_clear fun hearly =>
    h (infix_of_infix_append (d := 'n') rfl hearly (by decide))

/-- A fence opens where its marker stands, if there is no backtick before. -/
theorem first_fence (h : '`' ∉ p) (rest : List Char) :
    First fence (p ++ fence ++ rest) p rest :=
  .of_clear (not_fence_isInfix h)

/-- Blanks have no backtick. -/
theorem backtick_not_mem (h : ∀ c ∈ u, isBlank c = true) : '`' ∉ u := fun hmem =>
  absurd (h _ hmem) (by decide)

/-- Behind an object without fences the next fence is the one that stands there: no marker lies over
a brace. -/
theorem first_close (hu : ∀ c ∈ u, isBlank c = true) (hv : ∀ c ∈ v, isBlank c = true)
    (ho : Braced o) (hclear : ¬ fence <:+: o) (q : List Char) :
    First fence (u ++ o ++ v ++ fence ++ q) (u ++ o ++ v) q := by
  obtain ⟨inner, rfl⟩ := ho.exists_eq
  refine .of_clear fun hearly => ?_
  rw [show u ++ '{' :: (inner ++ ['}']) ++ v ++ fence.dropLast =
      u ++ '{' :: (inner ++ '}' :: (v ++ fence.dropLast)) by simp,
    infix_append_cons_iff (by decide), infix_append_cons_iff (by decide)] at hearly
  obtain hleft | hinner | hright := hearly
  · exact backtick_not_mem hu (hleft.subset (List.mem_cons_self ..))
  · exact hclear (hinner.trans ⟨['{'], ['}'], by simp⟩)
  · exact not_fence_isInfix (backtick_not_mem hv) hright

/-- An object is found in the first fence. -/
theorem fenced_object (hu : ∀ c ∈ u, isBlank c = true) (hv : ∀ c ∈ v, isBlank c = true)
    (ho : Braced o) (hclear : ¬ fence <:+: o)
    (h : First opening cs p (u ++ o ++ v ++ fence ++ q)) : fenced opening cs = some o :=
  fenced_eq_some_iff.2 ⟨p, u ++ o ++ v, q, ⟨h, first_close hu hv ho hclear q⟩, ho.trimChars_eq hu hv,
    ho.ne_nil⟩

/-- **An object in a fence is found and preferred**: in the first fence for JSON whatever stands
around it, and in the first plain one when there is none for JSON.  Whatever the text, it can be cut
at all places of the search, and what is found is a part of it. -/
theorem embeddedObject_fenced :
    (∀ {p u o v q : List Char}, (∀ c ∈ u, isBlank c = true) → (∀ c ∈ v, isBlank c = true) →
      Braced o → ¬ fence <:+: o → ¬ jsonFence <:+: p →
        embeddedObject (p ++ jsonFence ++ u ++ o ++ v ++ fence ++ q) = some o) ∧
    (∀ {p u o v q : List Char}, (∀ c ∈ u, isBlank c = true) → (∀ c ∈ v, isBlank c = true) →
      Braced o → ¬ fence <:+: o → '`' ∉ p →
        ¬ jsonFence <:+: p ++ fence ++ u ++ o ++ v ++ fence ++ q →
          embeddedObject (p ++ fence ++ u ++ o ++ v ++ fence ++ q) = some o) ∧
    ∀ cs : List Char, embeddedSlice? cs = some (embeddedObject cs) ∧
      ∀ t, embeddedObject cs = some t → t ≠ [] ∧ t <:+: cs := by
  refine ⟨?json, ?plain, fun cs => ⟨embeddedSlice?_eq cs, fun t => infix_of_embeddedObject⟩⟩
  case json =>
      intro p u o v q hu hv ho hclear hp
      have hfirst : First jsonFence (p ++ jsonFence ++ u ++ o ++ v ++ fence ++ q) p
          (u ++ o ++ v ++ fence ++ q) := by
        simpa using first_jsonFence hp (u ++ o ++ v ++ fence ++ q)
      rw [embeddedObject, fenced_object hu hv ho hclear hfirst]
      rfl
  case plain =>
      intro p u o v q hu hv ho hclear hp hplain
      have hfirst : First fence (p ++ fence ++ u ++ o ++ v ++ fence ++ q) p
          (u ++ o ++ v ++ fence ++ q) := by
        simpa using first_fence hp (u ++ o ++ v ++ fence ++ q)
      rw [embeddedObject, fenced_eq_none hplain, fenced_object hu hv ho hclear hfirst]
      rfl

/-- An object in a fence for JSON behind braces and a plain fence, one in a plain fence, and one that
stands without a fence. -/
theorem embeddedObject_fenced_digit :
    embeddedObject (['{', '}', '`', '`', '`', 'x', '`', '`', '`'] ++ jsonFence ++ ['\n'] ++
        ['{', '"', 'a', '"', ':', '1', '}'] ++ ['\n'] ++ fence ++ ['.']) =
      some ['{', '"', 'a', '"', ':', '1', '}'] ∧
    embeddedObject (['A', ':'] ++ fence ++ ['\n'] ++ ['{', '"', 'a', '"', ':', '1', '}'] ++ ['\n'] ++
        fence ++ ['.']) = some ['{', '"', 'a', '"', ':', '1', '}'] ∧
    embeddedSlice? ['é', '{', '}'] = some (embeddedObject ['é', '{', '}']) ∧
      ['{', '}'] <:+: ['é', '{', '}'] := by
  have hblank : ∀ c ∈ ['\n'], isBlank c = true := List.forall_mem_singleton.2 rfl
  obtain ⟨hjson, hplain, hall⟩ := embeddedObject_fenced
  exact ⟨hjson hblank hblank ⟨rfl, rfl⟩ (by decide) (by decide),
    hplain hblank hblank ⟨rfl, rfl⟩ (by decide) (by decide) (by decide),
    (hall _).1, ((hall _).2 ['{', '}'] (by decide)).2⟩

end AgentSwarm

/-
**Objects without a fence.**

A completion may consist of its object alone, with or without prose around it.  What is taken then
goes from the first brace to the last, so braces in the strings of the object do no harm.  Fences in
them do: the search for fences goes first, and it does not know where a string begins.  When the
object itself holds a fence that is not blank, what the fence holds is taken for the object.  What an
object is, is said by the reader of JSON.

Main definitions:

* `AgentSwarm.Prose` — a text without backticks and braces;
* `AgentSwarm.HoldsFence` — a text whose first fence, for JSON or plain, is not blank.

Main results:

* `AgentSwarm.fenced_prose` — prose around an object does not change what its fences hold;
* `AgentSwarm.embeddedObject_prose` — what is found in a braced text with prose around it;
* `AgentSwarm.Braced.of_parse` — an object stands in braces;
* `AgentSwarm.embeddedObject_bare` — **an object without a fence is found exactly when it holds
  none**;
* `AgentSwarm.embeddedObject_fenceQuoted` — an object whose string is a fence is lost.
-/

import AgentSwarm.Proofs.Json.Rest
import AgentSwarm.Proofs.Provider.Fences
import AgentSwarm.Provider.Answer

set_option relaxedAutoImplicit false
set_option autoImplicit false

namespace AgentSwarm

open Text

variable {opening cs o p q : List Char}

/-- A text without backticks and braces. -/
structure Prose (cs : List Char) : Prop where
  backtick : '`' ∉ cs
  opens : '{' ∉ cs
  closes : '}' ∉ cs

/-- A text whose first fence, for JSON or plain, is not blank. -/
def HoldsFence (cs : List Char) : Prop :=
  ∃ opening ∈ [jsonFence, fence], ∃ before inside after,
    Fences opening cs before inside after ∧ ∃ c ∈ inside, isBlank c = false

/-! ### Fences in a text -/

/-- Something is found in a fence exactly when the first one is not blank. -/
theorem fenced_ne_none_iff : fenced opening cs ≠ none ↔
    ∃ before inside after, Fences opening cs before inside after ∧ ∃ c ∈ inside, isBlank c = false := by
  have hnil (inside : List Char) : trimChars inside ≠ [] ↔ ∃ c ∈ inside, isBlank c = false := by
    simp [trimChars_eq_nil_iff]
  constructor
  · intro h
    obtain ⟨t, ht⟩ := Option.ne_none_iff_exists'.1 h
    obtain ⟨before, inside, after, hfences, rfl, hne⟩ := fenced_eq_some_iff.1 ht
    exact ⟨before, inside, after, hfences, (hnil inside).1 hne⟩
  · rintro ⟨before, inside, after, hfences, hinside⟩
    rw [fenced_eq_some_iff.2 ⟨before, inside, after, hfences, rfl, (hnil inside).2 hinside⟩]
    exact Option.some_ne_none _

theorem holdsFence_iff : HoldsFence cs ↔ (fenced jsonFence cs).or (fenced fence cs) ≠ none := by
  simp only [HoldsFence, ← fenced_ne_none_iff, List.mem_cons, List.not_mem_nil, or_false,
    exists_eq_or_imp, exists_eq_left, ne_eq, Option.or_eq_none_iff, not_and_or]

/-- What a fence holds is shorter than the text. -/
theorem length_lt_of_fenced {t : List Char} (h : fenced opening cs = some t) :
    t.length < cs.length := by
  obtain ⟨before, inside, after, hfences, rfl, -⟩ := fenced_eq_some_iff.1 h
  have hinside : (trimChars inside).length ≤ inside.length := trimChars_isInfix.length_le
  have hfence : fence.length = 3 := rfl
  rw [hfences.opens.eq]
  simp only [List.length_append]
  omega

/-! ### Prose around an object -/

/-- Text without backticks before a text does not change what its fences hold. -/
theorem fenced_append_left {ws : List Char} (hp : '`' ∉ p) :
    fenced ('`' :: ws) (p ++ cs) = fenced ('`' :: ws) cs := by
  rw [fenced, splitAtFirst_append_left hp, fenced]
  cases splitAtFirst ('`' :: ws) cs <;> rfl

/-- Text without backticks behind a brace does not change what the fences before it hold. -/
theorem fenced_append_right {ws : List Char} (hws : '}' ∉ ws) (hq : '`' ∉ q) :
    fenced ('`' :: ws) (cs ++ '}' :: q) = fenced ('`' :: ws) (cs ++ ['}']) := by
  have hopening : '}' ∉ '`' :: ws := by simp [hws]
  rw [fenced, splitAtFirst_append_right hopening hq, fenced]
  cases hopens : splitAtFirst ('`' :: ws) (cs ++ ['}']) with
  | none => rfl
  | some found =>
      obtain ⟨before, rest⟩ := found
      -- the brace is not in the marker, so it stands at the end of what is behind it
      obtain ⟨rest, rfl⟩ : ∃ front, rest = front ++ ['}'] := by
        have hlast := congrArg List.getLast? (eq_append_of_splitAtFirst hopens)
        rw [List.getLast?_concat] at hlast
        rcases List.eq_nil_or_concat rest with rfl | ⟨front, d, rfl⟩
        · rw [List.append_nil, List.getLast?_append_of_ne_nil _ (by simp)] at hlast
          exact absurd (List.mem_of_getLast? hlast.symm) hopening
        · rw [List.concat_eq_append, ← List.append_assoc, List.getLast?_concat] at hlast
          exact ⟨front, by rw [List.concat_eq_append, Option.some.inj hlast]⟩
      have hcloses : splitAtFirst fence (rest ++ ['}'] ++ q) =
          (splitAtFirst fence (rest ++ ['}'])).map fun found => (found.1, found.2 ++ q) := by
        rw [List.append_assoc]
        exact splitAtFirst_append_right (by decide) hq
      simp only [Option.map_some, bind, Option.bind_some, hcloses]
      cases splitAtFirst fence (rest ++ ['}']) <;> rfl

/-- Prose around an object does not change what its fences hold. -/
theorem fenced_prose {ws : List Char} (hws : '}' ∉ ws) (ho : Braced o) (hp : Prose p)
    (hq : Prose q) : fenced ('`' :: ws) (p ++ o ++ q) = fenced ('`' :: ws) o := by
  obtain ⟨inner, rfl⟩ := ho.exists_eq
  have happend : p ++ '{' :: (inner ++ ['}']) ++ q = p ++ ('{' :: inner ++ '}' :: q) := by simp
  rw [happend, fenced_append_left hp.backtick, fenced_append_right hws hq.backtick,
    List.cons_append]

/-- What is found in an object with prose around it: what its fences hold, or the object. -/
theorem embeddedObject_prose (ho : Braced o) (hp : Prose p) (hq : Prose q) :
    embeddedObject (p ++ o ++ q) = ((fenced jsonFence o).or (fenced fence o)).or (some o) := by
  rw [embeddedObject, braced_append ho hp.opens hq.closes, jsonFence, fence,
    fenced_prose (by decide) ho hp hq, fenced_prose (by decide) ho hp hq]

/-- An object with prose around it is found exactly when it holds no fence. -/
theorem embeddedObject_prose_eq_iff (ho : Braced o) (hp : Prose p) (hq : Prose q) :
    embeddedObject (p ++ o ++ q) = some o ↔ ¬ HoldsFence o := by
  rw [embeddedObject_prose ho hp hq, holdsFence_iff, not_not]
  constructor
  · intro h
    rw [Option.or_eq_some_iff] at h
    obtain h | ⟨h, -⟩ := h
    · -- what a fence holds is shorter than the object
      rw [Option.or_eq_some_iff] at h
      obtain h | ⟨-, h⟩ := h
      · exact absurd (length_lt_of_fenced h) (Nat.lt_irrefl _)
      · exact absurd (length_lt_of_fenced h) (Nat.lt_irrefl _)
    · exact h
  · intro h
    rw [h, Option.none_or]

/-! ### Objects -/

/-- A text that is an object stands in braces when there are no blanks at its ends. -/
theorem Braced.of_parse {members : Members Float}
    (hparse : Json.parse (String.ofList o) = .ok (.obj members)) (htrim : trimChars o = o) :
    Braced o := by
  obtain ⟨u, inner, v, he, hu, hv⟩ := Json.exists_braces_of_parse hparse
  have hblank (c : Char) (hc : Json.isSpace c = true) : isBlank c = true := by
    rw [Json.isSpace] at hc
    simp only [Bool.or_eq_true, beq_iff_eq] at hc
    rcases hc with ((rfl | rfl) | rfl) | rfl <;> rfl
  have hbraced : Braced ('{' :: (inner ++ ['}'])) :=
    ⟨rfl, by rw [← List.cons_append, List.getLast?_concat]⟩
  have hinner := hbraced.trimChars_eq (fun c hc => hblank c (hu c hc)) fun c hc => hblank c (hv c hc)
  rw [← he, htrim] at hinner
  rwa [hinner]

/-- The object that is found in a completion is the object of the answer. -/
theorem objectOf_eq_ok {members : Members Float} (h : embeddedObject cs = some o)
    (hparse : Json.parse (String.ofList o) = .ok (.obj members)) :
    objectOf (String.ofList cs) = .ok members := by
  simp only [objectOf, String.toList_ofList, h, hparse]

/-- **An object without a fence is found exactly when it holds none.**  Then it is the object of the
answer. -/
theorem embeddedObject_bare {members : Members Float}
    (hparse : Json.parse (String.ofList o) = .ok (.obj members)) (htrim : trimChars o = o)
    (hp : Prose p) (hq : Prose q) :
    (embeddedObject (p ++ o ++ q) = some o ↔ ¬ HoldsFence o) ∧
      ∀ {P S : Type} (a : Adviser P) (answer : P → String → GenerationOptions → S → ProviderAnswer × S)
        (s : S) (request : Request) (completion : Completion), ¬ HoldsFence o →
        completion.text = String.ofList (p ++ o ++ q) →
        ((a.registry.course request.profile).run (fun p s =>
          answer p (a.promptFor request.prompt request.context) a.options s) s).answer = .ok completion →
          (a.invoke answer s request).1.reply = .answer
            ⟨members, (members.lookup "confidence").bind JsonOf.number?,
              some ⟨completion.usage.totalTokens,
                a.cost request.profile completion.usage.totalTokens⟩⟩ := by
  have hfound := embeddedObject_prose_eq_iff (.of_parse hparse htrim) hp hq
  refine ⟨hfound, fun a answer s request completion hclear htext hanswer => ?_⟩
  have hobject : objectOf completion.text = .ok members := by
    rw [htext, objectOf_eq_ok (hfound.2 hclear) hparse]
  simp only [Adviser.invoke, hanswer, Adviser.answerOf, hobject]

/-! ### Two objects -/

namespace Sample

/-- An object whose string is a brace. -/
def braceQuoted : List Char := ['{', '"', 'v', '"', ':', '"', '}', '"', '}']

/-- An object whose string is a fence. -/
def fenceQuoted : List Char :=
  ['{', '"', 'v', 'a', 'l', 'u', 'e', '"', ':', '"', '`', '`', '`', 'x', '`', '`', '`', '"', '}']

/-- An adviser with one provider. -/
def adviser : Adviser Unit :=
  .ofRegistry ((Registry.empty 3 ⟨0⟩).register "p" () [{ (default : ModelEntry) with aliasName := "m" }])

/-- A completion of seven tokens. -/
def completion (text : List Char) : Completion :=
  { (default : Completion) with text := String.ofList text, usage := ⟨3, 4, 7⟩ }

end Sample

/-- Braces in a string do no harm. -/
theorem embeddedObject_braceQuoted :
    embeddedObject (['I', ':'] ++ Sample.braceQuoted ++ ['.']) = some Sample.braceQuoted ∧
      (Sample.adviser.invoke
        (fun _ _ _ s => (.ok (Sample.completion (['I', ':'] ++ Sample.braceQuoted ++ ['.'])), s)) ()
        ⟨"a", "m", "p", []⟩).1.reply =
          .answer ⟨[("v", .str "\x7d")], none, some ⟨7, Sample.adviser.cost "m" 7⟩⟩ := by
  have hclear : ¬ HoldsFence Sample.braceQuoted := by
    rw [holdsFence_iff]
    decide
  have hparse : Json.parse (String.ofList Sample.braceQuoted) = .ok (.obj [("v", .str "\x7d")]) := by
    rw [Json.parse, String.toList_ofList]
    rfl
  have hconfidence : (List.lookup "confidence" [("v", (.str "\x7d" : Json))]).bind JsonOf.number? =
      none := by
    simp [List.lookup_cons]
  have hanswer : ((Sample.adviser.registry.course "m").run (fun _ s =>
      (.ok (Sample.completion (['I', ':'] ++ Sample.braceQuoted ++ ['.'])), s)) ()).answer =
        .ok (Sample.completion (['I', ':'] ++ Sample.braceQuoted ++ ['.'])) := by
    rfl
  obtain ⟨hfound, hinvoke⟩ := embeddedObject_bare (p := ['I', ':']) (q := ['.']) hparse rfl
    ⟨by decide, by decide, by decide⟩ ⟨by decide, by decide, by decide⟩
  refine ⟨hfound.2 hclear, ?_⟩
  have hreply := hinvoke Sample.adviser (fun _ _ _ s =>
    (.ok (Sample.completion (['I', ':'] ++ Sample.braceQuoted ++ ['.'])), s)) () ⟨"a", "m", "p", []⟩ _
    hclear rfl hanswer
  rw [hconfidence] at hreply
  exact hreply

/-- **A fence in a string does.**  The text is an object, but what the fence holds is taken for it. -/
theorem embeddedObject_fenceQuoted :
    trimChars Sample.fenceQuoted = Sample.fenceQuoted ∧
      Json.parse (String.ofList Sample.fenceQuoted) = .ok (.obj [("value", .str "```x```")]) ∧
      embeddedObject Sample.fenceQuoted = some ['x'] ∧
      objectOf (String.ofList Sample.fenceQuoted) =
        .error (.malformed "Invalid JSON: expected value at line 1 column 1") := by
  have hfound : embeddedObject Sample.fenceQuoted = some ['x'] := rfl
  have hparse : Json.parse (String.ofList ['x']) = .error ⟨.expectedValue, 0⟩ := by
    rw [Json.parse, String.toList_ofList]
    rfl
  refine ⟨rfl, ?_, hfound, ?_⟩
  · rw [Json.parse, String.toList_ofList]
    rfl
  · simp only [objectOf, String.toList_ofList, hfound, hparse]
    rfl

end AgentSwarm

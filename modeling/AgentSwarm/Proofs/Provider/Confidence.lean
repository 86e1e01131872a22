/-
**Confidences stay in answers.**

An adviser reads the confidence of an agent from the object of its completion, and leaves it there.
When the object has a member `value`, that is the answer, and the confidence is outside it: agents
whose objects differ in nothing else give one answer.  Otherwise the whole object is the answer, with
the confidence as one of its members, and such agents give two answers: a vote counts them apart,
though all that they say is the same.

Main definitions:

* `AgentSwarm.Adviser.Completes` — the object of the completion that answers a request;
* `AgentSwarm.DifferInConfidence` — two objects with different confidences, and equal otherwise;
* `AgentSwarm.Adviser.resultOf` — the result of an agent whose request was replied to.

Main results:

* `AgentSwarm.clampUnit_pos` — a positive confidence counts;
* `AgentSwarm.confidenceWeighted_of_eq` — ballots for one answer are reduced to it;
* `AgentSwarm.DifferInConfidence.answerIn_eq_iff` — the answers are equal when they have a value;
* `AgentSwarm.Adviser.agree_iff` — **agents agree across confidences exactly when there is a
  value**;
* `AgentSwarm.Adviser.apart_without_value` — two agents that say the same and are counted apart.
-/

import AgentSwarm.Proofs.Consensus.Keys
import AgentSwarm.Proofs.Json.Reread
import AgentSwarm.Proofs.Provider.Bare

set_option relaxedAutoImplicit false
set_option autoImplicit false

namespace AgentSwarm

/-! ### Positive doubles -/

section Positive

open Float.Model

variable {x : Float}

theorem less_eq_unpacked (x y : Float) :
    Scalar.less x y = x.toModel.unpack.lt y.toModel.unpack := by
  show decide (Float.lt x y = true) = _
  rw [Bool.decide_eq_true, Float.lt]
  exact Bool.decide_eq_true

theorem unpack_zero : (Scalar.zero : Float).toModel.unpack = .zero .positive := rfl

theorem isNumber_of_pos (h : 0 < x) : Scalar.isNumber x = true := by
  have hx : Scalar.less Scalar.zero x = true := decide_eq_true h
  rw [less_eq_unpacked, unpack_zero] at hx
  show (!x.toModel.unpack.isNaN) = true
  cases hu : x.toModel.unpack with
  | notANumber =>
      rw [hu] at hx
      cases hx
  | zero | infinity | finite => rfl

theorem not_less_zero_of_pos (h : 0 < x) : Scalar.less x Scalar.zero = false := by
  have hx : Scalar.less Scalar.zero x = true := decide_eq_true h
  rw [less_eq_unpacked, unpack_zero] at hx ⊢
  cases hu : x.toModel.unpack with
  | notANumber | zero => rfl
  | infinity s | finite s =>
      rw [hu] at hx
      cases s with
      | positive => rfl
      | negative => cases hx

/-- A positive confidence counts. -/
theorem clampUnit_pos (h : 0 < x) : Scalar.less Scalar.zero (Scalar.clampUnit x) = true := by
  rw [Scalar.clampUnit, if_pos (isNumber_of_pos h), Scalar.clamp, not_less_zero_of_pos h,
    if_neg Bool.false_ne_true]
  split
  next => decide
  next => exact decide_eq_true h

end Positive

/-! ### Objects of completions -/

/-- The object of a completion is well-formed. -/
theorem wellFormed_of_objectOf {text : String} {m : Members Float} (h : objectOf text = .ok m) :
    (JsonOf.obj m : Json).WellFormed := by
  unfold objectOf at h
  split at h
  next => cases h
  next cs _ =>
      split at h
      next => cases h
      next members hparse =>
          cases h
          rw [Json.parse] at hparse
          obtain ⟨⟨v, rest⟩, hread, hparse⟩ := Json.bind_eq_ok.1 hparse
          obtain ⟨-, -, hsettle⟩ := Json.bind_eq_ok.1 hparse
          rw [← Except.ok.inj hsettle]
          exact ((Json.sound _).value hread).writable.settle
      next => cases h

namespace Adviser

variable {P S : Type} {a : Adviser P}
  {answer : P → String → GenerationOptions → S → ProviderAnswer × S} {s : S} {request : Request}
  {m : Members Float}

/-- What the providers of an adviser complete a request to is the object `m`. -/
def Completes (a : Adviser P) (answer : P → String → GenerationOptions → S → ProviderAnswer × S)
    (s : S) (request : Request) (m : Members Float) : Prop :=
  ∃ completion, ((a.registry.course request.profile).run (fun p s =>
      answer p (a.promptFor request.prompt request.context) a.options s) s).answer = .ok completion ∧
    objectOf completion.text = .ok m

/-- The confidence that is reported is a member of the object, and the object is passed on whole. -/
theorem Completes.reply (h : a.Completes answer s request m) :
    ∃ usage, (a.invoke answer s request).1.reply =
      .answer ⟨m, (m.lookup "confidence").bind JsonOf.number?, usage⟩ := by
  obtain ⟨completion, hanswer, hobject⟩ := h
  simp only [invoke, hanswer, answerOf, hobject, Reply.answer.injEq, InferenceResponse.mk.injEq,
    true_and, exists_eq']

theorem Completes.wellFormed (h : a.Completes answer s request m) :
    (JsonOf.obj m : Json).WellFormed := by
  obtain ⟨completion, -, hobject⟩ := h
  exact wellFormed_of_objectOf hobject

end Adviser

/-! ### Answers -/

/-- The answer in a well-formed object is well-formed. -/
theorem JsonOf.WellFormed.answerIn {m : Members Float} {v : Json}
    (h : (JsonOf.obj m : Json).WellFormed) (hv : AgentResult.answerIn m = some v) :
    v.WellFormed := by
  unfold AgentResult.answerIn at hv
  split at hv
  next w hw =>
      split at hv
      next => cases hv
      next =>
          obtain rfl := Option.some.inj hv
          cases h with
          | obj _ _ hmembers => exact hmembers _ (mem_of_lookup_eq_some hw)
  next =>
      rw [← Option.some.inj hv]
      exact h

/-- Two objects that are equal except for their confidences, which are different positive numbers. -/
structure DifferInConfidence (m m' : Members Float) : Prop where
  positive : ∃ x, (m.lookup "confidence").bind JsonOf.number? = some x ∧ 0 < x
  positive' : ∃ x, (m'.lookup "confidence").bind JsonOf.number? = some x ∧ 0 < x
  apart : m.lookup "confidence" ≠ m'.lookup "confidence"
  others : ∀ key, key ≠ "confidence" → m.lookup key = m'.lookup key

namespace DifferInConfidence

variable {m m' : Members Float}

theorem lookup_value (h : DifferInConfidence m m') : m.lookup "value" = m'.lookup "value" :=
  h.others "value" (by decide)

/-- The answers in the objects are equal when they have a value. -/
theorem answerIn_eq_iff (h : DifferInConfidence m m') :
    AgentResult.answerIn m = AgentResult.answerIn m' ↔ (m.lookup "value").isSome := by
  unfold AgentResult.answerIn
  rw [← h.lookup_value]
  cases m.lookup "value" with
  | some v => simp
  | none =>
      simp only [Option.some.injEq, JsonOf.obj.injEq, Option.isSome_none, Bool.false_eq_true,
        iff_false]
      exact fun heq => h.apart (congrArg (List.lookup "confidence") heq)

end DifferInConfidence

/-- The answer in an object is its value unless that is null, or the object itself. -/
theorem answerIn_eq {m : Members Float} (h : m.lookup "value" ≠ some .null) :
    AgentResult.answerIn m = some ((m.lookup "value").getD (.obj m)) := by
  unfold AgentResult.answerIn
  cases hvalue : m.lookup "value" with
  | none => rfl
  | some v =>
      cases v with
      | null => exact absurd hvalue h
      | bool | int | real | str | arr | obj => rfl

/-- Ballots for one answer are reduced to it. -/
theorem confidenceWeighted_of_eq {ballots : List (Ballot Float)} {v : Json} (hv : v.WellFormed)
    (hne : ballots ≠ []) (h : ∀ b ∈ ballots, b.answer = v) (metadata : Members Float) :
    (confidenceWeighted ballots metadata).value = some v := by
  have hsame : v.same v = true :=
    (JsonOf.same_iff_alike hv hv).2 (.refl (fun _ hx => ((Decimal.sameNumber_iff hx).2 rfl).1) hv)
  exact congrArg some (combine_of_same hsame (by simpa using hne) (List.forall_mem_map.2 h))

/-! ### Agents -/

/-- Whoever counts and has an answer has a ballot. -/
theorem mem_survivors {results : List (String × AgentResult Float)} {id : String}
    {r : AgentResult Float} {v : Json} (hmem : (id, r) ∈ results) (hcounts : r.counts = true)
    (hanswer : r.answer = some v) : ⟨id, v, r.confidence⟩ ∈ survivors results := by
  refine List.mem_filterMap.2 ⟨_, hmem, ?_⟩
  simp only [hcounts, if_true, hanswer, Option.map_some]

namespace Adviser

variable {P S : Type} {a : Adviser P}
  {answer : P → String → GenerationOptions → S → ProviderAnswer × S} {s s' : S}
  {request request' : Request} {m m' : Members Float}

/-- The result of an agent whose request an adviser replied to. -/
def resultOf (a : Adviser P) (answer : P → String → GenerationOptions → S → ProviderAnswer × S)
    (s : S) (request : Request) (x : Executor) (agent : Agent) (serial startedAt now : ℕ) :
    AgentResult Float :=
  x.resultOf agent serial startedAt now (.replied (a.invoke answer s request).1.reply)

/-- **An agent whose request was completed takes part** when it is confident, with the answer in its
object. -/
theorem Completes.takesPart (h : a.Completes answer s request m)
    (hpositive : ∃ c, (m.lookup "confidence").bind JsonOf.number? = some c ∧ 0 < c) (x : Executor)
    (agent : Agent) (serial startedAt now : ℕ) :
    (a.resultOf answer s request x agent serial startedAt now).counts = true ∧
      (a.resultOf answer s request x agent serial startedAt now).answer =
        AgentResult.answerIn m := by
  obtain ⟨c, hconfidence, hpos⟩ := hpositive
  obtain ⟨usage, hreply⟩ := h.reply
  rw [resultOf, hreply, hconfidence]
  exact ⟨clampUnit_pos hpos, rfl⟩

section Pair

variable (h : a.Completes answer s request m) (h' : a.Completes answer s' request' m')
  (hdiffer : DifferInConfidence m m') (x : Executor) (agent agent' : Agent)
  (serial startedAt now serial' startedAt' now' : ℕ)

include h h' hdiffer

/-- The answers of the two agents are equal when there is a value. -/
theorem answer_eq_iff :
    (a.resultOf answer s request x agent serial startedAt now).answer =
        (a.resultOf answer s' request' x agent' serial' startedAt' now').answer ↔
      (m.lookup "value").isSome := by
  rw [(h.takesPart hdiffer.positive x agent serial startedAt now).2,
    (h'.takesPart hdiffer.positive' x agent' serial' startedAt' now').2, hdiffer.answerIn_eq_iff]

/-- A vote by the default key counts the two agents together when there is a value. -/
theorem sharesBloc_resultOf_iff (hvalue : m.lookup "value" ≠ some .null)
    {results : List (String × AgentResult Float)} (hresults : Ascending results)
    (hmem : (agent.id, a.resultOf answer s request x agent serial startedAt now) ∈ results)
    (hmem' : (agent'.id, a.resultOf answer s' request' x agent' serial' startedAt' now') ∈
      results) :
    SharesBloc VoteKey.compact.keyOf (survivors results) agent.id agent'.id ↔
      (m.lookup "value").isSome := by
  obtain ⟨hcounts, hr⟩ := h.takesPart hdiffer.positive x agent serial startedAt now
  obtain ⟨hcounts', hr'⟩ := h'.takesPart hdiffer.positive' x agent' serial' startedAt' now'
  have hw := answerIn_eq hvalue
  have hw' := answerIn_eq (hdiffer.lookup_value ▸ hvalue)
  have hshares : SharesBloc VoteKey.compact.keyOf (survivors results) agent.id agent'.id ↔ _ :=
    sharesBloc_iff (nodup_survivors hresults) (mem_survivors hmem hcounts (hr.trans hw))
      (mem_survivors hmem' hcounts' (hr'.trans hw'))
  rw [hshares, ← hdiffer.answerIn_eq_iff, hw, hw', Option.some.injEq]
  exact ⟨Json.compact_injective (h.wellFormed.answerIn hw) (h'.wellFormed.answerIn hw'),
    congrArg Json.compact⟩

/-- The two agents alone are reduced to the value. -/
theorem confidenceWeighted_resultOf (hvalue : m.lookup "value" ≠ some .null) {v : Json}
    (hv : m.lookup "value" = some v) (key : VoteKey Float) :
    (aggregate key .confidenceWeighted
      [(agent.id, a.resultOf answer s request x agent serial startedAt now),
        (agent'.id, a.resultOf answer s' request' x agent' serial' startedAt' now')]).value =
      some v := by
  obtain ⟨hcounts, hr⟩ := h.takesPart hdiffer.positive x agent serial startedAt now
  obtain ⟨hcounts', hr'⟩ := h'.takesPart hdiffer.positive' x agent' serial' startedAt' now'
  have hanswer : AgentResult.answerIn m = some v := by
    rw [answerIn_eq hvalue, hv, Option.getD_some]
  have hanswer' : AgentResult.answerIn m' = some v := by
    rw [← hanswer, eq_comm, hdiffer.answerIn_eq_iff, hv, Option.isSome_some]
  rw [hanswer] at hr
  rw [hanswer'] at hr'
  simp only [aggregate, survivors, List.filterMap_cons, List.filterMap_nil, hcounts, hcounts', hr,
    hr', if_true, Option.map_some, List.isEmpty_cons, Bool.false_eq_true, if_false]
  exact confidenceWeighted_of_eq (h.wellFormed.answerIn hanswer) (by simp) (by simp) _

end Pair

/-- **Agents agree across confidences exactly when there is a value.**  The objects of two agents
differ in nothing but the confidence.  With a value they give one answer: a vote by the default key
counts them together, and both of them alone are reduced to the value.  Without one their answers are
different, and a vote counts them apart. -/
theorem agree_iff (h : a.Completes answer s request m) (h' : a.Completes answer s' request' m')
    (hdiffer : DifferInConfidence m m') (hvalue : m.lookup "value" ≠ some .null) (x : Executor)
    (agent agent' : Agent) (serial startedAt now serial' startedAt' now' : ℕ) :
    let r := a.resultOf answer s request x agent serial startedAt now
    let r' := a.resultOf answer s' request' x agent' serial' startedAt' now'
    (r.answer = r'.answer ↔ (m.lookup "value").isSome) ∧
    (∀ results, Ascending results → (agent.id, r) ∈ results → (agent'.id, r') ∈ results →
      (SharesBloc VoteKey.compact.keyOf (survivors results) agent.id agent'.id ↔
        (m.lookup "value").isSome)) ∧
    ∀ key v, m.lookup "value" = some v →
      (aggregate key .confidenceWeighted [(agent.id, r), (agent'.id, r')]).value = some v := by
  refine ⟨answer_eq_iff h h' hdiffer .., fun results hresults hmem hmem' => ?_, fun key v hv => ?_⟩
  · exact sharesBloc_resultOf_iff h h' hdiffer _ _ _ _ _ _ _ _ _ hvalue hresults hmem hmem'
  · exact confidenceWeighted_resultOf h h' hdiffer _ _ _ _ _ _ _ _ _ hvalue hv key

end Adviser

/-! ### Two agents -/

namespace Sample

/-- An object with the text `lp` under a key, and a confidence. -/
def judgement (key confidence : List Char) : List Char :=
  ['{', '"'] ++ key ++ ['"', ':', '"', 'l', 'p', '"', ',', '"', 'c', 'o', 'n', 'f', 'i', 'd', 'e',
    'n', 'c', 'e', '"', ':'] ++ confidence ++ ['}']

/-- The members of such an object, in order. -/
def judged (key : String) (confidence : Float) : Members Float :=
  [("confidence", .real confidence), (key, .str "lp")]

/-- A provider that answers with the text it is given as its state. -/
def replying (_ : Unit) (_ : String) (_ : GenerationOptions) (text : List Char) :
    ProviderAnswer × List Char := (.ok (completion text), text)

/-- An agent that is asked. -/
def judge (id : String) : Agent := { (default : Agent) with id }

/-- What is asked, by an alias that is served. -/
def question : Request := ⟨"a", "m", "p", []⟩

theorem completes {text : List Char} {m : Members Float} (h : embeddedObject text = some text)
    (hparse : Json.parse (String.ofList text) = .ok (.obj m)) :
    adviser.Completes replying text question m :=
  ⟨completion text, rfl, objectOf_eq_ok h hparse⟩

theorem differInConfidence_judged (key : String) :
    DifferInConfidence (judged key 0.5) (judged key 0.25) := by
  refine ⟨⟨0.5, rfl, by decide⟩, ⟨0.25, rfl, by decide⟩, fun h => ?_, fun k hk => ?_⟩
  · have heq : (0.5 : Float) = 0.25 := JsonOf.real.inj (Option.some.inj h)
    exact absurd (congrArg Decimal.biasedOf heq) (by decide)
  · have hne : (k == "confidence") = false := by simpa using hk
    simp only [judged, List.lookup_cons, hne]

/-- The judgement under the key `value`. -/
theorem completes_value :
    adviser.Completes replying (judgement ['v', 'a', 'l', 'u', 'e'] ['0', '.', '5']) question
        (judged "value" 0.5) ∧
      adviser.Completes replying (judgement ['v', 'a', 'l', 'u', 'e'] ['0', '.', '2', '5']) question
        (judged "value" 0.25) := by
  refine ⟨completes rfl ?_, completes rfl ?_⟩ <;>
  · rw [Json.parse, String.toList_ofList]
    rfl

/-- The judgement under another key. -/
theorem completes_way :
    adviser.Completes replying (judgement ['w', 'a', 'y'] ['0', '.', '5']) question
        (judged "way" 0.5) ∧
      adviser.Completes replying (judgement ['w', 'a', 'y'] ['0', '.', '2', '5']) question
        (judged "way" 0.25) := by
  refine ⟨completes rfl ?_, completes rfl ?_⟩ <;>
  · rw [Json.parse, String.toList_ofList]
    rfl

/-- The result of an agent that is told a text. -/
def told (text : List Char) (id : String) : AgentResult Float :=
  adviser.resultOf replying text question default (judge id) 0 0 0

/-- The results of two agents that are told two texts. -/
def toldBoth (first second : List Char) : List (String × AgentResult Float) :=
  [("a", told first "a"), ("b", told second "b")]

theorem ascending_toldBoth (first second : List Char) : Ascending (toldBoth first second) := by
  show ["a", "b"].Pairwise (· < ·)
  decide

end Sample

/-- Two agents with one value and two confidences agree. -/
theorem Adviser.agree_iff_met :
    let first := Sample.judgement ['v', 'a', 'l', 'u', 'e'] ['0', '.', '5']
    let second := Sample.judgement ['v', 'a', 'l', 'u', 'e'] ['0', '.', '2', '5']
    Sample.adviser.Completes Sample.replying first Sample.question (Sample.judged "value" 0.5) ∧
      Sample.adviser.Completes Sample.replying second Sample.question (Sample.judged "value" 0.25) ∧
      DifferInConfidence (Sample.judged "value" 0.5) (Sample.judged "value" 0.25) ∧
      (Sample.judged "value" 0.5).lookup "value" ≠ some .null ∧
      SharesBloc VoteKey.compact.keyOf (survivors (Sample.toldBoth first second)) "a" "b" ∧
      (aggregate VoteKey.compact .confidenceWeighted (Sample.toldBoth first second)).value =
        some (.str "lp") := by
  intro first second
  obtain ⟨h, h'⟩ := Sample.completes_value
  have hdiffer := Sample.differInConfidence_judged "value"
  have hvalue : (Sample.judged "value" 0.5).lookup "value" = some (.str "lp") := rfl
  have hnull : (Sample.judged "value" 0.5).lookup "value" ≠ some .null := by
    rw [hvalue]
    nofun
  obtain ⟨-, hshares, hcombined⟩ := Adviser.agree_iff h h' hdiffer hnull default (Sample.judge "a")
    (Sample.judge "b") 0 0 0 0 0 0
  refine ⟨h, h', hdiffer, hnull, ?_, hcombined _ _ hvalue⟩
  exact (hshares _ (Sample.ascending_toldBoth first second) (by exact List.mem_cons_self)
    (by exact List.mem_cons_of_mem _ List.mem_cons_self)).2 rfl

/-- **Two agents that say the same are counted apart**: their objects differ in nothing but the
confidence, and without a value the whole object is the answer. -/
theorem Adviser.apart_without_value :
    let first := Sample.judgement ['w', 'a', 'y'] ['0', '.', '5']
    let second := Sample.judgement ['w', 'a', 'y'] ['0', '.', '2', '5']
    Sample.adviser.Completes Sample.replying first Sample.question (Sample.judged "way" 0.5) ∧
      Sample.adviser.Completes Sample.replying second Sample.question (Sample.judged "way" 0.25) ∧
      DifferInConfidence (Sample.judged "way" 0.5) (Sample.judged "way" 0.25) ∧
      (Sample.judged "way" 0.5).lookup "value" ≠ some .null ∧
      (Sample.told first "a").answer ≠ (Sample.told second "b").answer ∧
      ¬ SharesBloc VoteKey.compact.keyOf (survivors (Sample.toldBoth first second)) "a" "b" := by
  intro first second
  obtain ⟨h, h'⟩ := Sample.completes_way
  have hdiffer := Sample.differInConfidence_judged "way"
  have hnone : (Sample.judged "way" 0.5).lookup "value" = none := rfl
  have hnull : (Sample.judged "way" 0.5).lookup "value" ≠ some .null := by
    rw [hnone]
    nofun
  refine ⟨h, h', hdiffer, hnull, fun heq => ?_, fun hshares => ?_⟩
  · have hsome := (Adviser.answer_eq_iff h h' hdiffer default (Sample.judge "a") (Sample.judge "b")
      0 0 0 0 0 0).1 heq
    rw [hnone] at hsome
    cases hsome
  · have hsome := (Adviser.sharesBloc_resultOf_iff h h' hdiffer default (Sample.judge "a")
      (Sample.judge "b") 0 0 0 0 0 0 hnull (Sample.ascending_toldBoth first second)
      (by exact List.mem_cons_self) (by exact List.mem_cons_of_mem _ List.mem_cons_self)).1 hshares
    rw [hnone] at hsome
    cases hsome

end AgentSwarm

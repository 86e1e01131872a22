/-
**Counts of tokens between a vendor and an agent.**

Vendors count the tokens of a prompt and of its completion, each in 32 bits, and the total is kept in
32 bits as well: it is the sum if the sum has 32 bits, and else the addition panics, in the middle of
a request that the vendor has answered.  The total is what an agent reports and what its cost is
computed from.  The other way, two vendors are told a limit of tokens as it is, and the third one gets
it as a signed number of 32 bits: a limit of which the highest bit is set arrives there as a negative
number.

Main definitions:

* `AgentSwarm.Connection.Counts` — the counts of tokens in a reply;
* `AgentSwarm.Connection.limitIn` — the limit of tokens in the body of a request.

Main results:

* `AgentSwarm.Connection.accepted_of_counts` — what comes of a reply with given counts;
* `AgentSwarm.Connection.exists_accepted` — any two counts arrive;
* `AgentSwarm.Connection.limitIn_inquiry` — which limit is sent;
* `AgentSwarm.Connection.counts_cross` — **totals and limits are right in the lower range only**;
* `AgentSwarm.Connection.counts_overflow` — a completion and a limit that are lost.
-/

import AgentSwarm.Proofs.Form.Text
import AgentSwarm.Provider.Answer
import AgentSwarm.Provider.Connection

set_option relaxedAutoImplicit false
set_option autoImplicit false

namespace AgentSwarm

open Form (WellMade)

namespace Connection

/-! ### Replies -/

/-- The counts of tokens in a reply: those of the prompt and those of the completion.  Two vendors
may leave them out, and then they are zero. -/
inductive Counts : Vendor → Datum → ℕ → ℕ → Prop
  | openai (choices : Datum) (p q : ℕ) :
      Counts .openai (.record [choices, .record [.whole p, .whole q]]) p q
  | silent (choices : Datum) : Counts .openai (.record [choices, .absent]) 0 0
  | anthropic (content reason : Datum) (p q : ℕ) :
      Counts .anthropic (.record [content, .record [.whole p, .whole q], reason]) p q
  | ollama (text reason : Datum) (p q : Option ℕ) :
      Counts .ollama (.record [text, reason, optionalDatum .whole q, optionalDatum .whole p])
        (p.getD 0) (q.getD 0)

variable {c : Connection} {r : Http.Reply} {d : Datum} {p q : ℕ}

theorem optional?_whole (n : Option ℕ) :
    (optionalDatum .whole n).optional? Datum.whole? = some n :=
  Datum.optional?_optionalDatum (g := .whole) (fun _ => rfl) (fun _ => rfl) n

/-- The parts of a reply have its counts. -/
theorem Counts.counts_eq {vendor : Vendor} {text : String} {counts : ℕ × ℕ}
    {reason : Option String} (h : Counts vendor d p q)
    (hparts : partsOf? vendor d = some (text, counts, reason)) : counts = (p, q) := by
  unfold partsOf? at hparts
  split at hparts
  next =>
      obtain ⟨told, htold, hparts⟩ := Option.bind_eq_some_iff.1 hparts
      obtain ⟨_, -, hparts⟩ := Option.bind_eq_some_iff.1 hparts
      obtain ⟨-, rfl, -⟩ : _ ∧ told.getD (0, 0) = counts ∧ _ := by simpa using hparts
      cases h with
      | openai _ p q => rw [← Option.some.inj (htold : some (some (p, q)) = _), Option.getD_some]
      | silent => rw [← Option.some.inj (htold : some none = _), Option.getD_none]
  next =>
      obtain ⟨_, -, hparts⟩ := Option.bind_eq_some_iff.1 hparts
      obtain ⟨told, htold, hparts⟩ := Option.bind_eq_some_iff.1 hparts
      obtain ⟨_, -, hparts⟩ := Option.bind_eq_some_iff.1 hparts
      obtain ⟨-, rfl, -⟩ : _ ∧ told = counts ∧ _ := by simpa using hparts
      cases h with
      | anthropic _ _ p q => exact (Option.some.inj htold).symm
  next =>
      obtain ⟨completion, hcompletion, hparts⟩ := Option.bind_eq_some_iff.1 hparts
      obtain ⟨prompt, hprompt, hparts⟩ := Option.bind_eq_some_iff.1 hparts
      obtain ⟨_, -, hparts⟩ := Option.bind_eq_some_iff.1 hparts
      obtain ⟨-, rfl, -⟩ : _ ∧ (prompt.getD 0, completion.getD 0) = counts ∧ _ := by
        simpa using hparts
      cases h with
      | ollama _ _ p q =>
          rw [optional?_whole] at hcompletion hprompt
          rw [Option.some.inj hcompletion, Option.some.inj hprompt]
  next => cases hparts

/-- What comes of a reply with given counts that is no error: a completion with their sum as its
total when the sum has 32 bits, and else the panic of the addition. -/
theorem accepted_of_counts (hread : (replyForm c.vendor).read r.body = .ok d)
    (hcounts : Counts c.vendor d p q) (h : ∀ e, c.completionOf r ≠ .error e) :
    (p + q < UInt32.size ∧
      ∃ completion, c.completionOf r = .ok completion ∧ completion.usage = ⟨p, q, p + q⟩) ∨
    (UInt32.size ≤ p + q ∧ c.completionOf r = .panic .addition) := by
  cases hstatus : Http.isSuccess r.status with
  | false => exact absurd (by simp [completionOf, hstatus]) (h (c.errorOf r))
  | true =>
      cases hparts : partsOf? c.vendor d with
      | none =>
          refine absurd ?_ (h (.provider "No choices in response"))
          simp [completionOf, hstatus, hread, hparts]
      | some parts =>
          obtain ⟨text, counts, reason⟩ := parts
          obtain rfl := hcounts.counts_eq hparts
          simp only [completionOf, hstatus, hread, hparts, Bool.not_true, Bool.false_eq_true,
            if_false]
          cases husage : TokenUsage.ofCounts p q with
          | ok usage =>
              obtain ⟨hsum, rfl⟩ := TokenUsage.ofCounts_eq_ok_iff.1 husage
              exact .inl ⟨hsum, _, rfl, rfl⟩
          | error panic =>
              obtain ⟨hsum, rfl⟩ := TokenUsage.ofCounts_eq_error_iff.1 husage
              exact .inr ⟨hsum, rfl⟩

/-- An agent that answers with a completion reports its total and the cost of it. -/
theorem usage_answerOf {P : Type} {a : Adviser P} {aliasName : String} {completion : Completion}
    {response : InferenceResponse} (h : a.answerOf aliasName (.ok completion) = .answer response) :
    response.usage =
      some ⟨completion.usage.totalTokens, a.cost aliasName completion.usage.totalTokens⟩ := by
  unfold Adviser.answerOf at h
  simp only at h
  split at h
  next => cases h
  next => rw [← Reply.answer.inj h]

/-! ### Replies with given counts -/

section Given

variable {rounded : Prop} {n : ℕ} {vendor : Vendor}

theorem wellMade_countsForm {prompt completion : String} (h : prompt ≠ completion) :
    WellMade rounded (n + 1) (countsForm prompt completion) :=
  .ofFields (by simpa [fieldNames] using h) (by simp)

theorem wellMade_replyForm : WellMade rounded (n + 4) (replyForm vendor) := by
  cases vendor with
  | openai =>
      have hmessage : WellMade rounded (n + 1) messageForm := .ofFields (by decide) (by simp)
      have hchoice : WellMade rounded (n + 2) (.record "Choice"
          [("message", .required, messageForm),
            ("finish_reason", .hiddenDefault, .optional .text)]) :=
        .ofFields (by decide) (by simp [hmessage])
      have hcounts : WellMade rounded (n + 3)
          (.optional (countsForm "prompt_tokens" "completion_tokens")) :=
        .optional rfl (wellMade_countsForm (by decide))
      exact .ofFields (by decide) (by simp [hchoice, hcounts])
  | anthropic =>
      have hblock : WellMade rounded (n + 2)
          (.record "Block" [("text", .default (.text ""), .text)]) :=
        .ofFields (by decide) (by simp)
      exact .ofFields (by decide) (by simp [hblock, wellMade_countsForm])
  | ollama => exact .ofFields (by decide) (by simp)

/-- An empty object as the text of a completion. -/
def emptyObject : String := "\x7b\x7d"

/-- A reply with an empty object and the given counts. -/
def replyOf (p q : ℕ) : Vendor → Datum
  | .openai => .record [.list [.record [.record [.text "assistant", .text emptyObject], .absent]],
      .record [.whole p, .whole q]]
  | .anthropic =>
      .record [.list [.record [.text emptyObject]], .record [.whole p, .whole q], .absent]
  | .ollama => .record [.text emptyObject, .absent, .whole q, .whole p]

theorem counts_replyOf (p q : ℕ) : Counts vendor (replyOf p q vendor) p q := by
  cases vendor with
  | openai => exact .openai _ p q
  | anthropic => exact .anthropic _ _ p q
  | ollama => exact .ollama _ _ (some p) (some q)

theorem fits_replyOf (hp : p < UInt32.size) (hq : q < UInt32.size) :
    (replyForm vendor).Fits rounded (n + 5) (replyOf p q vendor) := by
  have hp : p ≤ Width.word32.max := Nat.le_sub_one_of_lt hp
  have hq : q ≤ Width.word32.max := Nat.le_sub_one_of_lt hq
  have hcounts {a b : String} :
      (countsForm a b).Fits rounded (n + 4) (.record [.whole p, .whole q]) :=
    .record (by omega) _ (.cons (.whole p hp) (.cons (.whole q hq) .nil))
  cases vendor with
  | openai =>
      have hmessage : messageForm.Fits rounded (n + 2)
          (.record [.text "assistant", .text emptyObject]) :=
        .record (by omega) _ (.cons (.text _) (.cons (.text _) .nil))
      refine .record (by omega) _ (.cons (.list (by omega) _ ?_)
        (.cons (.present _ rfl rfl hcounts) .nil))
      exact List.forall_mem_singleton.2 (.record (by omega) _ (.cons hmessage (.cons .absent .nil)))
  | anthropic =>
      refine .record (by omega) _ (.cons (.list (by omega) _ ?_)
        (.cons hcounts (.cons .absent .nil)))
      exact List.forall_mem_singleton.2 (.record (by omega) _ (.cons (.text _) .nil))
  | ollama =>
      exact .record (by omega) _ (.cons (.text _) (.cons .absent
        (.cons (.present _ rfl rfl (.whole q hq)) (.cons (.present _ rfl rfl (.whole p hp)) .nil))))

/-- A reply with any two counts is read. -/
theorem read_replyOf (hp : p < UInt32.size) (hq : q < UInt32.size) :
    (replyForm vendor).read ((replyForm vendor).write (replyOf p q vendor)) =
      .ok (replyOf p q vendor) := by
  refine Form.read_write (Form.rereads_ofText wellMade_replyForm (fits_replyOf hp hq) ?_)
  have hnone : ((replyForm vendor).toTree (replyOf p q vendor)).doubles = [] := by
    cases vendor <;> rfl
  rw [hnone]
  exact List.forall_mem_nil _

/-- Every vendor can tell any two counts, and agents answer with its completion if there is one. -/
theorem exists_accepted (c : Connection) (hp : p < UInt32.size) (hq : q < UInt32.size) :
    ∃ r d, (replyForm c.vendor).read r.body = .ok d ∧ Counts c.vendor d p q ∧
      (∀ e, c.completionOf r ≠ .error e) ∧
      ∀ completion, c.completionOf r = .ok completion → ∀ {P : Type} (a : Adviser P) aliasName,
        ∃ response, a.answerOf aliasName (.ok completion) = .answer response := by
  have hread : (replyForm c.vendor).read ((replyForm c.vendor).write (replyOf p q c.vendor)) =
      .ok (replyOf p q c.vendor) := read_replyOf hp hq
  have hparts : ∃ reason, partsOf? c.vendor (replyOf p q c.vendor) =
      some (emptyObject, (p, q), reason) := by
    cases c.vendor <;> exact ⟨_, rfl⟩
  obtain ⟨reason, hparts⟩ := hparts
  have hobject : objectOf emptyObject = .ok [] := rfl
  refine ⟨⟨200, (replyForm c.vendor).write (replyOf p q c.vendor)⟩, _, hread, counts_replyOf p q,
    fun e => ?_, fun completion h P a aliasName => ?_⟩
  · have hsuccess : Http.isSuccess 200 = true := rfl
    simp only [completionOf, hread, hparts, hsuccess]
    cases TokenUsage.ofCounts p q <;> simp
  · simp only [completionOf, hread, hparts] at h
    cases husage : TokenUsage.ofCounts p q with
    | ok usage =>
        rw [husage] at h
        obtain rfl := ProviderAnswer.ok.inj h
        simp only [Adviser.answerOf, hobject]
        exact ⟨_, rfl⟩
    | error panic =>
        rw [husage] at h
        cases h

end Given

/-! ### Requests -/

/-- The limit of tokens in the body of a request. -/
def limitIn (vendor : Vendor) (body : Json) : Option Json :=
  match vendor with
  | .openai | .anthropic => body.get? "max_tokens"
  | .ollama => (body.get? "options").bind (JsonOf.get? "num_predict")

/-- A limit as it is sent: as it is, or as a signed number of 32 bits. -/
def sentLimit (vendor : Vendor) (k : ℕ) : ℤ :=
  match vendor with
  | .openai | .anthropic => k
  | .ollama => if k < 2 ^ 31 then k else k - 2 ^ 32

theorem signedCount_eq {k : ℕ} (h : k < UInt32.size) :
    signedCount k = .int (sentLimit .ollama k) := by
  have hsize : UInt32.size = 2 ^ 32 := rfl
  rw [hsize] at h
  rw [signedCount, sentLimit, JsonOf.int.injEq, hsize, Int.bmod_eq_iff (by decide)]
  split
  next hlow => omega
  next hhigh => omega

/-- Which limit is sent. -/
theorem limitIn_inquiry {prompt : String} {o : GenerationOptions} {k : ℕ}
    (h : o.maxTokens = some k) (hk : k < UInt32.size) :
    (c.inquiry prompt o).body.bind (limitIn c.vendor) = some (.int (sentLimit c.vendor k)) := by
  simp only [inquiry, bodyOf, Option.bind_some, limitIn, h]
  cases c.vendor with
  | openai => rfl
  | anthropic => rfl
  | ollama =>
      have hlookup (t : Option Float32) (rest : List (String × Json)) :
          (memberOf "temperature" (fun t => .real (Decimal.shownSingle t)) t ++
            memberOf "num_predict" signedCount (some k) ++ rest).lookup "num_predict" =
          some (signedCount k) := by
        cases t <;> rfl
      rw [← signedCount_eq hk]
      exact hlookup _ _

/-! ### Both ways -/

/-- **Totals and limits are right in the lower range only.**  A reply with the counts of its tokens
that is no error becomes a completion with these counts and their sum, which agents report with the
cost of it, exactly when the sum has 32 bits; otherwise the adapter panics, and so does the agent.
Any two counts can arrive.  Two vendors are sent a limit as it is; the third one is sent it as a
signed number. -/
theorem counts_cross (c : Connection) :
    (∀ r d p q, (replyForm c.vendor).read r.body = .ok d → Counts c.vendor d p q →
      (∀ e, c.completionOf r ≠ .error e) →
      ((∃ completion, c.completionOf r = .ok completion) ↔ p + q < UInt32.size) ∧
      (∀ completion, c.completionOf r = .ok completion →
        completion.usage = ⟨p, q, p + q⟩ ∧
        ∀ {P : Type} (a : Adviser P) aliasName response,
          a.answerOf aliasName (.ok completion) = .answer response →
          response.usage = some ⟨p + q, a.cost aliasName (p + q)⟩) ∧
      (UInt32.size ≤ p + q → c.completionOf r = .panic .addition ∧
        ∀ {P : Type} (a : Adviser P) aliasName,
          a.answerOf aliasName (c.completionOf r) = .panic Panic.addition.message)) ∧
    (∀ p q, p < UInt32.size → q < UInt32.size → ∃ r d,
      (replyForm c.vendor).read r.body = .ok d ∧ Counts c.vendor d p q ∧
        (∀ e, c.completionOf r ≠ .error e) ∧
        ∀ completion, c.completionOf r = .ok completion → ∀ {P : Type} (a : Adviser P) aliasName,
          ∃ response, a.answerOf aliasName (.ok completion) = .answer response) ∧
    ∀ prompt o k, o.maxTokens = some k → k < UInt32.size →
      (c.inquiry prompt o).body.bind (limitIn c.vendor) = some (.int (sentLimit c.vendor k)) ∧
        (sentLimit c.vendor k = k ↔ (c.vendor = .ollama → k < 2 ^ 31)) := by
  refine ⟨fun r d p q hread hcounts haccepted => ?_, fun p q hp hq => c.exists_accepted hp hq,
    fun prompt o k ho hk => ?_⟩
  · rcases accepted_of_counts hread hcounts haccepted with
      ⟨hsum, completion, h, husage⟩ | ⟨hsum, h⟩
    · rw [h]
      refine ⟨⟨fun _ => hsum, fun _ => ⟨completion, rfl⟩⟩, fun completion' h' => ?_,
        fun hover => absurd hsum (Nat.not_lt.2 hover)⟩
      obtain rfl := ProviderAnswer.ok.inj h'
      refine ⟨husage, fun a aliasName response hresponse => ?_⟩
      rw [usage_answerOf hresponse, husage]
    · rw [h]
      exact ⟨⟨nofun, fun hlow => absurd hlow (Nat.not_lt.2 hsum)⟩, nofun,
        fun _ => ⟨rfl, fun a aliasName => a.answerOf_panic aliasName .addition⟩⟩
  · refine ⟨limitIn_inquiry ho hk, ?_⟩
    cases c.vendor with
    | openai | anthropic => simp [sentLimit]
    | ollama =>
        simp only [sentLimit, true_imp_iff]
        split <;> omega

/-- A reply with 400 and 100 tokens, and the limit of the usual options. -/
theorem counts_cross_met :
    let c := create .ollama "" "" "m"
    let a := Adviser.ofRegistry (Registry.empty 1 .zero : Registry Unit)
    (∃ r completion response, c.completionOf r = .ok completion ∧
      completion.usage = ⟨400, 100, 500⟩ ∧ a.answerOf "m" (.ok completion) = .answer response ∧
      response.usage = some ⟨500, a.cost "m" 500⟩) ∧
    (c.inquiry "p" .standard).body.bind (limitIn .ollama) = some (.int 2048) := by
  intro c a
  obtain ⟨hreply, hexists, hlimit⟩ := counts_cross c
  have hp : 400 < UInt32.size := by decide
  have hq : 100 < UInt32.size := by decide
  obtain ⟨r, d, hread, hcounts, haccepted, hanswer⟩ := hexists 400 100 hp hq
  obtain ⟨hgiven, hright, -⟩ := hreply r d 400 100 hread hcounts haccepted
  obtain ⟨completion, h⟩ := hgiven.2 (by decide)
  obtain ⟨husage, hreport⟩ := hright completion h
  obtain ⟨response, hresponse⟩ := hanswer completion h a "m"
  exact ⟨⟨r, completion, response, h, husage, hresponse, hreport a "m" response hresponse⟩,
    (hlimit "p" .standard 2048 rfl (by decide)).1⟩

/-- **A completion and a limit that are lost**: a reply with 4294967295 and 1 tokens, which is no
error, makes the adapter panic, and a limit of 3000000000 tokens is sent as a negative number. -/
theorem counts_overflow :
    let c := create .ollama "" "" "m"
    (∃ r d, (replyForm .ollama).read r.body = .ok d ∧ Counts .ollama d 4294967295 1 ∧
      c.completionOf r = .panic .addition) ∧
    (c.inquiry "p" ⟨some 3000000000, none, none⟩).body.bind (limitIn .ollama) =
      some (.int (-1294967296)) := by
  intro c
  obtain ⟨r, d, hread, hcounts, haccepted, -⟩ :=
    @exists_accepted 4294967295 1 c (by decide) (by decide)
  refine ⟨⟨r, d, hread, hcounts, ?_⟩, ?_⟩
  · rcases accepted_of_counts hread hcounts haccepted with ⟨hsum, -⟩ | ⟨-, h⟩
    · exact absurd hsum (by decide)
    · exact h
  · have hlimit : 3000000000 < UInt32.size := by decide
    exact limitIn_inquiry rfl hlimit

end Connection

end AgentSwarm

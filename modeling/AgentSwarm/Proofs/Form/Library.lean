/-
**What the library writes is read again.**

Every form of the library is well made, so whatever is read in it fits: fields in another order, a
list in place of an object, fields that are missing or unknown, all spellings of durations and of
times.  A datum that fits is read back from its text, so reading and writing come to rest after one
turn.  Only the options of a completion have a number of single precision; when it was too large, it
is written as the empty value, and that is what is read from then on.

Main definitions:

* `AgentSwarm.doubleForms` — the forms whose numbers are doubles.

Main results:

* `AgentSwarm.wellMade_of_mem_doubleForms` — these forms are well made;
* `AgentSwarm.written_rests` — **a text that was written for a datum that was read is read again,
  and is written again as it stands**.
-/

import AgentSwarm.Agent.History
import AgentSwarm.Event
import AgentSwarm.Manifest.Basic
import AgentSwarm.Manifest.Settings
import AgentSwarm.Proofs.Form.Text
import AgentSwarm.Provider.Basic
import AgentSwarm.Strategy.Basic
import AgentSwarm.Swarm.Report

set_option relaxedAutoImplicit false
set_option autoImplicit false

namespace AgentSwarm

open Form (WellMade Fits Rereads SingleReadsBack)
open Json (ReadsBack chars)

variable {rounded : Prop} {n : ℕ}

/-! ### The forms are well made -/

theorem Strategy.wellMade_form : WellMade rounded (n + 1) Strategy.form :=
  .ofFields (by decide) (by simp)

@[simp] theorem Algorithm.wellMade_form : WellMade rounded n Algorithm.form := .leaf rfl

@[simp] theorem ConsensusResult.wellMade_form : WellMade rounded (n + 3) ConsensusResult.form :=
  .ofFields (by decide) (by simp)

@[simp] theorem FailureKind.wellMade_form : WellMade rounded n FailureKind.form := .leaf rfl

@[simp] theorem Outcome.wellMade_form : WellMade rounded (n + 1) Outcome.form :=
  .ofAlternatives (by decide) (by simp only [List.forall_mem_cons]; simp)

@[simp] theorem Metrics.wellMade_form : WellMade rounded (n + 1) Metrics.form :=
  .ofFields (by decide) (by simp)

@[simp] theorem AgentResult.wellMade_form : WellMade rounded (n + 2) AgentResult.form :=
  .ofFields (by decide) (by simp)

theorem TaskRecord.wellMade_form : WellMade rounded (n + 1) TaskRecord.form :=
  .ofFields (by decide) (by simp)

theorem Task.wellMade_form : WellMade rounded (n + 3) Task.form :=
  .ofFields (by decide) (by simp)

@[simp] theorem TaskReport.wellMade_metadataForm : WellMade rounded (n + 1) metadataForm :=
  .ofFields (by decide) (by simp)

theorem TaskReport.wellMade_form : WellMade rounded (n + 4) TaskReport.form :=
  .ofFields (by decide) (by simp)

theorem SwarmStatus.wellMade_form : WellMade rounded (n + 2) SwarmStatus.form :=
  .ofFields (by decide) (by simp)

@[simp] theorem InferenceUsage.wellMade_form :
    WellMade rounded (n + 1) (.optional InferenceUsage.form) :=
  .optional rfl (.ofFields (by decide) (by simp))

theorem InferenceResponse.wellMade_form : WellMade rounded (n + 2) InferenceResponse.form :=
  .ofFields (by decide) (by simp)

@[simp] theorem RosterEntry.wellMade_form : WellMade rounded (n + 1) RosterEntry.form :=
  .ofFields (by decide) (by simp)

theorem Settings.wellMade_form : WellMade rounded (n + 3) Settings.form := by
  have htimeout : Fits rounded .span (n + 2) (.span standard.agentTimeout) := .span _ (by decide)
  have hwindow : standard.historyWindow ≤ Width.size.max := by decide
  exact .ofFields (by decide) (by simp [htimeout, hwindow])

theorem Selection.wellMade_form : WellMade rounded (n + 1) Selection.form := by
  have hretries : standard.maxRetries ≤ Width.word32.max := by decide
  have hdelay : standard.retryDelayMillis ≤ Width.word64.max := by decide
  exact .ofFields (by decide) (by simp [hretries, hdelay])

@[simp] theorem ModelEntry.wellMade_form : WellMade rounded (n + 3) ModelEntry.form := by
  have hwindow : 8192 ≤ Width.word32.max := by decide
  have hcost : Fits rounded .real (n + 2) (.real 0.0) := .real _ (by decide +kernel)
  exact .ofFields (by decide) (by simp [hwindow, hcost])

theorem ProviderEntry.wellMade_form : WellMade rounded (n + 5) ProviderEntry.form :=
  .ofFields (by decide) (by simp)

theorem LogSettings.wellMade_form : WellMade rounded (n + 1) LogSettings.form := by
  have hformat : Fits rounded (.word ["json", "text"]) n (.word standard.format.name) :=
    .word _ (by decide)
  exact .ofFields (by decide) (by simp [hformat])

theorem Event.wellMade_form : WellMade rounded (n + 1) Event.form :=
  .ofAlternatives (by decide) (by simp only [taskFields, List.forall_mem_cons]; simp)

theorem GenerationOptions.wellMade_form : WellMade True (n + 2) GenerationOptions.form := by
  have htemperature : WellMade True (n + 1) (.optional .single) := .optional rfl (.single trivial)
  have hstop : WellMade True (n + 1) (.optional (.list .text)) := .optional rfl (by simp)
  exact .ofFields (by decide) (by simp [htemperature, hstop])

/-- The forms whose numbers are doubles. -/
def doubleForms : List Form :=
  [Strategy.form, ConsensusResult.form, AgentResult.form, TaskRecord.form, Task.form,
    TaskReport.form, SwarmStatus.form, InferenceResponse.form, Settings.form, Selection.form,
    ModelEntry.form, ProviderEntry.form, LogSettings.form, Event.form]

theorem wellMade_of_mem_doubleForms :
    ∀ form ∈ doubleForms, WellMade False Json.depthLimit form := by
  simp only [doubleForms, List.forall_mem_cons]
  exact ⟨Strategy.wellMade_form, ConsensusResult.wellMade_form, AgentResult.wellMade_form,
    TaskRecord.wellMade_form, Task.wellMade_form, TaskReport.wellMade_form,
    SwarmStatus.wellMade_form, InferenceResponse.wellMade_form, Settings.wellMade_form,
    Selection.wellMade_form, ModelEntry.wellMade_form, ProviderEntry.wellMade_form,
    LogSettings.wellMade_form, Event.wellMade_form, List.forall_mem_nil _⟩

/-! ### Reading what was written -/

/-- Data of doubles are read back themselves. -/
theorem read_write_of_mem_doubleForms {form : Form} {text : String} {d : Datum}
    (hform : form ∈ doubleForms) (h : form.read text = .ok d)
    (hreal : ∀ x ∈ (form.toTree d).doubles, ReadsBack x) : form.read (form.write d) = .ok d := by
  have hmade := wellMade_of_mem_doubleForms form hform
  exact Form.read_write (Form.rereads_ofText hmade (Form.fits_read hmade h) hreal)

namespace GenerationOptions

variable {d : Datum}

theorem rereads_maxTokens (h : (Form.optional (.whole .word32)).Fits rounded n d) :
    Rereads (Form.optional (.whole .word32)).ofText n
      ((Form.optional (.whole .word32)).chars d) d := by
  cases h with
  | absent => exact Form.rereads_absent
  | present d _ _ h =>
      cases h with
      | whole k hk =>
          exact Form.rereads_ofText (.optional rfl (.leaf rfl))
            (.present _ rfl rfl (.whole k hk)) nofun

theorem rereads_stopSequences (h : (Form.optional (.list .text)).Fits rounded n d) :
    Rereads (Form.optional (.list .text)).ofText n ((Form.optional (.list .text)).chars d) d := by
  cases h with
  | absent => exact Form.rereads_absent
  | present d _ _ h =>
      cases h with
      | list hroom items h =>
          refine Form.rereads_optional ⟨'[', _, rfl, rfl, by decide⟩
            (Form.rereads_textList hroom (fun d hd => ?_) fun d hd => ?_)
          · cases h d hd
            exact @Json.opens_chars (.str _) nofun
          · cases h d hd
            exact Form.rereads_textText rfl

/-- A temperature is read back, or it is written as one that is absent. -/
theorem exists_rereads_temperature (h : (Form.optional .single).Fits rounded n d)
    (hsingle : ∀ x, d = .single x → x.isFinite = true → SingleReadsBack x) :
    ∃ e, Rereads (Form.optional .single).ofText n ((Form.optional .single).chars e) e ∧
      (Form.optional .single).chars e = (Form.optional .single).chars d := by
  cases h with
  | absent => exact ⟨.absent, Form.rereads_absent, rfl⟩
  | present d _ _ h =>
      cases h with
      | single _ x =>
          by_cases hx : x.isFinite = true
          · refine ⟨.single x, Form.rereads_optional ?_ ?_, rfl⟩
            · exact Form.leads_of_startsNumber (Form.startsNumber_singleChars hx)
            · exact Form.rereads_single hx (hsingle x rfl hx)
          -- a number that was too large has the text of the empty value
          · refine ⟨.absent, Form.rereads_absent, ?_⟩
            exact ((if_neg hx : Decimal.singleChars x = _)).symm

theorem chars_form (a b c : Datum) : form.chars (.record [a, b, c]) = Json.objectChars
    [("max_tokens", (Form.optional (.whole .word32)).chars a),
      ("temperature", (Form.optional .single).chars b),
      ("stop_sequences", (Form.optional (.list .text)).chars c)] := rfl

/-- Options are read back field by field. -/
theorem rereads_form {a b c : Datum} (hroom : 0 < n)
    (ha : Rereads (Form.optional (.whole .word32)).ofText n
      ((Form.optional (.whole .word32)).chars a) a)
    (hb : Rereads (Form.optional .single).ofText n ((Form.optional .single).chars b) b)
    (hc : Rereads (Form.optional (.list .text)).ofText n
      ((Form.optional (.list .text)).chars c) c) :
    Rereads form.ofText (n + 1) (form.chars (.record [a, b, c])) (.record [a, b, c]) := by
  refine @Form.rereads_textRecord True n _ [a, b, c] _ hroom (by decide) (by simp) rfl ?_
  intro p hp
  have hp := Form.mem_zip_of_mem_written hp
  simp only [List.zip_cons_cons, List.zip_nil_right, List.mem_cons, List.not_mem_nil, or_false] at hp
  rcases hp with rfl | rfl | rfl
  · exact ha
  · exact hb
  · exact hc

theorem exists_of_fits (h : Fits rounded form (n + 1) d) : ∃ a b c, d = .record [a, b, c] ∧ 0 < n ∧
    (Form.optional (.whole .word32)).Fits rounded n a ∧ (Form.optional .single).Fits rounded n b ∧
      (Form.optional (.list .text)).Fits rounded n c := by
  cases h with
  | record hroom ds hds =>
      rw [Form.fitsAll_iff] at hds
      simp only [List.forall₂_cons_left_iff, List.forall₂_nil_left_iff] at hds
      obtain ⟨a, _, ha, ⟨b, _, hb, ⟨c, _, hc, rfl, rfl⟩, rfl⟩, rfl⟩ := hds
      exact ⟨a, b, c, rfl, hroom, ha, hb, hc⟩

theorem exists_maxTokens (h : (Form.optional (.whole .word32)).Fits rounded n d) :
    ∃ k, d.optional? Datum.whole? = some k := by
  cases h with
  | absent => exact ⟨_, rfl⟩
  | present d _ _ h =>
      cases h with
      | whole k hk => exact ⟨_, rfl⟩

theorem exists_stopSequences (h : (Form.optional (.list .text)).Fits rounded n d) :
    ∃ words, d.optional? (Datum.list? Datum.text?) = some words := by
  cases h with
  | absent => exact ⟨_, rfl⟩
  | present d _ _ h =>
      cases h with
      | list hroom items h =>
          have hitems : items ∈ Set.range (List.map Datum.text) := by
            rw [Set.range_list_map]
            intro d hd
            cases h d hd
            exact Set.mem_range_self _
          obtain ⟨words, rfl⟩ := hitems
          exact ⟨some words,
            congrArg (Option.map some) (Datum.list?_map (g := .text) (fun _ => rfl) words)⟩

/-- The temperature of options that were read. -/
theorem temperature_ofDatum? {a c : Datum} {x : Float32}
    (ha : (Form.optional (.whole .word32)).Fits rounded n a)
    (hc : (Form.optional (.list .text)).Fits rounded n c) :
    x ∈ (ofDatum? (.record [a, .single x, c])).bind temperature := by
  obtain ⟨k, hk⟩ := exists_maxTokens ha
  obtain ⟨words, hwords⟩ := exists_stopSequences hc
  have hx : (Datum.single x).optional? Datum.single? = some (some x) := rfl
  simp only [ofDatum?, hk, hx, hwords]
  rfl

/-- Options are read back, but for a temperature that is written as absent. -/
theorem read_write_form {text : String} (h : form.read text = .ok d)
    (hsingle : ∀ x ∈ (ofDatum? d).bind temperature, x.isFinite = true → SingleReadsBack x) :
    ∃ e, form.read (form.write d) = .ok e ∧ form.write e = form.write d := by
  have hfits : Fits True form (127 + 1) d := Form.fits_read wellMade_form h
  obtain ⟨a, b, c, rfl, hroom, ha, hb, hc⟩ := exists_of_fits hfits
  have hnumber : ∀ x, b = .single x → x.isFinite = true → SingleReadsBack x := by
    rintro x rfl
    exact hsingle x (temperature_ofDatum? ha hc)
  obtain ⟨e, he, hchars⟩ := exists_rereads_temperature hb hnumber
  have hwrite : form.write (.record [a, e, c]) = form.write (.record [a, b, c]) := by
    rw [Form.write, Form.write, chars_form, chars_form, hchars]
  refine ⟨.record [a, e, c], ?_, hwrite⟩
  rw [← hwrite]
  exact Form.read_write (rereads_form hroom (rereads_maxTokens ha) he (rereads_stopSequences hc))

end GenerationOptions

/-! ### Written texts rest -/

/-- **A text that was written for a datum that was read is read again, and is written again as it
stands**, if the numbers in it are read back from their digits. -/
theorem written_rests :
    (∀ form ∈ doubleForms, ∀ text d, form.read text = .ok d →
      (∀ x ∈ (form.toTree d).doubles, ReadsBack x) →
      ∃ e, form.read (form.write d) = .ok e ∧ form.write e = form.write d) ∧
    ∀ text d, GenerationOptions.form.read text = .ok d →
      (∀ x ∈ (GenerationOptions.ofDatum? d).bind GenerationOptions.temperature,
        x.isFinite = true → SingleReadsBack x) →
      ∃ e, GenerationOptions.form.read (GenerationOptions.form.write d) = .ok e ∧
        GenerationOptions.form.write e = GenerationOptions.form.write d :=
  ⟨fun _ hform _ d h hreal => ⟨d, read_write_of_mem_doubleForms hform h hreal, rfl⟩,
    fun _ _ h hsingle => GenerationOptions.read_write_form h hsingle⟩

namespace Sample

/-- A text is read, its datum is written so, and the numbers of the datum are read back. -/
def Written (form : Form) (Back : Datum → Prop) [DecidablePred Back] (text written : String) :
    Bool :=
  match form.read text with
  | .ok d => form.write d = written ∧ Back d
  | .error _ => false

theorem Written.exists_datum {form : Form} {Back : Datum → Prop} [DecidablePred Back]
    {text written : String} (h : Written form Back text written = true) :
    ∃ d, form.read text = .ok d ∧ form.write d = written ∧ Back d := by
  unfold Written at h
  split at h
  next d hd => exact ⟨d, hd, of_decide_eq_true h⟩
  next => cases h

/-- A model with an unknown member, given in another order. -/
def modelText : String :=
  "\x7b\"model\":\"m\",\"x\":[\x7b\x7d],\"cost_per_1k_tokens\":25e-2,\"alias\":\"a\"\x7d"

/-- Options as a list. -/
def optionsText : String := "[null, 70.0E-2, [\"end\"]]"

end Sample

theorem written_rests_met :
    (∃ d, ModelEntry.form.read Sample.modelText = .ok d ∧
      ∃ e, ModelEntry.form.read (ModelEntry.form.write d) = .ok e ∧
        ModelEntry.form.write e = ModelEntry.form.write d) ∧
    ∃ d, GenerationOptions.form.read Sample.optionsText = .ok d ∧
      ∃ e, GenerationOptions.form.read (GenerationOptions.form.write d) = .ok e ∧
        GenerationOptions.form.write e = GenerationOptions.form.write d := by
  have hmodel : Sample.Written ModelEntry.form
      (fun d => ∀ x ∈ (ModelEntry.form.toTree d).doubles, ReadsBack x) Sample.modelText
      ("\x7b\"alias\":\"a\",\"model\":\"m\",\"capabilities\":[],\"context_window\":8192," ++
        "\"cost_per_1k_tokens\":0.25\x7d") = true := by decide +kernel
  have hoptions : Sample.Written GenerationOptions.form
      (fun d => ∀ x ∈ (GenerationOptions.ofDatum? d).bind GenerationOptions.temperature,
        x.isFinite = true → SingleReadsBack x) Sample.optionsText
      "\x7b\"max_tokens\":null,\"temperature\":0.7,\"stop_sequences\":[\"end\"]\x7d" = true := by
    decide +kernel
  have hmem : ModelEntry.form ∈ doubleForms := by simp [doubleForms]
  obtain ⟨d, hd, -, hreal⟩ := Sample.Written.exists_datum hmodel
  obtain ⟨e, he, -, hsingle⟩ := Sample.Written.exists_datum hoptions
  exact ⟨⟨d, hd, written_rests.1 _ hmem _ d hd hreal⟩, e, he, written_rests.2 _ e he hsingle⟩

/-! An integer is rounded to single precision at once, not through a double, and the notation is that
of single precision. -/

example : Sample.Written GenerationOptions.form (fun _ => True)
    "[1, 1152921573326323713, null]"
    "\x7b\"max_tokens\":1,\"temperature\":1.1529216e+18,\"stop_sequences\":null\x7d" = true := by
  decide +kernel

example : Sample.Written GenerationOptions.form (fun _ => True) "[1, 1e-6, null]"
    "\x7b\"max_tokens\":1,\"temperature\":0.000001,\"stop_sequences\":null\x7d" = true := by
  decide +kernel

end AgentSwarm

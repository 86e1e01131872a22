/-
**Data are read back from texts.**

The reader of a text goes through it once, so a record is read field by field where it stands; only an
alternative is read as a value first, since its tag may come last.  What is read from a text fits the
form, as what is read from a value does.  The text of a datum that fits is read back behind whatever
was read before, given that its doubles are read back from their digits.

Main definitions:

* `AgentSwarm.Form.Rereads` — a reader finds a datum in a text, whatever follows;
* `AgentSwarm.Form.SingleReadsBack` — a number of single precision is read back from its digits.

Main results:

* `AgentSwarm.Form.fits_ofText`, `AgentSwarm.Form.fits_read` — **what is read from a text fits**;
* `AgentSwarm.Form.rereads_ofText` — **a datum that fits is read back from its text**;
* `AgentSwarm.Form.read_write` — the same for a whole text.
-/

import AgentSwarm.Proofs.Form.Tree

set_option relaxedAutoImplicit false
set_option autoImplicit false

namespace AgentSwarm

open Json (Legible bind_eq_ok)

/-! ### Values and their first characters -/

namespace Json

theorem skipSpace_skipSpace (cs : List Char) : skipSpace (skipSpace cs) = skipSpace cs :=
  List.dropWhile_idempotent _ cs

/-- A value that is read starts with a character of its kind. -/
theorem lead_of_readValue {depth : ℕ} {c : Char} {cs tail rest : List Char} {v : Json}
    (hskip : skipSpace cs = c :: tail) (h : readValue depth cs = .ok (v, rest)) :
    (v = .null → c = 'n') ∧ (c = '{' → ∃ members, v = .obj members) := by
  rw [readValue, readValueAt, hskip] at h
  dsimp only at h
  split at h
  next hc => exact ⟨fun _ => hc, fun hbrace => absurd (hc.symm.trans hbrace) (by decide)⟩
  -- the other two words
  iterate 2
    split at h
    next hc =>
        obtain ⟨r, -, h⟩ := bind_eq_ok.1 h
        obtain ⟨rfl, -⟩ := Prod.mk.inj (Except.ok.inj h)
        exact ⟨by simp, fun hbrace => absurd (hc.symm.trans hbrace) (by decide)⟩
  -- numbers
  iterate 2
    split at h
    next hc =>
        refine ⟨?_, ?_⟩
        · rintro rfl
          exact (numeric_of_readNumber h).elim
        · rintro rfl
          exact absurd hc (by decide)
  split at h
  next hc =>
      obtain ⟨⟨s, r⟩, -, h⟩ := bind_eq_ok.1 h
      obtain ⟨rfl, -⟩ := Prod.mk.inj (Except.ok.inj h)
      exact ⟨by simp, fun hbrace => absurd (hc.symm.trans hbrace) (by decide)⟩
  split at h
  next hc =>
      split at h
      next => cases h
      next =>
          obtain ⟨⟨items, r⟩, -, h⟩ := bind_eq_ok.1 h
          obtain ⟨rfl, -⟩ := Prod.mk.inj (Except.ok.inj h)
          exact ⟨by simp, fun hbrace => absurd (hc.symm.trans hbrace) (by decide)⟩
  split at h
  next hc =>
      split at h
      next => cases h
      next =>
          obtain ⟨⟨members, r⟩, -, h⟩ := bind_eq_ok.1 h
          obtain ⟨rfl, -⟩ := Prod.mk.inj (Except.ok.inj h)
          exact ⟨by simp, fun _ => ⟨members, rfl⟩⟩
  next => cases h

end Json

namespace Form

variable {rounded : Prop} {n : ℕ} {d : Datum} {cs rest : List Char}

/-! ### Steps -/

theorem step_eq_ok {A : Type} {e : Except Json.Fault A} {a : A} : step e = .ok a ↔ e = .ok a := by
  cases e <;> simp [step, Except.mapError]

theorem check_eq_ok {A : Type} {e : Except Mismatch A} {a : A} : check e = .ok a ↔ e = .ok a := by
  cases e <;> simp [check, Except.mapError]

theorem atValue_eq_ok {c : Char} : atValue cs = .ok (c, rest) ↔ Json.skipSpace cs = c :: rest := by
  unfold atValue
  split
  next h => simp [h]
  next h => simp [h]

theorem misfit_ne_ok {A : Type} {expected : String} {c : Char} {a : A} :
    misfit expected c rest ≠ .ok a := by
  intro h
  obtain ⟨_, -, h⟩ := bind_eq_ok.1 h
  cases h

theorem openContainer_eq_ok {A : Type} {c : Char} {inside : ℕ → List Char → Except Misfit A}
    {a : A} : openContainer n c rest inside = .ok a ↔ ∃ m, n = m + 1 ∧ 0 < m ∧ inside m rest = .ok a := by
  unfold openContainer
  split
  next h =>
      constructor
      · nofun
      · rintro ⟨m, rfl, hm, -⟩
        omega
  next h =>
      constructor
      · intro ha
        exact ⟨n - 1, by omega, by omega, ha⟩
      · rintro ⟨m, rfl, -, ha⟩
        exact ha

/-! ### Leaves that are read -/

theorem textText_eq_ok {expected : String} {read : String → Except Mismatch Datum}
    (h : textText expected read n cs = .ok (d, rest)) : ∃ s, read s = .ok d := by
  obtain ⟨⟨c, tail⟩, -, h⟩ := bind_eq_ok.1 h
  dsimp only at h
  split at h
  next =>
      obtain ⟨⟨s, r⟩, -, h⟩ := bind_eq_ok.1 h
      obtain ⟨e, he, h⟩ := bind_eq_ok.1 h
      obtain ⟨rfl, -⟩ := Prod.mk.inj (Except.ok.inj h)
      exact ⟨s, check_eq_ok.1 he⟩
  next => exact absurd h misfit_ne_ok

theorem textNumber_eq_ok {expected : String} {read : Json → Except Mismatch Datum}
    (h : textNumber expected read n cs = .ok (d, rest)) : ∃ v, Legible n v ∧ read v = .ok d := by
  obtain ⟨⟨c, tail⟩, -, h⟩ := bind_eq_ok.1 h
  dsimp only at h
  split at h
  next =>
      obtain ⟨⟨v, r⟩, hv, h⟩ := bind_eq_ok.1 h
      obtain ⟨e, he, h⟩ := bind_eq_ok.1 h
      obtain ⟨rfl, -⟩ := Prod.mk.inj (Except.ok.inj h)
      exact ⟨v, .number v (Json.numeric_of_readNumber (step_eq_ok.1 hv)), check_eq_ok.1 he⟩
  next =>
      split at h
      next =>
          obtain ⟨⟨v, r⟩, hv, h⟩ := bind_eq_ok.1 h
          obtain ⟨e, he, h⟩ := bind_eq_ok.1 h
          obtain ⟨rfl, -⟩ := Prod.mk.inj (Except.ok.inj h)
          exact ⟨v, .number v (Json.numeric_of_readNumber (step_eq_ok.1 hv)), check_eq_ok.1 he⟩
      next => exact absurd h misfit_ne_ok

theorem textFlag_eq_ok (h : textFlag n cs = .ok (d, rest)) : ∃ b, d = .flag b := by
  obtain ⟨⟨c, tail⟩, -, h⟩ := bind_eq_ok.1 h
  dsimp only at h
  split at h
  next =>
      obtain ⟨r, -, h⟩ := bind_eq_ok.1 h
      exact ⟨true, (Prod.mk.inj (Except.ok.inj h)).1.symm⟩
  next =>
      split at h
      next =>
          obtain ⟨r, -, h⟩ := bind_eq_ok.1 h
          exact ⟨false, (Prod.mk.inj (Except.ok.inj h)).1.symm⟩
      next => exact absurd h misfit_ne_ok

theorem textValue_eq_ok (h : textValue n cs = .ok (d, rest)) :
    ∃ v, Json.readValue n cs = .ok (v, rest) ∧ Legible n v ∧ d = .value v.settle := by
  obtain ⟨⟨v, r⟩, hv, h⟩ := bind_eq_ok.1 h
  obtain ⟨rfl, rfl⟩ := Prod.mk.inj (Except.ok.inj h)
  have hread := step_eq_ok.1 hv
  exact ⟨v, hread, (Json.sound _).value hread, rfl⟩

/-- A value that does not start with an `n` is not the empty one. -/
theorem textValue_ne_null {c : Char} {tail : List Char} (hc : atValue cs = .ok (c, tail))
    (hne : c ≠ 'n') : textValue n (c :: tail) ≠ .ok (.value .null, rest) := by
  intro h
  obtain ⟨v, hread, -, hv⟩ := textValue_eq_ok h
  have hskip := Json.skipSpace_skipSpace cs
  rw [atValue_eq_ok.1 hc] at hskip
  have hnull := isNull_of_settle (Datum.value.inj hv).symm
  cases v with
  | null => exact hne ((Json.lead_of_readValue hskip hread).1 rfl)
  | _ => cases hnull

theorem textObject_eq_ok (h : textObject n cs = .ok (d, rest)) :
    ∃ members, Legible n (.obj members) ∧ d = .value (JsonOf.obj members).settle := by
  obtain ⟨⟨c, tail⟩, hc, h⟩ := bind_eq_ok.1 h
  dsimp only at h
  split at h
  next hbrace =>
      obtain ⟨v, hread, hv, rfl⟩ := textValue_eq_ok h
      have hskip := Json.skipSpace_skipSpace cs
      rw [atValue_eq_ok.1 hc] at hskip
      obtain ⟨members, rfl⟩ := (Json.lead_of_readValue hskip hread).2 hbrace
      exact ⟨members, hv, rfl⟩
  next => exact absurd h misfit_ne_ok

theorem textWord_eq_ok {options : List String} (h : textWord options n cs = .ok (d, rest)) :
    ∃ s, wordOfText options s = .ok d := by
  obtain ⟨⟨c, tail⟩, -, h⟩ := bind_eq_ok.1 h
  dsimp only at h
  split at h
  next =>
      obtain ⟨⟨s, r⟩, -, h⟩ := bind_eq_ok.1 h
      obtain ⟨e, he, h⟩ := bind_eq_ok.1 h
      obtain ⟨rfl, -⟩ := Prod.mk.inj (Except.ok.inj h)
      exact ⟨s, check_eq_ok.1 he⟩
  next =>
      split at h
      next =>
          obtain ⟨m, -, -, h⟩ := openContainer_eq_ok.1 h
          obtain ⟨⟨e, r₁⟩, he, h⟩ := bind_eq_ok.1 h
          obtain ⟨r₂, -, h⟩ := bind_eq_ok.1 h
          obtain ⟨⟨c, r₃⟩, -, h⟩ := bind_eq_ok.1 h
          dsimp only at h
          split at h
          next =>
              obtain ⟨r₄, -, h⟩ := bind_eq_ok.1 h
              split at h
              next => cases h
              next =>
                  split at h
                  next =>
                      obtain ⟨rfl, -⟩ := Prod.mk.inj (Except.ok.inj h)
                      exact textText_eq_ok he
                  next => cases h
          next => exact absurd h misfit_ne_ok
      next => cases h

/-! ### Containers that are read -/

/-- Each element of a list was read. -/
theorem of_textItems {read : TextReader} {fuel : ℕ} {first : Bool} {ds : List Datum}
    (h : textItems read fuel n first cs = .ok (ds, rest)) :
    ∀ d ∈ ds, ∃ cs rest, read n cs = .ok (d, rest) := by
  induction fuel generalizing first cs ds rest with
  | zero => cases h
  | succ fuel ih =>
      rw [textItems] at h
      obtain ⟨next, -, h⟩ := bind_eq_ok.1 h
      cases next with
      | none =>
          obtain ⟨r, -, h⟩ := bind_eq_ok.1 h
          obtain ⟨rfl, -⟩ := Prod.mk.inj (Except.ok.inj h)
          exact List.forall_mem_nil _
      | some more =>
          obtain ⟨⟨d, r₁⟩, hd, h⟩ := bind_eq_ok.1 h
          obtain ⟨⟨ds, r₂⟩, hds, h⟩ := bind_eq_ok.1 h
          obtain ⟨rfl, -⟩ := Prod.mk.inj (Except.ok.inj h)
          exact List.forall_mem_cons.2 ⟨⟨more, r₁, hd⟩, ih hds⟩

theorem of_textList {read : TextReader} (h : textList read (n + 1) cs = .ok (d, rest)) :
    ∃ ds, d = .list ds ∧ 0 < n ∧ ∀ e ∈ ds, ∃ cs rest, read n cs = .ok (e, rest) := by
  obtain ⟨⟨c, tail⟩, -, h⟩ := bind_eq_ok.1 h
  dsimp only at h
  split at h
  next =>
      obtain ⟨m, hm, hroom, h⟩ := openContainer_eq_ok.1 h
      obtain rfl := Nat.succ.inj hm
      obtain ⟨⟨ds, r⟩, hds, h⟩ := bind_eq_ok.1 h
      obtain ⟨rfl, -⟩ := Prod.mk.inj (Except.ok.inj h)
      exact ⟨ds, rfl, hroom, of_textItems hds⟩
  next => exact absurd h misfit_ne_ok

/-- The entries of a table are in order, and each was there before or was read. -/
theorem of_textEntries {read : TextReader} {fuel : ℕ} {first : Bool}
    {got entries : List (String × Datum)}
    (h : textEntries read fuel n first got cs = .ok (entries, rest)) (hgot : Ascending got) :
    Ascending entries ∧ ∀ e ∈ entries, e ∈ got ∨ ∃ cs rest, read n cs = .ok (e.2, rest) := by
  induction fuel generalizing first got cs with
  | zero => cases h
  | succ fuel ih =>
      rw [textEntries] at h
      obtain ⟨next, -, h⟩ := bind_eq_ok.1 h
      cases next with
      | none =>
          obtain ⟨r, -, h⟩ := bind_eq_ok.1 h
          obtain ⟨rfl, -⟩ := Prod.mk.inj (Except.ok.inj h)
          exact ⟨hgot, fun e he => .inl he⟩
      | some more =>
          obtain ⟨⟨k, r₁⟩, -, h⟩ := bind_eq_ok.1 h
          obtain ⟨r₂, -, h⟩ := bind_eq_ok.1 h
          obtain ⟨⟨d, r₃⟩, hd, h⟩ := bind_eq_ok.1 h
          obtain ⟨horder, hentries⟩ := ih h hgot.insertMember
          refine ⟨horder, fun e he => ?_⟩
          rcases hentries e he with he | hread
          · rcases eq_or_mem_of_mem_insertMember he with rfl | he
            · exact .inr ⟨r₂, r₃, hd⟩
            · exact .inl he
          · exact .inr hread

theorem of_textTable {read : TextReader} (h : textTable read (n + 1) cs = .ok (d, rest)) :
    ∃ entries, d = .table entries ∧ 0 < n ∧ Ascending entries ∧
      ∀ e ∈ entries, ∃ cs rest, read n cs = .ok (e.2, rest) := by
  obtain ⟨⟨c, tail⟩, -, h⟩ := bind_eq_ok.1 h
  dsimp only at h
  split at h
  next =>
      obtain ⟨m, hm, hroom, h⟩ := openContainer_eq_ok.1 h
      obtain rfl := Nat.succ.inj hm
      obtain ⟨⟨entries, r⟩, hentries, h⟩ := bind_eq_ok.1 h
      obtain ⟨rfl, -⟩ := Prod.mk.inj (Except.ok.inj h)
      obtain ⟨horder, hmem⟩ := of_textEntries hentries .nil
      exact ⟨entries, rfl, hroom, horder, fun e he => (hmem e he).resolve_left (List.not_mem_nil)⟩
  next => exact absurd h misfit_ne_ok

section Fields

variable {fields : List Field}

/-- The fields that are read from the members of a text. -/
theorem givenFor_textMembers {fuel : ℕ} {first : Bool} {got got' : List (String × Datum)}
    (hread : ∀ f ∈ fields, ∀ cs d rest, ofText f.2.2 n cs = .ok (d, rest) → Fits rounded f.2.2 n d)
    (hgot : GivenFor rounded n fields got)
    (h : textMembers (textReaders fields) fuel n first got cs = .ok (got', rest)) :
    GivenFor rounded n fields got' := by
  induction fuel generalizing first got cs with
  | zero => cases h
  | succ fuel ih =>
      rw [textMembers] at h
      obtain ⟨next, -, h⟩ := bind_eq_ok.1 h
      cases next with
      | none =>
          obtain ⟨rfl, -⟩ := Prod.mk.inj (Except.ok.inj h)
          exact hgot
      | some more =>
          obtain ⟨⟨k, r₁⟩, -, h⟩ := bind_eq_ok.1 h
          dsimp only at h
          split at h
          next =>
              obtain ⟨r₂, -, h⟩ := bind_eq_ok.1 h
              obtain ⟨r₃, -, h⟩ := bind_eq_ok.1 h
              exact ih hgot h
          next rule form read hlookup =>
              rw [textReaders_eq] at hlookup
              obtain ⟨hf, rfl⟩ := of_lookup_withReaders hlookup
              split at h
              next => cases h
              next =>
                  obtain ⟨r₂, -, h⟩ := bind_eq_ok.1 h
                  obtain ⟨⟨d, r₃⟩, hd, h⟩ := bind_eq_ok.1 h
                  exact ih (List.forall_mem_cons.2 ⟨⟨_, hf, rfl, hread _ hf _ d _ hd⟩, hgot⟩) h

/-- The fields that are read from a list of a text. -/
theorem fitsAll_textFieldList {expected : String} {index : ℕ} {first : Bool} {ds : List Datum}
    (hrules : ∀ f ∈ fields, f.2.1.Sound rounded n f.2.2)
    (hread : ∀ f ∈ fields, ∀ cs d rest, ofText f.2.2 n cs = .ok (d, rest) → Fits rounded f.2.2 n d)
    (h : textFieldList expected index (textReaders fields) n first cs = .ok (ds, rest)) :
    FitsAll rounded n fields ds := by
  induction fields generalizing index first cs ds rest with
  | nil =>
      obtain ⟨rfl, -⟩ := Prod.mk.inj (Except.ok.inj h)
      exact .nil
  | cons f fields ih =>
      obtain ⟨hrule, hrules⟩ := List.forall_mem_cons.1 hrules
      obtain ⟨hf, hread⟩ := List.forall_mem_cons.1 hread
      rw [textReaders, textFieldList] at h
      obtain ⟨next, -, h⟩ := bind_eq_ok.1 h
      cases next with
      | some more =>
          obtain ⟨⟨d, r₁⟩, hd, h⟩ := bind_eq_ok.1 h
          obtain ⟨⟨ds, r₂⟩, hds, h⟩ := bind_eq_ok.1 h
          obtain ⟨rfl, -⟩ := Prod.mk.inj (Except.ok.inj h)
          exact .cons (hf _ d _ hd) (ih hrules hread hds)
      | none =>
          dsimp only at h
          split at h
          next d hd =>
              obtain ⟨⟨ds, r₂⟩, hds, h⟩ := bind_eq_ok.1 h
              obtain ⟨rfl, -⟩ := Prod.mk.inj (Except.ok.inj h)
              exact .cons (hrule.missing d hd) (ih hrules hread hds)
          next => cases h

theorem map_fields_textReaders (fields : List Field) :
    ((textReaders fields).map fun (name, rule, form, _) => (name, rule, form)) = fields := by
  rw [textReaders_eq, withReaders, List.map_map]
  exact List.map_id fields

/-- The record that is read. -/
theorem fits_textRecord {name called : String} (hnames : (fieldNames fields).Nodup)
    (hrules : ∀ f ∈ fields, f.2.1.Sound rounded n f.2.2)
    (hread : ∀ f ∈ fields, ∀ cs d rest, ofText f.2.2 n cs = .ok (d, rest) → Fits rounded f.2.2 n d)
    (h : textRecord called (textReaders fields) (n + 1) cs = .ok (d, rest)) :
    Fits rounded (.record name fields) (n + 1) d := by
  obtain ⟨⟨c, tail⟩, -, h⟩ := bind_eq_ok.1 h
  dsimp only at h
  split at h
  next =>
      obtain ⟨m, hm, hroom, h⟩ := openContainer_eq_ok.1 h
      obtain rfl := Nat.succ.inj hm
      obtain ⟨⟨got, r₁⟩, hgot, h⟩ := bind_eq_ok.1 h
      obtain ⟨ds, hds, h⟩ := bind_eq_ok.1 h
      obtain ⟨r₂, -, h⟩ := bind_eq_ok.1 h
      obtain ⟨rfl, -⟩ := Prod.mk.inj (Except.ok.inj h)
      rw [map_fields_textReaders] at hds
      have hgiven := givenFor_textMembers hread (List.forall_mem_nil _) hgot
      exact .record hroom ds (fitsAll_gather hnames hrules hgiven (check_eq_ok.1 hds))
  next =>
      split at h
      next =>
          obtain ⟨m, hm, hroom, h⟩ := openContainer_eq_ok.1 h
          obtain rfl := Nat.succ.inj hm
          obtain ⟨⟨ds, r₁⟩, hds, h⟩ := bind_eq_ok.1 h
          obtain ⟨r₂, -, h⟩ := bind_eq_ok.1 h
          obtain ⟨rfl, -⟩ := Prod.mk.inj (Except.ok.inj h)
          exact .record hroom ds (fitsAll_textFieldList hrules hread hds)
      next => exact absurd h misfit_ne_ok

end Fields

/-- The members beside the tag can be read. -/
theorem legible_textTagged {tag : String} {words : List String} {fuel : ℕ} {first : Bool}
    {got w : Option String} {others members : List (String × Json)}
    (hothers : ∀ m ∈ others, Legible n m.2)
    (h : textTagged tag words fuel n first got others cs = .ok (w, members, rest)) :
    ∀ m ∈ members, Legible n m.2 := by
  induction fuel generalizing first got others cs with
  | zero => cases h
  | succ fuel ih =>
      rw [textTagged] at h
      obtain ⟨next, -, h⟩ := bind_eq_ok.1 h
      cases next with
      | none =>
          obtain ⟨-, h⟩ := Prod.mk.inj (Except.ok.inj h)
          obtain ⟨rfl, -⟩ := Prod.mk.inj h
          exact fun m hm => hothers m (List.mem_reverse.1 hm)
      | some more =>
          obtain ⟨⟨k, r₁⟩, -, h⟩ := bind_eq_ok.1 h
          dsimp only at h
          split at h
          next =>
              split at h
              next => cases h
              next =>
                  obtain ⟨r₂, -, h⟩ := bind_eq_ok.1 h
                  obtain ⟨⟨d, r₃⟩, -, h⟩ := bind_eq_ok.1 h
                  dsimp only at h
                  split at h
                  next => exact ih hothers h
                  next => cases h
          next =>
              obtain ⟨r₂, -, h⟩ := bind_eq_ok.1 h
              obtain ⟨⟨v, r₃⟩, hv, h⟩ := bind_eq_ok.1 h
              have hlegible := (Json.sound _).value (step_eq_ok.1 hv)
              exact ih (List.forall_mem_cons.2 ⟨hlegible, hothers⟩) h

/-- What an alternative of a text reads is the value of an alternative. -/
theorem textAlternatives_eq_ok {name tag : String}
    {alternatives : List (String × String × List TreeField)}
    (h : textAlternatives name tag alternatives (n + 1) cs = .ok (d, rest)) :
    ∃ w v, Legible (n + 1) v ∧ treeAlternative name alternatives w v = .ok d := by
  obtain ⟨⟨c, tail⟩, -, h⟩ := bind_eq_ok.1 h
  dsimp only at h
  split at h
  next =>
      obtain ⟨m, hm, hroom, h⟩ := openContainer_eq_ok.1 h
      obtain rfl := Nat.succ.inj hm
      obtain ⟨⟨w, members, r₁⟩, htagged, h⟩ := bind_eq_ok.1 h
      dsimp only at h
      split at h
      next => cases h
      next w =>
          obtain ⟨r₂, -, h⟩ := bind_eq_ok.1 h
          obtain ⟨e, he, h⟩ := bind_eq_ok.1 h
          obtain ⟨rfl, -⟩ := Prod.mk.inj (Except.ok.inj h)
          have hmembers := legible_textTagged (List.forall_mem_nil _) htagged
          exact ⟨w, .obj members, .obj hroom _ hmembers, check_eq_ok.1 he⟩
  next =>
      split at h
      next =>
          obtain ⟨m, hm, hroom, h⟩ := openContainer_eq_ok.1 h
          obtain rfl := Nat.succ.inj hm
          obtain ⟨next, -, h⟩ := bind_eq_ok.1 h
          cases next with
          | none => cases h
          | some more =>
              obtain ⟨⟨e, r₁⟩, -, h⟩ := bind_eq_ok.1 h
              dsimp only at h
              split at h
              next w =>
                  obtain ⟨⟨items, r₂⟩, hitems, h⟩ := bind_eq_ok.1 h
                  obtain ⟨e, he, h⟩ := bind_eq_ok.1 h
                  obtain ⟨rfl, -⟩ := Prod.mk.inj (Except.ok.inj h)
                  have hlegible := (Json.sound _).items (step_eq_ok.1 hitems)
                  exact ⟨w, .arr items, .arr hroom _ hlegible, check_eq_ok.1 he⟩
              next => cases h
      next => exact absurd h misfit_ne_ok

/-! ### What is read fits -/

/-- **What is read from a text fits.** -/
theorem fits_ofText {form : Form} (hform : WellMade rounded n form)
    (h : form.ofText n cs = .ok (d, rest)) : Fits rounded form n d := by
  induction form using inductionOn generalizing n cs d rest with
  | text =>
      obtain ⟨s, hs⟩ := textText_eq_ok h
      exact Except.ok.inj hs ▸ .text s
  | flag =>
      obtain ⟨b, rfl⟩ := textFlag_eq_ok h
      exact .flag b
  | whole width =>
      obtain ⟨v, -, hread⟩ := textNumber_eq_ok h
      cases v with
      | int k => exact fits_ofInt hread
      | _ => cases hread
  | real | single =>
      obtain ⟨v, hv, hread⟩ := textNumber_eq_ok h
      exact fits_ofTree hform hv hread
  | span =>
      obtain ⟨s, hs⟩ := textText_eq_ok h
      exact fits_spanOfText hs
  | moment =>
      obtain ⟨s, hs⟩ := textText_eq_ok h
      exact fits_momentOfText hs
  | identifier =>
      obtain ⟨s, hs⟩ := textText_eq_ok h
      exact fits_identifierOfText hs
  | value =>
      obtain ⟨v, -, hv, rfl⟩ := textValue_eq_ok h
      exact fits_value hv
  | object =>
      obtain ⟨members, hv, rfl⟩ := textObject_eq_ok h
      exact .object _ hv.writable.settle hv.settle
  | optional inner ih =>
      obtain ⟨hinner, hform⟩ := hform.of_optional
      obtain ⟨⟨c, tail⟩, hc, h⟩ := bind_eq_ok.1 h
      dsimp only at h
      split at h
      next =>
          obtain ⟨r, -, h⟩ := bind_eq_ok.1 h
          obtain ⟨rfl, -⟩ := Prod.mk.inj (Except.ok.inj h)
          exact .absent
      next hne =>
          have hfits := ih hform h
          -- an empty value starts with an n, and would have been absent
          have hvalue : d ≠ .value .null := by
            rintro rfl
            obtain rfl := hfits.eq_value hinner
            exact textValue_ne_null hc hne h
          exact .present d (hfits.isAbsent_eq hinner) (hfits.isNull_toTree hinner hvalue) hfits
  | list item ih =>
      obtain ⟨n, rfl, hitem⟩ := hform.of_list
      obtain ⟨ds, rfl, hroom, hread⟩ := of_textList h
      refine .list hroom ds fun d hd => ?_
      obtain ⟨cs, rest, hread⟩ := hread d hd
      exact ih hitem hread
  | table item ih =>
      obtain ⟨n, rfl, hitem⟩ := hform.of_table
      obtain ⟨entries, rfl, hroom, horder, hread⟩ := of_textTable h
      refine .table hroom entries horder fun e he => ?_
      obtain ⟨cs, rest, hread⟩ := hread e he
      exact ih hitem hread
  | word options =>
      obtain ⟨s, hs⟩ := textWord_eq_ok h
      exact fits_wordOfText hs
  | record name fields ih =>
      obtain ⟨n, rfl, hnames, hrules, hfields⟩ := hform.of_record
      exact fits_textRecord hnames hrules
        (fun f hf cs d rest hread => ih f hf (hfields f hf) hread) h
  | tagged name tag alternatives ih =>
      obtain ⟨n, rfl, halternatives⟩ := hform.of_tagged
      -- the members beside the tag were read as a value, so the rest is the other reader
      obtain ⟨w, v, hv, h⟩ := textAlternatives_eq_ok h
      obtain ⟨label, fields, ds, hw, rfl, hds⟩ := treeAlternative_eq_ok h
      have ha := mem_of_lookup_eq_some hw
      obtain ⟨hnames, hrules, hfields⟩ := halternatives _ ha
      obtain ⟨hroom, hfits⟩ := fitsAll_treeFields (List.nodup_cons.1 hnames).2 hrules
        (fun f hf v d hv hread => fits_ofTree (hfields f hf) hv hread) hv hds
      exact .tagged hroom hw ds hfits

/-- **What is read from a whole text fits.** -/
theorem fits_read {form : Form} {text : String} (hform : WellMade rounded Json.depthLimit form)
    (h : form.read text = .ok d) : Fits rounded form Json.depthLimit d := by
  obtain ⟨⟨e, rest⟩, he, h⟩ := bind_eq_ok.1 h
  obtain ⟨_, -, h⟩ := bind_eq_ok.1 h
  exact Except.ok.inj h ▸ fits_ofText hform he

/-! ### Leaves that are read back -/

open Json (Stops Opens StartsNumber ReadsBack listed memberChars memberText)

/-- A reader finds a datum in a text, whatever follows it. -/
def Rereads (read : TextReader) (n : ℕ) (text : List Char) (d : Datum) : Prop :=
  ∀ r, Stops r → read n (text ++ r) = .ok (d, r)

theorem atValue_cons {c : Char} (h : Json.isSpace c = false) (cs : List Char) :
    atValue (c :: cs) = .ok (c, cs) :=
  atValue_eq_ok.2 (List.dropWhile_cons_of_neg (by simp [h]))

theorem rereads_textText {expected s : String} {read : String → Except Mismatch Datum}
    (h : read s = .ok d) : Rereads (textText expected read) n (Json.quote s) d := by
  intro r _
  have hread := step_eq_ok.2 (Json.readString_quote s r)
  simp only [Json.quote, List.cons_append, List.append_assoc, List.nil_append]
  refine bind_eq_ok.2 ⟨_, atValue_cons rfl _, ?_⟩
  exact bind_eq_ok.2 ⟨_, hread, bind_eq_ok.2 ⟨d, check_eq_ok.2 h, rfl⟩⟩

theorem rereads_textWord {options : List String} {w : String} (h : w ∈ options) :
    Rereads (textWord options) n (Json.quote w) (.word w) := by
  intro r _
  have hread := step_eq_ok.2 (Json.readString_quote w r)
  simp only [Json.quote, List.cons_append, List.append_assoc, List.nil_append]
  refine bind_eq_ok.2 ⟨_, atValue_cons rfl _, ?_⟩
  exact bind_eq_ok.2 ⟨_, hread, bind_eq_ok.2 ⟨_, check_eq_ok.2 (wordOfText_eq h), rfl⟩⟩

theorem rereads_textNumber {expected : String} {read : Json → Except Mismatch Datum} {v : Json}
    (hstart : StartsNumber cs) (hback : Json.readNumeral cs = .ok (v, [])) (h : read v = .ok d) :
    Rereads (textNumber expected read) n cs d := by
  intro r hr
  have hread := Json.readNumeral_append hstart hr hback
  obtain ⟨c, tail, rfl, hstart⟩ := hstart
  rw [List.cons_append] at hread ⊢
  rcases hstart with rfl | hdigit
  · refine bind_eq_ok.2 ⟨_, atValue_cons rfl _, ?_⟩
    exact bind_eq_ok.2 ⟨_, step_eq_ok.2 hread, bind_eq_ok.2 ⟨d, check_eq_ok.2 h, rfl⟩⟩
  · rw [Json.readNumeral_of_isDigit hdigit] at hread
    refine bind_eq_ok.2 ⟨_, atValue_cons (Json.not_isSpace_of_isDigit hdigit) _, ?_⟩
    have hne : c ≠ '-' := Json.ne_of_isDigit rfl hdigit
    simp only [hne, if_false, hdigit, if_true]
    exact bind_eq_ok.2 ⟨_, step_eq_ok.2 hread, bind_eq_ok.2 ⟨d, check_eq_ok.2 h, rfl⟩⟩

/-- A single-precision number is read back from its digits. -/
def SingleReadsBack (x : Float32) : Prop :=
  ∃ v, Json.readNumeral (Decimal.singleChars x) = .ok (v, []) ∧ singleOf v = some x

instance (x : Float32) : Decidable (SingleReadsBack x) :=
  decidable_of_bool (match Json.readNumeral (Decimal.singleChars x) with
    | .ok (v, []) => decide (singleOf v = some x)
    | _ => false) <| by
  unfold SingleReadsBack
  split
  next v h => simp [h]
  next h =>
      refine iff_of_false Bool.false_ne_true ?_
      rintro ⟨v, hv, -⟩
      exact h v hv

theorem startsNumber_singleChars {x : Float32} (hx : x.isFinite = true) :
    StartsNumber (Decimal.singleChars x) := by
  rw [Decimal.singleChars, if_pos hx]
  exact Json.startsNumber_ofSingle _ x

theorem rereads_single {x : Float32} (hx : x.isFinite = true) (h : SingleReadsBack x) :
    Rereads (ofText .single) n (Decimal.singleChars x) (.single x) := by
  obtain ⟨v, hback, hsingle⟩ := h
  refine rereads_textNumber (startsNumber_singleChars hx) hback ?_
  simp only [ofTree, hsingle]

theorem rereads_textFlag (b : Bool) :
    Rereads textFlag n (Json.chars (.bool b : Json)) (.flag b) := by
  intro r _
  cases b <;> rfl

theorem rereads_textValue {v : Json} (hform : v.WellFormed) (hv : Legible n v)
    (hreal : ∀ x ∈ v.doubles, ReadsBack x) : Rereads textValue n (Json.chars v) (.value v) := by
  intro r hr
  refine bind_eq_ok.2 ⟨_, step_eq_ok.2 (Json.readValue_chars hv hreal hr), ?_⟩
  dsimp only
  rw [hform.settle_eq]
  rfl

theorem rereads_textObject {members : List (String × Json)}
    (hform : (JsonOf.obj members : Json).WellFormed) (hv : Legible n (.obj members))
    (hreal : ∀ x ∈ (JsonOf.obj members : Json).doubles, ReadsBack x) :
    Rereads textObject n (Json.chars (.obj members)) (.value (.obj members)) := fun r hr =>
  bind_eq_ok.2 ⟨_, atValue_cons rfl _, rereads_textValue hform hv hreal r hr⟩

theorem rereads_absent {inner : Form} :
    Rereads (ofText (.optional inner)) n ((Form.optional inner).chars .absent) .absent :=
  fun _ _ => rfl

/-- The text of a value that is there starts here. -/
def Leads (cs : List Char) : Prop :=
  ∃ c tail, cs = c :: tail ∧ Json.isSpace c = false ∧ c ≠ 'n'

theorem leads_chars {v : Json} (hnull : v.isNull = false)
    (hfinite : ∀ x, v = .real x → x.isFinite = true) : Leads (Json.chars v) := by
  obtain ⟨c, tail, hc, hspace, -, hn⟩ := Json.exists_lead hfinite
  refine ⟨c, tail, hc, hspace, fun hcn => ?_⟩
  rw [hn hcn] at hnull
  cases hnull

theorem leads_of_startsNumber (h : StartsNumber cs) : Leads cs := by
  obtain ⟨c, tail, rfl, rfl | hdigit⟩ := h
  · exact ⟨'-', tail, rfl, rfl, by decide⟩
  · exact ⟨c, tail, rfl, Json.not_isSpace_of_isDigit hdigit, Json.ne_of_isDigit rfl hdigit⟩

/-- An optional value that is there is read back as the value is. -/
theorem rereads_optional {inner : Form} (hlead : Leads cs) (h : Rereads (ofText inner) n cs d) :
    Rereads (ofText (.optional inner)) n cs d := by
  intro r hr
  obtain ⟨c, tail, rfl, hspace, hne⟩ := hlead
  exact bind_eq_ok.2 ⟨_, atValue_cons hspace _, (if_neg hne).trans (h r hr)⟩

/-! ### Containers that are read back -/

theorem openContainer_succ {A : Type} {c : Char} {inside : ℕ → List Char → Except Misfit A}
    (h : 0 < n) : openContainer (n + 1) c cs inside = inside n cs := if_neg (by omega)

theorem length_memberText_pos (m : String × List Char) : 0 < (memberText m).length := Nat.succ_pos _

/-- The characters of a text are fuel for its elements. -/
theorem length_lt_fuel {A : Type} {f : A → List Char} {as : List A} {first : Bool}
    (h : ∀ a ∈ as, 0 < (f a).length) (r : List Char) :
    as.length < (listed f first as ++ r).length + 1 := by
  rw [List.length_append]
  induction as generalizing first with
  | nil => exact Nat.succ_pos _
  | cons a as ih =>
      obtain ⟨ha, has⟩ := List.forall_mem_cons.1 h
      have := @ih false has
      cases first <;> simp only [listed, List.length_cons, List.length_append] <;> omega

theorem length_lt_memberFuel {A : Type} {as : List A} {first : Bool}
    (member : A → String × List Char) (r : List Char) :
    as.length < (listed memberText first (as.map member) ++ r).length + 1 := by
  rw [← List.length_map member]
  exact length_lt_fuel (fun m _ => length_memberText_pos m) r

/-- The text of a list, with the texts of its elements as they are read. -/
theorem listChars_append (items : List (List Char)) (r : List Char) :
    Json.listChars items ++ r = '[' :: (listed id true items ++ ']' :: r) := by
  rw [Json.listChars, Json.joined_eq_listed, List.cons_append, List.append_assoc,
    List.singleton_append]

/-- The text of an object, with the texts of its members as they are read. -/
theorem objectChars_append (members : List (String × List Char)) (r : List Char) :
    Json.objectChars members ++ r = '{' :: (listed memberText true members ++ '}' :: r) := by
  rw [Json.objectChars, Json.joined_eq_listed, List.cons_append, List.append_assoc,
    List.singleton_append]

theorem textItems_listed {read : TextReader} {write : TextWriter} {fuel : ℕ} {first : Bool}
    {ds : List Datum} (hopens : ∀ d ∈ ds, Opens (write d))
    (hread : ∀ d ∈ ds, Rereads read n (write d) d) (hfuel : ds.length < fuel) (r : List Char) :
    textItems read fuel n first (listed id first (ds.map write) ++ ']' :: r) = .ok (ds, r) := by
  induction ds generalizing first fuel with
  | nil =>
      obtain ⟨fuel, rfl⟩ := Nat.exists_eq_add_of_le' (Nat.zero_lt_of_lt hfuel)
      rw [List.map_nil, listed, List.nil_append, textItems]
      exact bind_eq_ok.2 ⟨_, step_eq_ok.2 Json.nextItem_close,
        bind_eq_ok.2 ⟨_, step_eq_ok.2 Json.endList_close, rfl⟩⟩
  | cons d ds ih =>
      obtain ⟨fuel, rfl⟩ := Nat.exists_eq_add_of_le' (Nat.zero_lt_of_lt hfuel)
      obtain ⟨hopen, hopens⟩ := List.forall_mem_cons.1 hopens
      obtain ⟨hd, hds⟩ := List.forall_mem_cons.1 hread
      rw [List.map_cons, textItems]
      refine bind_eq_ok.2 ⟨_, step_eq_ok.2 (Json.nextItem_listed hopen), ?_⟩
      refine bind_eq_ok.2 ⟨_, hd _ (Json.stops_listed (.inl rfl)), ?_⟩
      refine bind_eq_ok.2 ⟨_, ih hopens hds ?_, rfl⟩
      simpa using hfuel

theorem rereads_textList {read : TextReader} {write : TextWriter} {ds : List Datum} (hroom : 0 < n)
    (hopens : ∀ d ∈ ds, Opens (write d)) (hread : ∀ d ∈ ds, Rereads read n (write d) d) :
    Rereads (textList read) (n + 1) (Json.listChars (ds.map write)) (.list ds) := by
  intro r _
  -- every element has a character at least, so the text is long enough to count them
  have hfuel : ds.length < (listed id true (ds.map write) ++ ']' :: r).length + 1 := by
    rw [← List.length_map write]
    refine length_lt_fuel (List.forall_mem_map.2 fun d hd => ?_) _
    exact Json.length_pos_of_opens (hopens d hd)
  rw [listChars_append]
  refine bind_eq_ok.2 ⟨_, atValue_cons rfl _, ?_⟩
  dsimp only
  rw [if_pos rfl, openContainer_succ hroom]
  exact bind_eq_ok.2 ⟨_, textItems_listed hopens hread hfuel r, rfl⟩

theorem textEntries_listed {read : TextReader} {write : TextWriter} {fuel : ℕ} {first : Bool}
    {got entries : List (String × Datum)} (horder : Ascending (got ++ entries))
    (hread : ∀ e ∈ entries, Rereads read n (write e.2) e.2) (hfuel : entries.length < fuel)
    (r : List Char) :
    textEntries read fuel n first got
      (listed memberText first (entries.map fun e => (e.1, write e.2)) ++ '}' :: r) =
        .ok (got ++ entries, r) := by
  induction entries generalizing first got fuel with
  | nil =>
      obtain ⟨fuel, rfl⟩ := Nat.exists_eq_add_of_le' (Nat.zero_lt_of_lt hfuel)
      rw [List.map_nil, listed, List.nil_append, List.append_nil, textEntries]
      exact bind_eq_ok.2 ⟨_, step_eq_ok.2 Json.nextKey_close,
        bind_eq_ok.2 ⟨_, step_eq_ok.2 Json.endObject_close, rfl⟩⟩
  | cons e entries ih =>
      obtain ⟨fuel, rfl⟩ := Nat.exists_eq_add_of_le' (Nat.zero_lt_of_lt hfuel)
      obtain ⟨he, hentries⟩ := List.forall_mem_cons.1 hread
      rw [List.map_cons, textEntries]
      refine bind_eq_ok.2 ⟨_, step_eq_ok.2 (Json.nextKey_listed rfl), ?_⟩
      refine bind_eq_ok.2 ⟨_, step_eq_ok.2 (Json.readString_quote _ _), ?_⟩
      refine bind_eq_ok.2 ⟨_, step_eq_ok.2 Json.readColon_colon, ?_⟩
      refine bind_eq_ok.2 ⟨_, he _ (Json.stops_listed (.inr rfl)), ?_⟩
      dsimp only
      rw [insertMember_next horder, ih (by simpa using horder) hentries (by simpa using hfuel),
        List.append_assoc, List.singleton_append]

theorem rereads_textTable {read : TextReader} {write : TextWriter}
    {entries : List (String × Datum)} (hroom : 0 < n) (horder : Ascending entries)
    (hread : ∀ e ∈ entries, Rereads read n (write e.2) e.2) :
    Rereads (textTable read) (n + 1) (Json.objectChars (entries.map fun e => (e.1, write e.2)))
      (.table entries) := by
  intro r _
  rw [objectChars_append]
  refine bind_eq_ok.2 ⟨_, atValue_cons rfl _, ?_⟩
  dsimp only
  rw [if_pos rfl, openContainer_succ hroom]
  have hgot : Ascending ([] ++ entries) := horder
  refine bind_eq_ok.2 ⟨_, textEntries_listed hgot hread ?_ r, rfl⟩
  exact length_lt_memberFuel (fun e : String × Datum => (e.1, write e.2)) _

section Fields

variable {fields : List Field} {ds : List Datum}

/-- The members that are written for fields are read one after the other. -/
theorem textMembers_listed {l : List (Field × Datum)} {got : List (String × Datum)} {fuel : ℕ}
    {first : Bool} (hnames : (fieldNames fields).Nodup) (hl : ∀ p ∈ l, p.1 ∈ fields)
    (hread : ∀ p ∈ l, Rereads (ofText p.1.2.2) n (p.1.2.2.chars p.2) p.2)
    (hnew : (l.map fun p => p.1.1).Nodup) (hgot : ∀ p ∈ l, got.lookup p.1.1 = none)
    (hfuel : l.length < fuel) (r : List Char) :
    textMembers (textReaders fields) fuel n first got
      (listed memberText first (l.map textOf) ++ '}' :: r) =
        .ok ((l.map fun p => (p.1.1, p.2)).reverse ++ got, '}' :: r) := by
  induction l generalizing first got fuel with
  | nil =>
      obtain ⟨fuel, rfl⟩ := Nat.exists_eq_add_of_le' (Nat.zero_lt_of_lt hfuel)
      rw [List.map_nil, listed, List.nil_append, textMembers]
      exact bind_eq_ok.2 ⟨_, step_eq_ok.2 Json.nextKey_close, rfl⟩
  | cons p l ih =>
      obtain ⟨fuel, rfl⟩ := Nat.exists_eq_add_of_le' (Nat.zero_lt_of_lt hfuel)
      obtain ⟨hp, hl⟩ := List.forall_mem_cons.1 hl
      obtain ⟨hread, hreads⟩ := List.forall_mem_cons.1 hread
      obtain ⟨hgot, hgots⟩ := List.forall_mem_cons.1 hgot
      obtain ⟨hfresh, hnew⟩ := List.nodup_cons.1 hnew
      rw [List.map_cons, textMembers]
      refine bind_eq_ok.2 ⟨_, step_eq_ok.2 (Json.nextKey_listed rfl), ?_⟩
      refine bind_eq_ok.2 ⟨_, step_eq_ok.2 (Json.readString_quote _ _), ?_⟩
      simp only [textOf, textReaders_eq, lookup_withReaders hnames hp, hgot, Option.isSome_none,
        Bool.false_eq_true, if_false]
      refine bind_eq_ok.2 ⟨_, step_eq_ok.2 Json.readColon_colon, ?_⟩
      refine bind_eq_ok.2 ⟨_, hread _ (Json.stops_listed (.inr rfl)), ?_⟩
      rw [← textReaders_eq, ih hl hreads hnew (fun q hq => lookup_cons_eq_none hfresh hgots hq)
        (by simpa using hfuel)]
      simp

/-- A record is read back from the members that are written for it. -/
theorem rereads_textRecord {called : String} (hroom : 0 < n) (hnames : (fieldNames fields).Nodup)
    (hrules : ∀ f ∈ fields, f.2.1.Sound rounded n f.2.2) (hlength : fields.length = ds.length)
    (hread : ∀ p ∈ written fields ds, Rereads (ofText p.1.2.2) n (p.1.2.2.chars p.2) p.2) :
    Rereads (textRecord called (textReaders fields)) (n + 1)
      (Json.objectChars ((written fields ds).map textOf)) (.record ds) := by
  intro r _
  have hfields : ∀ p ∈ written fields ds, p.1 ∈ fields := fun p hp =>
    (List.of_mem_zip (mem_zip_of_mem_written hp)).1
  have hgather := gather_written hlength hnames hrules (lookup_written hlength hnames)
  rw [objectChars_append]
  refine bind_eq_ok.2 ⟨_, atValue_cons rfl _, ?_⟩
  dsimp only
  rw [if_pos rfl, openContainer_succ hroom]
  refine bind_eq_ok.2 ⟨_, textMembers_listed hnames hfields hread
    (nodup_names_written hlength hnames) (fun _ _ => rfl) (length_lt_memberFuel textOf _) r, ?_⟩
  dsimp only
  rw [map_fields_textReaders, List.append_nil]
  refine bind_eq_ok.2 ⟨_, check_eq_ok.2 hgather, ?_⟩
  exact bind_eq_ok.2 ⟨_, step_eq_ok.2 Json.endObject_close, rfl⟩

end Fields

/-- The members beside the tag are read as values. -/
theorem textTagged_listed {tag : String} {words : List String} {fuel : ℕ} {first : Bool}
    {got : Option String} {others members : List (String × Json)}
    (hne : ∀ m ∈ members, m.1 ≠ tag) (hlegible : ∀ m ∈ members, Legible n m.2)
    (hreal : ∀ m ∈ members, ∀ x ∈ m.2.doubles, ReadsBack x) (hfuel : members.length < fuel)
    (r : List Char) :
    textTagged tag words fuel n first got others (listed memberChars first members ++ '}' :: r) =
      .ok (got, others.reverse ++ members, '}' :: r) := by
  induction members generalizing first others fuel with
  | nil =>
      obtain ⟨fuel, rfl⟩ := Nat.exists_eq_add_of_le' (Nat.zero_lt_of_lt hfuel)
      rw [listed, List.nil_append, List.append_nil, textTagged]
      exact bind_eq_ok.2 ⟨_, step_eq_ok.2 Json.nextKey_close, rfl⟩
  | cons m members ih =>
      obtain ⟨fuel, rfl⟩ := Nat.exists_eq_add_of_le' (Nat.zero_lt_of_lt hfuel)
      obtain ⟨hother, hne⟩ := List.forall_mem_cons.1 hne
      obtain ⟨hm, hlegible⟩ := List.forall_mem_cons.1 hlegible
      obtain ⟨hback, hreal⟩ := List.forall_mem_cons.1 hreal
      rw [textTagged]
      refine bind_eq_ok.2 ⟨_, step_eq_ok.2 (Json.nextKey_listed rfl), ?_⟩
      refine bind_eq_ok.2 ⟨_, step_eq_ok.2 (Json.readString_quote _ _), ?_⟩
      simp only [hother, if_false]
      refine bind_eq_ok.2 ⟨_, step_eq_ok.2 Json.readColon_colon, ?_⟩
      refine bind_eq_ok.2 ⟨_, step_eq_ok.2 <|
        Json.readValue_chars hm hback (Json.stops_listed (.inr rfl)), ?_⟩
      dsimp only
      rw [ih hne hlegible hreal (by simpa using hfuel), List.reverse_cons, List.append_assoc,
        List.singleton_append]

/-- An alternative whose tag is written first is read back, if its members are. -/
theorem rereads_textAlternatives {name tag w : String}
    {alternatives : List (String × String × List TreeField)} {members : List (String × Json)}
    (hroom : 0 < n) (hw : w ∈ alternatives.map Prod.fst) (hne : ∀ m ∈ members, m.1 ≠ tag)
    (hlegible : ∀ m ∈ members, Legible n m.2)
    (hreal : ∀ m ∈ members, ∀ x ∈ m.2.doubles, ReadsBack x)
    (hread : treeAlternative name alternatives w (.obj members) = .ok d) :
    Rereads (textAlternatives name tag alternatives) (n + 1)
      (Json.chars (.obj ((tag, .str w) :: members))) d := by
  intro r _
  have hchars : Json.chars (.obj ((tag, .str w) :: members)) ++ r =
      '{' :: (listed memberChars true ((tag, .str w) :: members) ++ '}' :: r) := by
    rw [Json.chars, Json.membersChars_eq, Json.joined_eq_listed, List.cons_append,
      List.append_assoc, List.singleton_append]
  rw [hchars]
  refine bind_eq_ok.2 ⟨_, atValue_cons rfl _, ?_⟩
  dsimp only
  rw [if_pos rfl, openContainer_succ hroom]
  refine bind_eq_ok.2 ⟨(some w, members, '}' :: r), ?_, ?_⟩
  · rw [textTagged]
    refine bind_eq_ok.2 ⟨_, step_eq_ok.2 (Json.nextKey_listed rfl), ?_⟩
    refine bind_eq_ok.2 ⟨_, step_eq_ok.2 (Json.readString_quote _ _), ?_⟩
    simp only [if_true, Option.isSome_none, Bool.false_eq_true, if_false]
    refine bind_eq_ok.2 ⟨_, step_eq_ok.2 Json.readColon_colon, ?_⟩
    refine bind_eq_ok.2 ⟨_, rereads_textText (wordOfText_eq hw) _ (Json.stops_listed (.inr rfl)), ?_⟩
    have hfuel := @length_lt_fuel _ memberChars ((tag, JsonOf.str w) :: members) true
      (fun m _ => length_memberText_pos (m.1, Json.chars m.2)) ('}' :: r)
    exact textTagged_listed hne hlegible hreal (Nat.lt_of_succ_lt_succ hfuel) r
  · refine bind_eq_ok.2 ⟨_, step_eq_ok.2 Json.endObject_close, ?_⟩
    exact bind_eq_ok.2 ⟨_, check_eq_ok.2 hread, rfl⟩

/-! ### What fits is read back -/

/-- **A datum that fits is read back from its text**, if its doubles are. -/
theorem rereads_ofText {form : Form} (hform : WellMade False n form) (h : Fits False form n d)
    (hreal : ∀ x ∈ (form.toTree d).doubles, ReadsBack x) : Rereads form.ofText n (form.chars d) d := by
  induction form using inductionOn generalizing n d with
  | text =>
      cases h
      exact rereads_textText rfl
  | flag =>
      cases h
      exact rereads_textFlag _
  | whole width =>
      cases h with
      | whole k hk =>
          have hmax := width.max_lt
          have hrange : Json.InRange k := ⟨by omega, by omega⟩
          refine rereads_textNumber (Json.startsNumber_intChars k) (Json.readNumeral_intChars hrange) ?_
          exact Width.ofInt_eq_ok_iff.2 ⟨k, hk, rfl, rfl⟩
  | real =>
      cases h with
      | real x hx =>
          have hstart : StartsNumber (Json.chars (.real x : Json)) :=
            @Json.startsNumber_chars (.real x) hx
          exact rereads_textNumber hstart (hreal x (List.mem_singleton.2 rfl)) rfl
  | single =>
      cases h with
      | single hrounded => exact hrounded.elim
  | span =>
      cases h with
      | span t ht => exact rereads_textText (spanOfText_text ht)
  | moment =>
      cases h with
      | moment t ht => exact rereads_textText (momentOfText_text ht)
  | identifier =>
      cases h with
      | identifier digits h => exact rereads_textText (identifierOfText_text h)
  | value =>
      cases h with
      | value v hformed hv => exact rereads_textValue hformed hv hreal
  | object =>
      cases h with
      | object members hformed hv => exact rereads_textObject hformed hv hreal
  | optional inner ih =>
      obtain ⟨-, hform⟩ := hform.of_optional
      cases h with
      | absent => exact rereads_absent
      | present d habsent hnull h =>
          rw [toTree_optional habsent] at hreal
          rw [chars_optional habsent]
          refine rereads_optional ?_ (ih hform h hreal)
          exact chars_eq h ▸ leads_chars hnull fun x => h.legible_toTree.isFinite
  | list item ih =>
      obtain ⟨n, rfl, hitem⟩ := hform.of_list
      cases h with
      | list hroom items h =>
          refine rereads_textList hroom (fun d hd => ?_) fun d hd =>
            ih hitem (h d hd) fun x hx =>
              hreal x (JsonOf.mem_itemsDoubles (List.mem_map_of_mem hd) hx)
          exact chars_eq (h d hd) ▸ Json.opens_chars fun x => ((h d hd).legible_toTree).isFinite
  | table item ih =>
      obtain ⟨n, rfl, hitem⟩ := hform.of_table
      cases h with
      | table hroom entries horder h =>
          rw [toTree_table] at hreal
          rw [chars_table]
          refine rereads_textTable hroom horder fun e he => ih hitem (h e he) fun x hx =>
            hreal x ?_
          exact JsonOf.mem_membersDoubles
            (List.mem_map_of_mem (f := fun e => (e.1, item.toTree e.2)) he) hx
  | word options =>
      cases h with
      | word w hw => exact rereads_textWord hw
  | record name fields ih =>
      obtain ⟨n, rfl, hnames, hrules, hfields⟩ := hform.of_record
      cases h with
      | record hroom ds h =>
          rw [toTree_record h.length_eq] at hreal
          rw [chars_record h.length_eq]
          refine rereads_textRecord hroom hnames hrules h.length_eq fun p hp => ?_
          have hzip := mem_zip_of_mem_written hp
          have hf := (List.of_mem_zip hzip).1
          refine ih _ hf (hfields _ hf) (h.fits_of_mem_zip hzip) fun x hx => hreal x ?_
          exact JsonOf.mem_membersDoubles (List.mem_map_of_mem hp) hx
  | tagged name tag alternatives ih =>
      obtain ⟨n, rfl, halternatives⟩ := hform.of_tagged
      -- the members beside the tag are read as values, so the text is taken as that of a value
      rw [chars_eq h]
      cases h with
      | tagged hroom hw ds h =>
          have ha := mem_of_lookup_eq_some hw
          obtain ⟨hnames, hrules, hfields⟩ := halternatives _ ha
          rw [toTree_tagged hw h.length_eq] at hreal ⊢
          refine rereads_textAlternatives hroom ?_ (ne_tag_of_mem_written hnames)
            (legible_memberOf h fun f hf d hd => hd.legible_toTree)
            (fun m hm x hx =>
              hreal x (JsonOf.mem_membersDoubles (List.mem_cons_of_mem _ hm) hx)) ?_
          · rw [treeAlternatives_eq, List.map_map]
            exact List.mem_map.2 ⟨_, ha, rfl⟩
          · exact treeAlternative_written hw (List.nodup_cons.1 hnames).2 hrules h
              fun f hf d hd => ofTree_toTree (hfields f hf) hd

/-- What is read back whatever follows it is read back from a whole text. -/
theorem read_write {form : Form} (h : Rereads form.ofText Json.depthLimit (form.chars d) d) :
    form.read (form.write d) = .ok d := by
  have hread := h [] Json.stops_nil
  rw [List.append_nil] at hread
  rw [read, write, String.toList_ofList]
  exact bind_eq_ok.2 ⟨_, hread, rfl⟩

end Form

end AgentSwarm

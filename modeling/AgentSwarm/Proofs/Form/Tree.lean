/-
**Data are read back from values.**

What is read from a JSON value fits the form, and a datum that fits is read back from the value that
is written for it.  For records the order of the fields does not matter to the reader, but the writer
has one; and a value that is written is nested no deeper than the form allows.  Rounded numbers are
left out here: they are written with the digits of the rounded one.

Main results:

* `AgentSwarm.Form.fits_ofTree` — **what is read from a value fits**;
* `AgentSwarm.Form.Fits.legible_toTree` — the value of a datum that fits can be read;
* `AgentSwarm.Form.ofTree_toTree` — **a datum that fits is read back from its value**.
-/

import AgentSwarm.Proofs.Form.Fits

set_option relaxedAutoImplicit false
set_option autoImplicit false

namespace AgentSwarm

open Json (Legible bind_eq_ok)

variable {rounded : Prop} {n : ℕ} {d : Datum} {v : Json} {s : String}

/-! ### Leaves that are read -/

theorem Width.ofInt_eq_ok_iff {width : Width} {k : ℤ} :
    width.ofInt k = .ok d ↔ ∃ m : ℕ, m ≤ width.max ∧ k = m ∧ d = .whole m := by
  unfold ofInt
  split
  next h =>
      obtain ⟨m, rfl⟩ := Int.eq_ofNat_of_zero_le h.1
      constructor
      · intro hd
        exact ⟨m, by omega, rfl, (Except.ok.inj hd).symm⟩
      · rintro ⟨m', -, hm, rfl⟩
        rw [hm, Int.toNat_natCast]
  next h =>
      constructor
      · nofun
      · rintro ⟨m, hm, rfl, -⟩
        exact absurd ⟨Int.natCast_nonneg m, by omega⟩ h

theorem Width.max_lt (width : Width) : width.max < 2 ^ 64 := by
  cases width <;> decide

namespace Form

theorem fits_spanOfText (h : spanOfText s = .ok d) : Fits rounded .span n d := by
  unfold spanOfText at h
  split at h
  next t ht => exact Except.ok.inj h ▸ .span t (Duration.le_longest_of_parse ht)
  next => cases h

theorem fits_momentOfText (h : momentOfText s = .ok d) : Fits rounded .moment n d := by
  unfold momentOfText at h
  split at h
  next t ht => exact Except.ok.inj h ▸ .moment t (Timestamp.proper_of_parse ht)
  next => cases h

theorem fits_identifierOfText (h : identifierOfText s = .ok d) : Fits rounded .identifier n d := by
  unfold identifierOfText at h
  split at h
  next digits hdigits =>
      exact Except.ok.inj h ▸ .identifier digits (Identifier.canonical_of_parse hdigits)
  next => cases h

theorem fits_wordOfText {options : List String} (h : wordOfText options s = .ok d) :
    Fits rounded (.word options) n d := by
  unfold wordOfText at h
  split at h
  next hw => exact Except.ok.inj h ▸ .word s hw
  next => cases h

theorem fits_ofInt {width : Width} {k : ℤ} (h : width.ofInt k = .ok d) :
    Fits rounded (.whole width) n d := by
  obtain ⟨m, hm, -, rfl⟩ := Width.ofInt_eq_ok_iff.1 h
  exact .whole m hm

/-- A free value that can be read fits when it is settled. -/
theorem fits_value (h : Legible n v) : Fits rounded .value n (.value v.settle) :=
  .value _ h.writable.settle h.settle

theorem treeText_eq_ok {expected : String} {read : String → Except Mismatch Datum}
    (h : treeText expected read v = .ok d) : ∃ s, v = .str s ∧ read s = .ok d := by
  unfold treeText at h
  split at h
  next s => exact ⟨s, rfl, h⟩
  next => cases h

/-- A number that can be read is finite. -/
theorem isFinite_of_number {x : Float} (hv : Legible n v) (h : v.number? = some x) :
    x.isFinite = true := by
  cases hv with
  | number v hv =>
      cases v with
      | int k =>
          have hrange : -2 ^ 63 ≤ k ∧ k < 2 ^ 64 := hv
          rw [← Option.some.inj h]
          exact Decimal.isFinite_ofInt (by omega)
      | real y => exact Option.some.inj h ▸ hv
      | null | bool | str | arr | obj => exact hv.elim
  | null | bool | str | arr | obj => cases h

/-! ### Containers that are read -/

/-- Each element of a list was read. -/
theorem of_treeItems {read : TreeReader} {items : List Json} {ds : List Datum}
    (h : treeItems read items = .ok ds) : ∀ d ∈ ds, ∃ v ∈ items, read v = .ok d := by
  induction items generalizing ds with
  | nil =>
      rw [← Except.ok.inj h]
      exact List.forall_mem_nil _
  | cons v items ih =>
      rw [treeItems] at h
      obtain ⟨d, hd, h⟩ := bind_eq_ok.1 h
      obtain ⟨rest, hrest, h⟩ := bind_eq_ok.1 h
      rw [← Except.ok.inj h]
      refine List.forall_mem_cons.2 ⟨⟨v, List.mem_cons_self, hd⟩, fun e he => ?_⟩
      obtain ⟨w, hw, hread⟩ := ih hrest e he
      exact ⟨w, List.mem_cons_of_mem _ hw, hread⟩

/-- The entries of a table are in order, and each was there before or was read. -/
theorem of_treeEntries {read : TreeReader} {members : List (String × Json)}
    {got entries : List (String × Datum)} (h : treeEntries read got members = .ok entries)
    (hgot : Ascending got) : Ascending entries ∧
      ∀ e ∈ entries, e ∈ got ∨ ∃ m ∈ members, read m.2 = .ok e.2 := by
  induction members generalizing got with
  | nil =>
      rw [← Except.ok.inj h]
      exact ⟨hgot, fun e he => .inl he⟩
  | cons m members ih =>
      obtain ⟨k, v⟩ := m
      rw [treeEntries] at h
      obtain ⟨d, hd, h⟩ := bind_eq_ok.1 h
      obtain ⟨horder, hentries⟩ := ih h hgot.insertMember
      refine ⟨horder, fun e he => ?_⟩
      rcases hentries e he with he | ⟨m, hm, hread⟩
      · rcases eq_or_mem_of_mem_insertMember he with rfl | he
        · exact .inr ⟨_, List.mem_cons_self, hd⟩
        · exact .inl he
      · exact .inr ⟨m, List.mem_cons_of_mem _ hm, hread⟩

section Fields

variable {fields : List Field} {ds : List Datum}

/-- What was given for the fields of a record: under the name of each a datum that fits it. -/
def GivenFor (rounded : Prop) (n : ℕ) (fields : List Field) (got : List (String × Datum)) :
    Prop := ∀ e ∈ got, ∃ f ∈ fields, f.1 = e.1 ∧ Fits rounded f.2.2 n e.2

/-- What is gathered from fitting data fits. -/
theorem fitsAll_gather {got : List (String × Datum)} (hnames : (fieldNames fields).Nodup)
    (hrules : ∀ f ∈ fields, f.2.1.Sound rounded n f.2.2) (hgot : GivenFor rounded n fields got)
    (h : gather got fields = .ok ds) : FitsAll rounded n fields ds := by
  rw [gather_eq_ok_iff, List.forall₂_iff_zip] at h
  rw [fitsAll_iff, List.forall₂_iff_zip]
  refine ⟨h.1, fun {f d} hmem => ?_⟩
  have hf : f ∈ fields := (List.of_mem_zip hmem).1
  rcases h.2 hmem with hlookup | ⟨-, habsent⟩
  · obtain ⟨f', hf', hname, hfits⟩ := hgot _ (mem_of_lookup_eq_some hlookup)
    rwa [← List.inj_on_of_nodup_map hnames hf' hf hname]
  · exact (hrules f hf).fits_absentField habsent

/-- The fields that are read from members. -/
theorem givenFor_treeMembers {members : List (String × Json)} {got got' : List (String × Datum)}
    (hread : ∀ f ∈ fields, ∀ v d, Legible n v → ofTree f.2.2 v = .ok d → Fits rounded f.2.2 n d)
    (hmembers : ∀ m ∈ members, Legible n m.2) (hgot : GivenFor rounded n fields got)
    (h : treeMembers (treeReaders fields) got members = .ok got') :
    GivenFor rounded n fields got' := by
  induction members generalizing got with
  | nil =>
      rw [← Except.ok.inj h]
      exact hgot
  | cons m members ih =>
      obtain ⟨k, v⟩ := m
      obtain ⟨hv, hmembers⟩ := List.forall_mem_cons.1 hmembers
      rw [treeMembers] at h
      split at h
      next => exact ih hmembers hgot h
      next rule form read hlookup =>
          rw [treeReaders_eq] at hlookup
          obtain ⟨hf, rfl⟩ := of_lookup_withReaders hlookup
          split at h
          next => cases h
          next =>
              obtain ⟨d, hd, h⟩ := bind_eq_ok.1 h
              refine ih hmembers (List.forall_mem_cons.2 ⟨?_, hgot⟩) h
              exact ⟨_, hf, rfl, hread _ hf v d hv hd⟩

/-- The fields that are read from a list. -/
theorem fitsAll_treeFieldList {expected : String} {total index : ℕ} {items : List Json}
    (hrules : ∀ f ∈ fields, f.2.1.Sound rounded n f.2.2)
    (hread : ∀ f ∈ fields, ∀ v d, Legible n v → ofTree f.2.2 v = .ok d → Fits rounded f.2.2 n d)
    (hitems : ∀ v ∈ items, Legible n v)
    (h : treeFieldList expected total index (treeReaders fields) items = .ok ds) :
    FitsAll rounded n fields ds := by
  induction fields generalizing index items ds with
  | nil =>
      cases items with
      | nil =>
          rw [← Except.ok.inj h]
          exact .nil
      | cons v items => cases h
  | cons f fields ih =>
      obtain ⟨hrule, hrules⟩ := List.forall_mem_cons.1 hrules
      obtain ⟨hf, hread⟩ := List.forall_mem_cons.1 hread
      cases items with
      | nil =>
          rw [treeReaders, treeFieldList] at h
          split at h
          next d hd =>
              obtain ⟨rest, hrest, h⟩ := bind_eq_ok.1 h
              rw [← Except.ok.inj h]
              exact .cons (hrule.missing d hd) (ih hrules hread (List.forall_mem_nil _) hrest)
          next => cases h
      | cons v items =>
          obtain ⟨hv, hitems⟩ := List.forall_mem_cons.1 hitems
          rw [treeReaders, treeFieldList] at h
          obtain ⟨d, hd, h⟩ := bind_eq_ok.1 h
          obtain ⟨rest, hrest, h⟩ := bind_eq_ok.1 h
          rw [← Except.ok.inj h]
          exact .cons (hf v d hv hd) (ih hrules hread hitems hrest)

theorem map_fields_treeReaders (fields : List Field) :
    ((treeReaders fields).map fun (name, rule, form, _) => (name, rule, form)) = fields := by
  rw [treeReaders_eq, withReaders, List.map_map]
  exact List.map_id fields

/-- The fields of a record that is read. -/
theorem fitsAll_treeFields {called : String} (hnames : (fieldNames fields).Nodup)
    (hrules : ∀ f ∈ fields, f.2.1.Sound rounded n f.2.2)
    (hread : ∀ f ∈ fields, ∀ v d, Legible n v → ofTree f.2.2 v = .ok d → Fits rounded f.2.2 n d)
    (hv : Legible (n + 1) v) (h : treeFields called (treeReaders fields) v = .ok ds) :
    0 < n ∧ FitsAll rounded n fields ds := by
  unfold treeFields at h
  split at h
  next members =>
      obtain ⟨got, hgot, h⟩ := bind_eq_ok.1 h
      rw [map_fields_treeReaders] at h
      obtain ⟨n, hn, hroom, hmembers⟩ := hv.of_obj
      obtain rfl := Nat.succ.inj hn
      exact ⟨hroom, fitsAll_gather hnames hrules
        (givenFor_treeMembers hread hmembers (List.forall_mem_nil _) hgot) h⟩
  next items =>
      obtain ⟨n, hn, hroom, hitems⟩ := hv.of_arr
      obtain rfl := Nat.succ.inj hn
      exact ⟨hroom, fitsAll_treeFieldList hrules hread hitems h⟩
  next => cases h

end Fields

/-- What an alternative reads is a record with the tag. -/
theorem treeAlternative_eq_ok {name w : String} {alternatives : List (String × String × List Field)}
    (h : treeAlternative name (treeAlternatives alternatives) w v = .ok d) :
    ∃ label fields ds, alternatives.lookup w = some (label, fields) ∧ d = .tagged w ds ∧
      treeFields (alternativeCalled name label) (treeReaders fields) v = .ok ds := by
  unfold treeAlternative at h
  rw [lookup_treeAlternatives] at h
  split at h
  next => cases h
  next label readers hlookup =>
      obtain ⟨⟨label', fields⟩, hfields, heq⟩ := Option.map_eq_some_iff.1 hlookup
      cases heq
      obtain ⟨ds, hds, h⟩ := bind_eq_ok.1 h
      exact ⟨_, fields, ds, hfields, (Except.ok.inj h).symm, hds⟩

/-- What is left beside the tag can be read. -/
theorem legible_treeTag {name tag : String} {t rest : Json} (hv : Legible n v)
    (h : treeTag name tag v = .ok (t, rest)) : Legible n rest := by
  unfold treeTag at h
  split at h
  next members =>
      split at h
      next => cases h
      next =>
          obtain ⟨-, rfl⟩ := Prod.mk.inj (Except.ok.inj h)
          obtain ⟨n, rfl, hroom, hmembers⟩ := hv.of_obj
          exact .obj hroom _ fun m hm => hmembers m (List.mem_of_mem_filter hm)
      next => cases h
  next => cases h
  next =>
      obtain ⟨-, rfl⟩ := Prod.mk.inj (Except.ok.inj h)
      obtain ⟨n, rfl, hroom, hitems⟩ := hv.of_arr
      exact .arr hroom _ fun v hv => hitems v (List.mem_cons_of_mem _ hv)
  next => cases h

/-! ### Absent values -/

/-- A datum that fits a form that is not optional is there. -/
theorem Fits.isAbsent_eq {form : Form} (h : Fits rounded form n d) (hform : form.isOptional = false) :
    d.isAbsent = false := by
  cases h with
  | absent | present => cases hform
  | _ => rfl

/-- The empty value only fits where any value does. -/
theorem Fits.eq_value {form : Form} (h : Fits rounded form n (.value .null))
    (hform : form.isOptional = false) : form = .value := by
  cases h with
  | value => rfl
  | present => cases hform

/-- No datum but the empty value is written as the empty value. -/
theorem Fits.isNull_toTree {form : Form} (h : Fits rounded form n d)
    (hform : form.isOptional = false) (hvalue : d ≠ .value .null) :
    (form.toTree d).isNull = false := by
  cases h with
  | absent | present => cases hform
  | value v =>
      cases v with
      | null => exact absurd rfl hvalue
      | _ => rfl
  | tagged _ hw ds h =>
      rw [toTree_tagged hw h.length_eq]
      rfl
  | _ => rfl

theorem isNull_of_settle (h : v.settle = .null) : v.isNull = true := by
  cases v with
  | null => rfl
  | _ => cases h

/-- What is read as a word is one. -/
theorem exists_word {options : List String} (h : treeWord options v = .ok d) :
    ∃ s, wordOfText options s = .ok d := by
  unfold treeWord at h
  split at h
  next s => exact ⟨s, h⟩
  next k w =>
      obtain ⟨e, he, h⟩ := bind_eq_ok.1 h
      refine ⟨k, ?_⟩
      split at h
      next => rwa [← Except.ok.inj h]
      next => rwa [← Except.ok.inj h]
      next => cases h
  next => cases h
  next => cases h

/-! ### What is read fits -/

/-- **What is read from a value fits.** -/
theorem fits_ofTree {form : Form} (hform : WellMade rounded n form) (hv : Legible n v)
    (h : form.ofTree v = .ok d) : Fits rounded form n d := by
  induction form using inductionOn generalizing n v d with
  | text =>
      obtain ⟨s, -, hs⟩ := treeText_eq_ok h
      exact Except.ok.inj hs ▸ .text s
  | flag =>
      cases v with
      | bool b => exact Except.ok.inj h ▸ .flag b
      | _ => cases h
  | whole width =>
      cases v with
      | int k => exact fits_ofInt h
      | _ => cases h
  | real =>
      simp only [ofTree] at h
      split at h
      next x hx => exact Except.ok.inj h ▸ .real x (isFinite_of_number hv hx)
      next => cases h
  | single =>
      simp only [ofTree] at h
      split at h
      next x hx => exact Except.ok.inj h ▸ .single hform.of_single x
      next => cases h
  | span =>
      obtain ⟨s, -, hs⟩ := treeText_eq_ok h
      exact fits_spanOfText hs
  | moment =>
      obtain ⟨s, -, hs⟩ := treeText_eq_ok h
      exact fits_momentOfText hs
  | identifier =>
      obtain ⟨s, -, hs⟩ := treeText_eq_ok h
      exact fits_identifierOfText hs
  | value => exact Except.ok.inj h ▸ fits_value hv
  | object =>
      cases v with
      | obj members => exact Except.ok.inj h ▸ .object _ hv.writable.settle hv.settle
      | _ => cases h
  | optional inner ih =>
      simp only [ofTree] at h
      split at h
      next => exact Except.ok.inj h ▸ .absent
      next hnull =>
          obtain ⟨hinner, hform⟩ := hform.of_optional
          have hfits := ih hform hv h
          -- an empty value would have been absent
          have hvalue : d ≠ .value .null := by
            rintro rfl
            obtain rfl := hfits.eq_value hinner
            exact hnull (isNull_of_settle (Datum.value.inj (Except.ok.inj h)))
          exact .present d (hfits.isAbsent_eq hinner) (hfits.isNull_toTree hinner hvalue) hfits
  | list item ih =>
      obtain ⟨n, rfl, hitem⟩ := hform.of_list
      cases v with
      | arr items =>
          obtain ⟨ds, hds, rfl⟩ := map_eq_ok.1 h
          obtain ⟨n, hn, hroom, hitems⟩ := hv.of_arr
          obtain rfl := Nat.succ.inj hn
          refine .list hroom ds fun d hd => ?_
          obtain ⟨v, hv, hread⟩ := of_treeItems hds d hd
          exact ih hitem (hitems v hv) hread
      | _ => cases h
  | table item ih =>
      obtain ⟨n, rfl, hitem⟩ := hform.of_table
      cases v with
      | obj members =>
          obtain ⟨entries, hentries, rfl⟩ := map_eq_ok.1 h
          obtain ⟨horder, hmem⟩ := of_treeEntries hentries .nil
          obtain ⟨n, hn, hroom, hmembers⟩ := hv.of_obj
          obtain rfl := Nat.succ.inj hn
          refine .table hroom entries horder fun e he => ?_
          rcases hmem e he with he | ⟨m, hm, hread⟩
          · cases he
          · exact ih hitem (hmembers m hm) hread
      | _ => cases h
  | word options =>
      obtain ⟨s, hs⟩ := exists_word h
      exact fits_wordOfText hs
  | record name fields ih =>
      obtain ⟨n, rfl, hnames, hrules, hfields⟩ := hform.of_record
      obtain ⟨ds, hds, rfl⟩ := map_eq_ok.1 h
      obtain ⟨hroom, hfits⟩ := fitsAll_treeFields hnames hrules
        (fun f hf v d hv hread => ih f hf (hfields f hf) hv hread) hv hds
      exact .record hroom ds hfits
  | tagged name tag alternatives ih =>
      obtain ⟨n, rfl, halternatives⟩ := hform.of_tagged
      simp only [ofTree] at h
      obtain ⟨⟨t, rest⟩, htag, h⟩ := bind_eq_ok.1 h
      split at h
      next w =>
          obtain ⟨label, fields, ds, hw, rfl, hds⟩ := treeAlternative_eq_ok h
          have ha := mem_of_lookup_eq_some hw
          obtain ⟨hnames, hrules, hfields⟩ := halternatives _ ha
          obtain ⟨hroom, hfits⟩ := fitsAll_treeFields (List.nodup_cons.1 hnames).2 hrules
            (fun f hf v d hv hread => ih _ ha f hf (hfields f hf) hv hread)
            (legible_treeTag hv htag) hds
          exact .tagged hroom hw ds hfits
      next => cases h

/-! ### What fits can be read -/

/-- The members of a record that are written can be read. -/
theorem legible_memberOf {fields : List Field} {ds : List Datum} (h : FitsAll rounded n fields ds)
    (ih : ∀ f ∈ fields, ∀ d, Fits rounded f.2.2 n d → Legible n (f.2.2.toTree d)) :
    ∀ m ∈ (written fields ds).map memberOf, Legible n m.2 := by
  rw [List.forall_mem_map]
  intro p hp
  have hzip := mem_zip_of_mem_written hp
  exact ih _ (List.of_mem_zip hzip).1 _ (h.fits_of_mem_zip hzip)

/-- **The value of a datum that fits can be read.** -/
theorem Fits.legible_toTree {form : Form} (h : Fits False form n d) : Legible n (form.toTree d) := by
  induction form using inductionOn generalizing n d with
  | text | span | moment | identifier | word =>
      cases h
      exact .str _
  | flag =>
      cases h
      exact .bool _
  | whole width =>
      cases h with
      | whole k hk =>
          have hmax := width.max_lt
          exact .number (.int k) ⟨by omega, by omega⟩
  | real =>
      cases h with
      | real x hx => exact .number (.real x) hx
  | single =>
      cases h with
      | single hrounded => exact hrounded.elim
  | value =>
      cases h with
      | value v _ hv => exact hv
  | object =>
      cases h with
      | object members _ hv => exact hv
  | optional inner ih =>
      cases h with
      | absent => exact .null
      | present d habsent _ h =>
          rw [toTree_optional habsent]
          exact ih h
  | list item ih =>
      cases h with
      | list hroom items h => exact .arr hroom _ (List.forall_mem_map.2 fun d hd => ih (h d hd))
  | table item ih =>
      cases h with
      | table hroom entries _ h =>
          rw [toTree_table]
          exact .obj hroom _ (List.forall_mem_map.2 fun e he => ih (h e he))
  | record name fields ih =>
      cases h with
      | record hroom ds h =>
          rw [toTree_record h.length_eq]
          exact .obj hroom _ (legible_memberOf h fun f hf d => ih f hf)
  | tagged name tag alternatives ih =>
      cases h with
      | tagged hroom hw ds h =>
          rw [toTree_tagged hw h.length_eq]
          refine .obj hroom _ (List.forall_mem_cons.2 ⟨.str _, legible_memberOf h ?_⟩)
          exact fun f hf d => ih _ (mem_of_lookup_eq_some hw) f hf

/-! ### What fits is read back -/

theorem spanOfText_text {t : Duration} (h : t.nanos ≤ Duration.longest.nanos) :
    spanOfText t.text = .ok (.span t) := by
  rw [spanOfText, Duration.parse_text h]

theorem momentOfText_text {t : Timestamp} (h : t.Proper) : momentOfText t.text = .ok (.moment t) := by
  rw [momentOfText, Timestamp.parse_text h]

theorem identifierOfText_text {digits : List Char} (h : Identifier.Canonical digits) :
    identifierOfText (Identifier.text digits) = .ok (.identifier digits) := by
  rw [identifierOfText, Identifier.parse_text h]

theorem wordOfText_eq {options : List String} {w : String} (h : w ∈ options) :
    wordOfText options w = .ok (.word w) := if_pos h

theorem treeItems_map {read : TreeReader} {write : TreeWriter} {ds : List Datum}
    (h : ∀ d ∈ ds, read (write d) = .ok d) : treeItems read (ds.map write) = .ok ds := by
  induction ds with
  | nil => rfl
  | cons d ds ih =>
      obtain ⟨hd, hds⟩ := List.forall_mem_cons.1 h
      exact bind_eq_ok.2 ⟨d, hd, bind_eq_ok.2 ⟨ds, ih hds, rfl⟩⟩

/-- The next entry in order is set behind those before it. -/
theorem insertMember_next {got entries : List (String × Datum)} {e : String × Datum}
    (horder : Ascending (got ++ e :: entries)) : insertMember e.1 e.2 got = got ++ [e] := by
  rw [Ascending, List.map_append, List.pairwise_append] at horder
  exact insertMember_eq_append fun k hk => horder.2.2 k hk _ List.mem_cons_self

theorem treeEntries_map {read : TreeReader} {write : TreeWriter} {got entries : List (String × Datum)}
    (horder : Ascending (got ++ entries)) (h : ∀ e ∈ entries, read (write e.2) = .ok e.2) :
    treeEntries read got (entries.map fun e => (e.1, write e.2)) = .ok (got ++ entries) := by
  induction entries generalizing got with
  | nil => rw [List.append_nil]; rfl
  | cons e entries ih =>
      obtain ⟨he, hentries⟩ := List.forall_mem_cons.1 h
      rw [List.map_cons, treeEntries]
      refine bind_eq_ok.2 ⟨e.2, he, ?_⟩
      rw [insertMember_next horder, ih (by simpa using horder) hentries, List.append_assoc,
        List.singleton_append]

section Fields

variable {fields : List Field} {ds : List Datum}

/-- Other fields are as new as before when a field has been read. -/
theorem lookup_cons_eq_none {p q : Field × Datum} {l : List (Field × Datum)}
    {got : List (String × Datum)} (hfresh : p.1.1 ∉ l.map fun p => p.1.1)
    (hgot : ∀ q ∈ l, got.lookup q.1.1 = none) (hq : q ∈ l) :
    ((p.1.1, p.2) :: got).lookup q.1.1 = none := by
  have hne : (q.1.1 == p.1.1) = false := by
    rw [beq_eq_false_iff_ne]
    intro heq
    exact hfresh (List.mem_map.2 ⟨q, hq, heq⟩)
  rw [List.lookup_cons, hne]
  exact hgot q hq

/-- The members that are written for fields are read one after the other. -/
theorem treeMembers_map {l : List (Field × Datum)} {got : List (String × Datum)}
    (hnames : (fieldNames fields).Nodup) (hl : ∀ p ∈ l, p.1 ∈ fields)
    (hread : ∀ p ∈ l, p.1.2.2.ofTree (p.1.2.2.toTree p.2) = .ok p.2)
    (hnew : (l.map fun p => p.1.1).Nodup)
    (hgot : ∀ p ∈ l, got.lookup p.1.1 = none) :
    treeMembers (treeReaders fields) got (l.map memberOf) =
      .ok ((l.map fun p => (p.1.1, p.2)).reverse ++ got) := by
  induction l generalizing got with
  | nil => rfl
  | cons p l ih =>
      obtain ⟨hp, hl⟩ := List.forall_mem_cons.1 hl
      obtain ⟨hread, hreads⟩ := List.forall_mem_cons.1 hread
      obtain ⟨hgot, hgots⟩ := List.forall_mem_cons.1 hgot
      obtain ⟨hfresh, hnew⟩ := List.nodup_cons.1 hnew
      rw [List.map_cons, memberOf, treeMembers, treeReaders_eq, lookup_withReaders hnames hp]
      simp only [hgot, Option.isSome_none, Bool.false_eq_true, if_false]
      refine bind_eq_ok.2 ⟨p.2, hread, ?_⟩
      rw [← treeReaders_eq, ih hl hreads hnew fun q hq => lookup_cons_eq_none hfresh hgots hq]
      simp

/-- What is found among the fields that were written. -/
theorem lookup_written (hlength : fields.length = ds.length) (hnames : (fieldNames fields).Nodup)
    (k : String) (d : Datum) :
    (((written fields ds).map fun p => (p.1.1, p.2)).reverse).lookup k = some d ↔
      ∃ p ∈ written fields ds, p.1.1 = k ∧ p.2 = d := by
  have hkeys : ((((written fields ds).map fun p => (p.1.1, p.2)).reverse).map Prod.fst).Nodup := by
    rw [List.map_reverse, List.nodup_reverse, List.map_map]
    exact nodup_names_written hlength hnames
  constructor
  · intro h
    obtain ⟨p, hp, heq⟩ := List.mem_map.1 (List.mem_reverse.1 (mem_of_lookup_eq_some h))
    exact ⟨p, hp, Prod.mk.inj heq⟩
  · rintro ⟨p, hp, rfl, rfl⟩
    exact lookup_eq_some_of_nodup hkeys (List.mem_reverse.2 (List.mem_map.2 ⟨p, hp, rfl⟩))

/-- No field has the name of the tag. -/
theorem ne_tag_of_mem_written {tag : String} (hnames : (tag :: fieldNames fields).Nodup) :
    ∀ m ∈ (written fields ds).map memberOf, m.1 ≠ tag := by
  rw [List.forall_mem_map]
  rintro p hp rfl
  refine (List.nodup_cons.1 hnames).1 (List.mem_map.2 ⟨p.1, ?_, rfl⟩)
  exact (List.of_mem_zip (mem_zip_of_mem_written hp)).1

/-- The tag is told apart from the fields. -/
theorem treeTag_written {name tag w : String} (ds : List Datum)
    (hnames : (tag :: fieldNames fields).Nodup) :
    treeTag name tag (.obj ((tag, .str w) :: (written fields ds).map memberOf)) =
      .ok (.str w, .obj ((written fields ds).map memberOf)) := by
  have hne : ∀ m ∈ (written fields ds).map memberOf, (m.1 == tag) = false := fun m hm =>
    beq_eq_false_iff_ne.2 (ne_tag_of_mem_written hnames m hm)
  have hnone : ((written fields ds).map memberOf).filter (fun m => m.1 == tag) = [] :=
    List.filter_eq_nil_iff.2 fun m hm => by rw [hne m hm]; exact Bool.false_ne_true
  have hall : ((written fields ds).map memberOf).filter (fun m => m.1 != tag) =
      (written fields ds).map memberOf :=
    List.filter_eq_self.2 fun m hm => by rw [bne, hne m hm]; rfl
  simp only [treeTag, List.filter_cons, beq_self_eq_true, if_true, hnone, bne_self_eq_false,
    Bool.false_eq_true, if_false, hall]

/-- A record is read back from the members that are written for it. -/
theorem treeFields_written {called : String} (hnames : (fieldNames fields).Nodup)
    (hrules : ∀ f ∈ fields, f.2.1.Sound rounded n f.2.2) (h : FitsAll rounded n fields ds)
    (hread : ∀ f ∈ fields, ∀ d, Fits rounded f.2.2 n d → f.2.2.ofTree (f.2.2.toTree d) = .ok d) :
    treeFields called (treeReaders fields) (.obj ((written fields ds).map memberOf)) = .ok ds := by
  have hfields : ∀ p ∈ written fields ds, p.1 ∈ fields := fun p hp =>
    (List.of_mem_zip (mem_zip_of_mem_written hp)).1
  have hmembers : treeMembers (treeReaders fields) [] ((written fields ds).map memberOf) = .ok _ :=
    treeMembers_map hnames hfields
      (fun p hp => hread _ (hfields p hp) _ (h.fits_of_mem_zip (mem_zip_of_mem_written hp)))
      (nodup_names_written h.length_eq hnames) fun _ _ => rfl
  rw [List.append_nil] at hmembers
  refine bind_eq_ok.2 ⟨_, hmembers, ?_⟩
  rw [map_fields_treeReaders]
  exact gather_written h.length_eq hnames hrules (lookup_written h.length_eq hnames)

/-- An alternative is read back from the members that are written for it. -/
theorem treeAlternative_written {name w label : String}
    {alternatives : List (String × String × List Field)}
    (hw : alternatives.lookup w = some (label, fields)) (hnames : (fieldNames fields).Nodup)
    (hrules : ∀ f ∈ fields, f.2.1.Sound rounded n f.2.2) (h : FitsAll rounded n fields ds)
    (hread : ∀ f ∈ fields, ∀ d, Fits rounded f.2.2 n d → f.2.2.ofTree (f.2.2.toTree d) = .ok d) :
    treeAlternative name (treeAlternatives alternatives) w
      (.obj ((written fields ds).map memberOf)) = .ok (.tagged w ds) := by
  simp only [treeAlternative, lookup_treeAlternatives, hw, Option.map_some]
  exact bind_eq_ok.2 ⟨ds, treeFields_written hnames hrules h hread, rfl⟩

end Fields

/-- **A datum that fits is read back from its value.** -/
theorem ofTree_toTree {form : Form} (hform : WellMade False n form) (h : Fits False form n d) :
    form.ofTree (form.toTree d) = .ok d := by
  induction form using inductionOn generalizing n d with
  | text =>
      cases h
      rfl
  | flag =>
      cases h
      rfl
  | whole width =>
      cases h with
      | whole k hk => exact Width.ofInt_eq_ok_iff.2 ⟨k, hk, rfl, rfl⟩
  | real =>
      cases h
      rfl
  | single =>
      cases h with
      | single hrounded => exact hrounded.elim
  | span =>
      cases h with
      | span t ht => simp only [ofTree, toTree, treeText, spanOfText_text ht]
  | moment =>
      cases h with
      | moment t ht => simp only [ofTree, toTree, treeText, momentOfText_text ht]
  | identifier =>
      cases h with
      | identifier digits h => simp only [ofTree, toTree, treeText, identifierOfText_text h]
  | value =>
      cases h with
      | value v hformed _ => simp only [ofTree, toTree, hformed.settle_eq]
  | object =>
      cases h with
      | object members hformed _ => simp only [ofTree, toTree, hformed.settle_eq]
  | optional inner ih =>
      obtain ⟨-, hform⟩ := hform.of_optional
      cases h with
      | absent => rfl
      | present d habsent hnull h =>
          rw [toTree_optional habsent]
          simp only [ofTree, hnull, Bool.false_eq_true, if_false]
          exact ih hform h
  | list item ih =>
      obtain ⟨n, rfl, hitem⟩ := hform.of_list
      cases h with
      | list _ items h => exact map_eq_ok.2 ⟨_, treeItems_map fun d hd => ih hitem (h d hd), rfl⟩
  | table item ih =>
      obtain ⟨n, rfl, hitem⟩ := hform.of_table
      cases h with
      | table _ entries horder h =>
          rw [toTree_table]
          have hentries : treeEntries item.ofTree []
              (entries.map fun e => (e.1, item.toTree e.2)) = .ok entries :=
            treeEntries_map horder fun e he => ih hitem (h e he)
          exact map_eq_ok.2 ⟨_, hentries, rfl⟩
  | word options =>
      cases h with
      | word w hw => exact wordOfText_eq hw
  | record name fields ih =>
      obtain ⟨n, rfl, hnames, hrules, hfields⟩ := hform.of_record
      cases h with
      | record _ ds h =>
          rw [toTree_record h.length_eq]
          exact map_eq_ok.2 ⟨ds, treeFields_written hnames hrules h fun f hf d hd =>
            ih f hf (hfields f hf) hd, rfl⟩
  | tagged name tag alternatives ih =>
      obtain ⟨n, rfl, halternatives⟩ := hform.of_tagged
      cases h with
      | tagged _ hw ds h =>
          have ha := mem_of_lookup_eq_some hw
          obtain ⟨hnames, hrules, hfields⟩ := halternatives _ ha
          rw [toTree_tagged hw h.length_eq]
          refine bind_eq_ok.2 ⟨_, treeTag_written ds hnames, ?_⟩
          exact treeAlternative_written hw (List.nodup_cons.1 hnames).2 hrules h fun f hf d hd =>
            ih _ ha f hf (hfields f hf) hd

end Form

end AgentSwarm

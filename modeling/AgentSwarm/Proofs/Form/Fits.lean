/-
**Data that fit a form.**

A form describes data: a whole number within its width, a list of data of one form, a record with a
datum for each field.  What is read in a form fits it, and what fits can be written and read back, if
the form itself is well made: its fields have different names, what an absent field stands for fits
the field, and only optional values are hidden.  How deep values may be nested is part of the fit,
since free JSON values stand at known depths inside a form.

Main definitions:

* `AgentSwarm.Form.Fits`, `AgentSwarm.Form.FitsAll` — a datum fits a form, and data fit some fields;
* `AgentSwarm.FieldRule.Sound`, `AgentSwarm.Form.WellMade` — rules and forms that are well made;
* `AgentSwarm.Form.written` — the fields of a record that are written;
* `AgentSwarm.Form.memberOf`, `AgentSwarm.Form.textOf` — such a field as a member, and as its text.

Main results:

* `AgentSwarm.Form.inductionOn` — induction on forms, with a hypothesis for each field;
* `AgentSwarm.Form.gather_eq_ok_iff` — the fields of a record from those that were given;
* `AgentSwarm.Form.chars_eq` — the text of a datum without numbers of single precision is that of its
  value.
-/

import AgentSwarm.Form.OfText
import AgentSwarm.Form.View
import AgentSwarm.Form.Writer
import AgentSwarm.Proofs.Duration.Reread
import AgentSwarm.Proofs.Identifier.Reread
import AgentSwarm.Proofs.Json.Reread
import AgentSwarm.Proofs.Timestamp.Reread

set_option relaxedAutoImplicit false
set_option autoImplicit false

namespace AgentSwarm

namespace Form

/-- A field of a record: its name, its rule and its form. -/
abbrev Field := String × FieldRule × Form

/-! ### Induction on forms -/

/-- Induction on forms, with a hypothesis for each field of a record and of an alternative. -/
@[elab_as_elim]
theorem inductionOn {P : Form → Prop} (form : Form) (text : P .text) (flag : P .flag)
    (whole : ∀ width, P (.whole width)) (real : P .real) (single : P .single) (span : P .span)
    (moment : P .moment) (identifier : P .identifier) (value : P .value) (object : P .object)
    (optional : ∀ inner, P inner → P (.optional inner)) (list : ∀ item, P item → P (.list item))
    (table : ∀ item, P item → P (.table item)) (word : ∀ options, P (.word options))
    (record : ∀ name (fields : List Field), (∀ f ∈ fields, P f.2.2) → P (.record name fields))
    (tagged : ∀ name tag (alternatives : List (String × String × List Field)),
      (∀ a ∈ alternatives, ∀ f ∈ a.2.2, P f.2.2) → P (.tagged name tag alternatives)) : P form :=
  @Form.rec P (fun fields => ∀ f ∈ fields, P f.2.2)
    (fun alternatives => ∀ a ∈ alternatives, ∀ f ∈ a.2.2, P f.2.2) (fun f => P f.2.2)
    (fun a => ∀ f ∈ a.2.2, P f.2.2) (fun f => P f.2) (fun a => ∀ f ∈ a.2, P f.2.2)
    text flag whole real single span moment identifier value object optional list table word
    record tagged nofun (fun _ _ hf hfs => List.forall_mem_cons.2 ⟨hf, hfs⟩)
    nofun (fun _ _ ha has => List.forall_mem_cons.2 ⟨ha, has⟩)
    (fun _ _ h => h) (fun _ _ h => h) (fun _ _ h => h) (fun _ _ h => h) form

/-! ### Data that fit -/

mutual

/-- A datum fits a form where so many container levels are left, counted as the readers do; `rounded`
says whether there may be single-precision numbers. -/
inductive Fits (rounded : Prop) : Form → ℕ → Datum → Prop
  | text {n : ℕ} (s : String) : Fits rounded .text n (.text s)
  | flag {n : ℕ} (b : Bool) : Fits rounded .flag n (.flag b)
  | whole {n : ℕ} {width : Width} (k : ℕ) (hk : k ≤ width.max) :
      Fits rounded (.whole width) n (.whole k)
  | real {n : ℕ} (x : Float) (hx : x.isFinite = true) : Fits rounded .real n (.real x)
  | single {n : ℕ} (hrounded : rounded) (x : Float32) : Fits rounded .single n (.single x)
  | span {n : ℕ} (d : Duration) (hd : d.nanos ≤ Duration.longest.nanos) :
      Fits rounded .span n (.span d)
  | moment {n : ℕ} (t : Timestamp) (ht : t.Proper) : Fits rounded .moment n (.moment t)
  | identifier {n : ℕ} (digits : List Char) (h : Identifier.Canonical digits) :
      Fits rounded .identifier n (.identifier digits)
  | value {n : ℕ} (v : Json) (hform : v.WellFormed) (hv : Json.Legible n v) :
      Fits rounded .value n (.value v)
  | object {n : ℕ} (members : List (String × Json)) (hform : (JsonOf.obj members : Json).WellFormed)
      (hv : Json.Legible n (.obj members)) : Fits rounded .object n (.value (.obj members))
  | absent {n : ℕ} {inner : Form} : Fits rounded (.optional inner) n .absent
  | present {n : ℕ} {inner : Form} (d : Datum) (habsent : d.isAbsent = false)
      (hnull : (inner.toTree d).isNull = false) (h : Fits rounded inner n d) :
      Fits rounded (.optional inner) n d
  | list {n : ℕ} {item : Form} (hroom : 0 < n) (items : List Datum)
      (h : ∀ d ∈ items, Fits rounded item n d) : Fits rounded (.list item) (n + 1) (.list items)
  | table {n : ℕ} {item : Form} (hroom : 0 < n) (entries : List (String × Datum))
      (horder : Ascending entries) (h : ∀ e ∈ entries, Fits rounded item n e.2) :
      Fits rounded (.table item) (n + 1) (.table entries)
  | word {n : ℕ} {options : List String} (w : String) (hw : w ∈ options) :
      Fits rounded (.word options) n (.word w)
  | record {n : ℕ} {name : String} {fields : List Field} (hroom : 0 < n) (ds : List Datum)
      (h : FitsAll rounded n fields ds) : Fits rounded (.record name fields) (n + 1) (.record ds)
  | tagged {n : ℕ} {name tag w label : String} {alternatives : List (String × String × List Field)}
      {fields : List Field} (hroom : 0 < n) (hw : alternatives.lookup w = some (label, fields))
      (ds : List Datum) (h : FitsAll rounded n fields ds) :
      Fits rounded (.tagged name tag alternatives) (n + 1) (.tagged w ds)

/-- The data fit the fields one by one. -/
inductive FitsAll (rounded : Prop) : ℕ → List Field → List Datum → Prop
  | nil {n : ℕ} : FitsAll rounded n [] []
  | cons {n : ℕ} {f : Field} {fields : List Field} {d : Datum} {ds : List Datum}
      (hd : Fits rounded f.2.2 n d) (hds : FitsAll rounded n fields ds) :
      FitsAll rounded n (f :: fields) (d :: ds)

end

variable {rounded : Prop} {n : ℕ} {form : Form} {fields : List Field} {ds : List Datum}

theorem fitsAll_iff :
    FitsAll rounded n fields ds ↔ List.Forall₂ (fun f d => Fits rounded f.2.2 n d) fields ds := by
  constructor
  · intro h
    induction fields generalizing ds with
    | nil =>
        cases h
        exact .nil
    | cons f fields ih =>
        cases h with
        | cons hd hds => exact .cons hd (ih hds)
  · intro h
    induction h with
    | nil => exact .nil
    | cons hd _ ih => exact .cons hd ih

theorem FitsAll.length_eq (h : FitsAll rounded n fields ds) : fields.length = ds.length :=
  (fitsAll_iff.1 h).length_eq

theorem FitsAll.fits_of_mem_zip (h : FitsAll rounded n fields ds) {p : Field × Datum}
    (hp : p ∈ fields.zip ds) : Fits rounded p.1.2.2 n p.2 :=
  (List.forall₂_iff_zip.1 (fitsAll_iff.1 h)).2 hp

/-! ### Forms that are well made -/

end Form

/-- A rule for a field of some form: what it has for an absent field fits, and what it hides is
optional. -/
structure FieldRule.Sound (rounded : Prop) (n : ℕ) (rule : FieldRule) (form : Form) : Prop where
  missing : ∀ d, rule.missing = some d → form.Fits rounded n d
  hides : rule.hideAbsent = true → form.isOptional = true ∧
    (rule.missing = none ∨ rule.missing = some .absent)

namespace FieldRule.Sound

variable {rounded : Prop} {n : ℕ} {form : Form}

@[simp] theorem required : Sound rounded n .required form := ⟨nofun, nofun⟩

@[simp] theorem default_iff {d : Datum} :
    Sound rounded n (.default d) form ↔ form.Fits rounded n d :=
  ⟨fun h => h.missing d rfl, fun h => ⟨fun _ hd => Option.some.inj hd ▸ h, nofun⟩⟩

@[simp] theorem hidden {inner : Form} : Sound rounded n .hidden (.optional inner) :=
  ⟨nofun, fun _ => ⟨rfl, .inl rfl⟩⟩

@[simp] theorem hiddenDefault {inner : Form} : Sound rounded n .hiddenDefault (.optional inner) :=
  ⟨fun _ hd => Option.some.inj hd ▸ .absent, fun _ => ⟨rfl, .inr rfl⟩⟩

/-- What a field that was not given stands for fits it. -/
theorem fits_absentField {name : String} {rule : FieldRule} {d : Datum}
    (h : Sound rounded n rule form) (hd : absentField name rule form = .ok d) :
    form.Fits rounded n d := by
  unfold absentField at hd
  split at hd
  next e he => exact Except.ok.inj hd ▸ h.missing e he
  next =>
      split at hd
      next hoptional =>
          rw [← Except.ok.inj hd]
          cases form with
          | optional => exact .absent
          | _ => cases hoptional
      next => cases hd

/-- A field that is hidden is absent again. -/
theorem absentField_eq {name : String} {rule : FieldRule} (h : Sound rounded n rule form)
    (hhide : rule.hideAbsent = true) : absentField name rule form = .ok .absent := by
  obtain ⟨hoptional, hmissing | hmissing⟩ := h.hides hhide
  · simp only [absentField, hmissing, hoptional, if_true]
  · simp only [absentField, hmissing]

end FieldRule.Sound

namespace Form

/-- A form that holds no other form. -/
abbrev isLeaf : Form → Bool
  | .text | .flag | .whole _ | .real | .span | .moment | .identifier | .value | .object
  | .word _ => true
  | _ => false

/-- A form is well made where so many container levels are left. -/
inductive WellMade (rounded : Prop) : ℕ → Form → Prop
  | leaf {n : ℕ} {form : Form} (h : form.isLeaf = true) : WellMade rounded n form
  | single {n : ℕ} (hrounded : rounded) : WellMade rounded n .single
  | optional {n : ℕ} {inner : Form} (hinner : inner.isOptional = false)
      (h : WellMade rounded n inner) : WellMade rounded n (.optional inner)
  | list {n : ℕ} {item : Form} (h : WellMade rounded n item) : WellMade rounded (n + 1) (.list item)
  | table {n : ℕ} {item : Form} (h : WellMade rounded n item) :
      WellMade rounded (n + 1) (.table item)
  | record {n : ℕ} {name : String} {fields : List Field} (hnames : (fieldNames fields).Nodup)
      (hrules : ∀ f ∈ fields, f.2.1.Sound rounded n f.2.2)
      (hfields : ∀ f ∈ fields, WellMade rounded n f.2.2) :
      WellMade rounded (n + 1) (.record name fields)
  | tagged {n : ℕ} {name tag : String} {alternatives : List (String × String × List Field)}
      (hnames : ∀ a ∈ alternatives, (tag :: fieldNames a.2.2).Nodup)
      (hrules : ∀ a ∈ alternatives, ∀ f ∈ a.2.2, f.2.1.Sound rounded n f.2.2)
      (hfields : ∀ a ∈ alternatives, ∀ f ∈ a.2.2, WellMade rounded n f.2.2) :
      WellMade rounded (n + 1) (.tagged name tag alternatives)

variable {rounded : Prop} {n : ℕ} {fields : List Field} {ds : List Datum}

attribute [simp] WellMade.leaf WellMade.list WellMade.table Fits.text Fits.flag

namespace WellMade

variable {name : String} {inner : Form}

@[simp] theorem optional_leaf (h : inner.isLeaf = true) : WellMade rounded n (.optional inner) :=
  .optional (by cases inner <;> first | rfl | cases h) (.leaf h)

/-- A record is well made if its fields are. -/
theorem ofFields (hnames : (fieldNames fields).Nodup)
    (h : ∀ f ∈ fields, f.2.1.Sound rounded n f.2.2 ∧ WellMade rounded n f.2.2) :
    WellMade rounded (n + 1) (.record name fields) :=
  .record hnames (fun f hf => (h f hf).1) fun f hf => (h f hf).2

/-- Alternatives are well made if their fields are. -/
theorem ofAlternatives {tag : String} {alternatives : List (String × String × List Field)}
    (hnames : ∀ a ∈ alternatives, (tag :: fieldNames a.2.2).Nodup)
    (h : ∀ a ∈ alternatives, ∀ f ∈ a.2.2,
      f.2.1.Sound rounded n f.2.2 ∧ WellMade rounded n f.2.2) :
    WellMade rounded (n + 1) (.tagged name tag alternatives) :=
  .tagged hnames (fun a ha f hf => (h a ha f hf).1) fun a ha f hf => (h a ha f hf).2

/-! The forms that stand in a well-made form are well made. -/

theorem of_single (h : WellMade rounded n .single) : rounded := by
  cases h with
  | leaf hleaf => cases hleaf
  | single hrounded => exact hrounded

theorem of_optional (h : WellMade rounded n (.optional inner)) :
    inner.isOptional = false ∧ WellMade rounded n inner := by
  cases h with
  | leaf hleaf => cases hleaf
  | optional hinner h => exact ⟨hinner, h⟩

theorem of_list (h : WellMade rounded n (.list inner)) :
    ∃ inside, n = inside + 1 ∧ WellMade rounded inside inner := by
  cases h with
  | leaf hleaf => cases hleaf
  | list h => exact ⟨_, rfl, h⟩

theorem of_table (h : WellMade rounded n (.table inner)) :
    ∃ inside, n = inside + 1 ∧ WellMade rounded inside inner := by
  cases h with
  | leaf hleaf => cases hleaf
  | table h => exact ⟨_, rfl, h⟩

theorem of_record (h : WellMade rounded n (.record name fields)) : ∃ inside, n = inside + 1 ∧
    (fieldNames fields).Nodup ∧ (∀ f ∈ fields, f.2.1.Sound rounded inside f.2.2) ∧
      ∀ f ∈ fields, WellMade rounded inside f.2.2 := by
  cases h with
  | leaf hleaf => cases hleaf
  | record hnames hrules hfields => exact ⟨_, rfl, hnames, hrules, hfields⟩

theorem of_tagged {tag : String} {alternatives : List (String × String × List Field)}
    (h : WellMade rounded n (.tagged name tag alternatives)) : ∃ inside, n = inside + 1 ∧
      ∀ a ∈ alternatives, (tag :: fieldNames a.2.2).Nodup ∧
        (∀ f ∈ a.2.2, f.2.1.Sound rounded inside f.2.2) ∧
          ∀ f ∈ a.2.2, WellMade rounded inside f.2.2 := by
  cases h with
  | leaf hleaf => cases hleaf
  | tagged hnames hrules hfields =>
      exact ⟨_, rfl, fun a ha => ⟨hnames a ha, hrules a ha, hfields a ha⟩⟩

end WellMade

@[simp] theorem fits_whole_iff {width : Width} {k : ℕ} :
    Fits rounded (.whole width) n (.whole k) ↔ k ≤ width.max :=
  ⟨fun h => by cases h; assumption, .whole k⟩

@[simp] theorem fits_list_nil {item : Form} : Fits rounded (.list item) (n + 2) (.list []) :=
  .list (Nat.succ_pos n) _ (List.forall_mem_nil _)

@[simp] theorem fits_table_nil {item : Form} : Fits rounded (.table item) (n + 2) (.table []) :=
  .table (Nat.succ_pos n) _ .nil (List.forall_mem_nil _)

@[simp] theorem fits_object_nil : Fits rounded .object (n + 2) (.value (.obj [])) :=
  .object _ (.obj _ .nil (List.forall_mem_nil _)) (.obj (Nat.succ_pos n) _ (List.forall_mem_nil _))

/-! ### The parts of readers and writers -/

/-- The fields of a record with the readers of their values. -/
def withReaders {A : Type} (read : Form → A) (fields : List Field) :
    List (String × FieldRule × Form × A) :=
  fields.map fun f => (f.1, f.2.1, f.2.2, read f.2.2)

theorem treeReaders_eq (fields : List Field) : treeReaders fields = withReaders ofTree fields := by
  induction fields with
  | nil => rfl
  | cons f fields ih => rw [treeReaders, withReaders, List.map_cons, ih, withReaders]

theorem treeAlternatives_eq (alternatives : List (String × String × List Field)) :
    treeAlternatives alternatives =
      alternatives.map fun a => (a.1, a.2.1, treeReaders a.2.2) := by
  induction alternatives with
  | nil => rfl
  | cons a alternatives ih => rw [treeAlternatives, List.map_cons, ih]

theorem lookup_treeAlternatives (alternatives : List (String × String × List Field)) (w : String) :
    (treeAlternatives alternatives).lookup w =
      (alternatives.lookup w).map fun a => (a.1, treeReaders a.2) := by
  rw [treeAlternatives_eq]
  exact lookup_map_values fun a : String × List Field => (a.1, treeReaders a.2)

theorem textReaders_eq (fields : List Field) : textReaders fields = withReaders ofText fields := by
  induction fields with
  | nil => rfl
  | cons f fields ih => rw [textReaders, withReaders, List.map_cons, ih, withReaders]

/-- The fields of a record with the writers of their data. -/
def withWriters {A : Type} (write : Form → Datum → A) (fields : List Field) :
    List (String × FieldRule × (Datum → A)) :=
  fields.map fun f => (f.1, f.2.1, write f.2.2)

theorem treeWriters_eq (fields : List Field) : treeWriters fields = withWriters toTree fields := by
  induction fields with
  | nil => rfl
  | cons f fields ih => rw [treeWriters, withWriters, List.map_cons, ih, withWriters]

theorem textWriters_eq (fields : List Field) : textWriters fields = withWriters chars fields := by
  induction fields with
  | nil => rfl
  | cons f fields ih => rw [textWriters, withWriters, List.map_cons, ih, withWriters]

theorem lookup_alternativeWriters (alternatives : List (String × String × List Field)) (w : String) :
    (alternativeWriters alternatives).lookup w =
      (alternatives.lookup w).map fun a => withWriters toTree a.2 := by
  rw [← lookup_map_values fun a : String × List Field => withWriters toTree a.2]
  congr 1
  induction alternatives with
  | nil => rfl
  | cons a alternatives ih => rw [alternativeWriters, List.map_cons, ih, treeWriters_eq]

theorem lookup_alternativeTextWriters (alternatives : List (String × String × List Field))
    (w : String) : (alternativeTextWriters alternatives).lookup w =
      (alternatives.lookup w).map fun a => withWriters chars a.2 := by
  rw [← lookup_map_values fun a : String × List Field => withWriters chars a.2]
  congr 1
  induction alternatives with
  | nil => rfl
  | cons a alternatives ih => rw [alternativeTextWriters, List.map_cons, ih, textWriters_eq]

section Readers

variable {A : Type} {read : Form → A} {f : Field}

theorem map_fst_withReaders (read : Form → A) (fields : List Field) :
    (withReaders read fields).map Prod.fst = fieldNames fields := by
  rw [withReaders, List.map_map]
  rfl

/-- The reader of a field is found under its name. -/
theorem lookup_withReaders (hnames : (fieldNames fields).Nodup) (hf : f ∈ fields) :
    (withReaders read fields).lookup f.1 = some (f.2.1, f.2.2, read f.2.2) := by
  rw [← map_fst_withReaders read] at hnames
  exact lookup_eq_some_of_nodup hnames (List.mem_map.2 ⟨f, hf, rfl⟩)

/-- What is found under a name is the reader of a field. -/
theorem of_lookup_withReaders {k : String} {rule : FieldRule} {form : Form} {r : A}
    (h : (withReaders read fields).lookup k = some (rule, form, r)) :
    (k, rule, form) ∈ fields ∧ r = read form := by
  obtain ⟨f, hf, heq⟩ := List.mem_map.1 (mem_of_lookup_eq_some h)
  cases heq
  exact ⟨hf, rfl⟩

end Readers

/-! ### Fields that were given -/

theorem map_eq_ok {A B E : Type} {e : Except E A} {f : A → B} {b : B} :
    e.map f = .ok b ↔ ∃ a, e = .ok a ∧ f a = b := by
  cases e <;> simp [Except.map]

/-- **The fields of a record from those that were given**: each is given, or its rule has a value
for it. -/
theorem gather_eq_ok_iff {given : List (String × Datum)} :
    gather given fields = .ok ds ↔ List.Forall₂ (fun f d => given.lookup f.1 = some d ∨
      given.lookup f.1 = none ∧ absentField f.1 f.2.1 f.2.2 = .ok d) fields ds := by
  induction fields generalizing ds with
  | nil =>
      constructor
      · intro h
        rw [← Except.ok.inj h]
        exact .nil
      · intro h
        cases h
        rfl
  | cons f fields ih =>
      obtain ⟨name, rule, form⟩ := f
      rw [gather]
      cases hgiven : given.lookup name with
      | some e =>
          constructor
          · intro h
            obtain ⟨rest, hrest, rfl⟩ := map_eq_ok.1 h
            exact .cons (.inl hgiven) (ih.1 hrest)
          · intro h
            cases h with
            | cons hd hds =>
                rcases hd with hd | ⟨hd, -⟩
                · rw [← Option.some.inj (hgiven.symm.trans hd)]
                  exact map_eq_ok.2 ⟨_, ih.2 hds, rfl⟩
                · rw [hgiven] at hd
                  cases hd
      | none =>
          constructor
          · intro h
            obtain ⟨d, hd, h⟩ := Json.bind_eq_ok.1 h
            obtain ⟨rest, hrest, h⟩ := Json.bind_eq_ok.1 h
            rw [← Except.ok.inj h]
            exact .cons (.inr ⟨hgiven, hd⟩) (ih.1 hrest)
          · intro h
            cases h with
            | cons hd hds =>
                rcases hd with hd | ⟨-, hd⟩
                · rw [hgiven] at hd
                  cases hd
                · exact Json.bind_eq_ok.2 ⟨_, hd, Json.bind_eq_ok.2 ⟨_, ih.2 hds, rfl⟩⟩

/-! ### Fields that are written -/

/-- The fields of a record that are written, with their data. -/
def written (fields : List Field) (ds : List Datum) : List (Field × Datum) :=
  (fields.zip ds).filter fun p => !(p.1.2.1.hideAbsent && p.2.isAbsent)

/-- A field as a member of an object. -/
def memberOf (p : Field × Datum) : String × Json := (p.1.1, p.1.2.2.toTree p.2)

/-- A field as a member of an object whose value is a text. -/
def textOf (p : Field × Datum) : String × List Char := (p.1.1, p.1.2.2.chars p.2)

theorem writtenMembers_eq {A : Type} (write : Form → Datum → A)
    (hlength : fields.length = ds.length) : writtenMembers (withWriters write fields) ds =
      (written fields ds).map fun p => (p.1.1, write p.1.2.2 p.2) := by
  induction fields generalizing ds with
  | nil => rfl
  | cons f fields ih =>
      obtain ⟨name, ⟨missing, hideAbsent⟩, form⟩ := f
      cases ds with
      | nil => cases hlength
      | cons d ds =>
          have ih := ih (Nat.succ.inj hlength)
          rw [withWriters, List.map_cons, ← withWriters, written, List.zip_cons_cons,
            List.filter_cons]
          cases hideAbsent with
          | false =>
              rw [writtenMembers, ih]
              · simp [written]
              · nofun
          | true =>
              cases d with
              | absent =>
                  rw [writtenMembers, ih]
                  rfl
              | _ =>
                  rw [writtenMembers, ih]
                  · simp [written, Datum.isAbsent]
                  · nofun

theorem mem_zip_of_mem_written {p : Field × Datum} (hp : p ∈ written fields ds) :
    p ∈ fields.zip ds := List.mem_of_mem_filter hp

theorem map_names_zip (hlength : fields.length = ds.length) :
    (fields.zip ds).map (fun p => p.1.1) = fieldNames fields := by
  have hfst := List.map_fst_zip hlength.le
  rw [fieldNames, ← congrArg (List.map Prod.fst) hfst, List.map_map]
  rfl

theorem nodup_names_written (hlength : fields.length = ds.length)
    (hnames : (fieldNames fields).Nodup) : ((written fields ds).map fun p => p.1.1).Nodup := by
  rw [← map_names_zip hlength] at hnames
  exact hnames.sublist (List.filter_sublist.map _)

/-- The fields that are written are enough to gather the record again. -/
theorem gather_written {given : List (String × Datum)} (hlength : fields.length = ds.length)
    (hnames : (fieldNames fields).Nodup) (hrules : ∀ f ∈ fields, f.2.1.Sound rounded n f.2.2)
    (hgiven : ∀ k d, given.lookup k = some d ↔ ∃ p ∈ written fields ds, p.1.1 = k ∧ p.2 = d) :
    gather given fields = .ok ds := by
  rw [gather_eq_ok_iff, List.forall₂_iff_zip]
  refine ⟨hlength, fun {f d} hmem => ?_⟩
  by_cases hhidden : (f.2.1.hideAbsent && d.isAbsent) = true
  · obtain ⟨hhide, habsent⟩ := Bool.and_eq_true_iff.1 hhidden
    refine .inr ⟨?_, ?_⟩
    · -- no other field has the name
      rw [Option.eq_none_iff_forall_ne_some]
      intro e he
      obtain ⟨p, hp, hname, -⟩ := (hgiven f.1 e).1 he
      rw [← map_names_zip hlength] at hnames
      have heq := List.inj_on_of_nodup_map hnames (mem_zip_of_mem_written hp) hmem hname
      rw [heq] at hp
      have := (List.mem_filter.1 hp).2
      simp [hhidden] at this
    · rw [(hrules f (List.of_mem_zip hmem).1).absentField_eq hhide]
      cases d with
      | absent => rfl
      | _ => cases habsent
  · have hwritten : (f, d) ∈ written fields ds :=
      List.mem_filter.2 ⟨hmem, by rw [Bool.eq_false_of_not_eq_true hhidden, Bool.not_false]⟩
    exact .inl ((hgiven f.1 d).2 ⟨_, hwritten, rfl, rfl⟩)

/-! ### The values of containers -/

theorem writtenEntries_eq {A : Type} (write : Datum → A) (entries : List (String × Datum)) :
    writtenEntries write entries = entries.map fun e => (e.1, write e.2) := by
  induction entries with
  | nil => rfl
  | cons e entries ih => rw [writtenEntries, List.map_cons, ih]

theorem toTree_optional {inner : Form} {d : Datum} (h : d.isAbsent = false) :
    (Form.optional inner).toTree d = inner.toTree d := by
  cases d with
  | absent => cases h
  | _ => rfl

theorem toTree_table (item : Form) (entries : List (String × Datum)) :
    (Form.table item).toTree (.table entries) =
      .obj (entries.map fun e => (e.1, item.toTree e.2)) := by
  rw [← writtenEntries_eq]
  rfl

theorem toTree_record {name : String} (hlength : fields.length = ds.length) :
    (Form.record name fields).toTree (.record ds) = .obj ((written fields ds).map memberOf) := by
  simp only [toTree, treeWriters_eq, writtenMembers_eq toTree hlength]
  rfl

theorem toTree_tagged {name tag w label : String} {alternatives : List (String × String × List Field)}
    (hw : alternatives.lookup w = some (label, fields)) (hlength : fields.length = ds.length) :
    (Form.tagged name tag alternatives).toTree (.tagged w ds) =
      .obj ((tag, .str w) :: (written fields ds).map memberOf) := by
  simp only [toTree, lookup_alternativeWriters, hw, Option.map_some,
    writtenMembers_eq toTree hlength]
  rfl

/-! ### The texts of containers -/

theorem chars_optional {inner : Form} {d : Datum} (h : d.isAbsent = false) :
    (Form.optional inner).chars d = inner.chars d := by
  cases d with
  | absent => cases h
  | _ => rfl

theorem chars_table (item : Form) (entries : List (String × Datum)) :
    (Form.table item).chars (.table entries) =
      Json.objectChars (entries.map fun e => (e.1, item.chars e.2)) := by
  rw [← writtenEntries_eq]
  rfl

theorem chars_record {name : String} (hlength : fields.length = ds.length) :
    (Form.record name fields).chars (.record ds) =
      Json.objectChars ((written fields ds).map textOf) := by
  simp only [chars, textWriters_eq, writtenMembers_eq chars hlength]
  rfl

theorem chars_tagged {name tag w label : String} {alternatives : List (String × String × List Field)}
    (hw : alternatives.lookup w = some (label, fields)) (hlength : fields.length = ds.length) :
    (Form.tagged name tag alternatives).chars (.tagged w ds) =
      Json.objectChars ((tag, Json.quote w) :: (written fields ds).map textOf) := by
  simp only [chars, lookup_alternativeTextWriters, hw, Option.map_some,
    writtenMembers_eq chars hlength]
  rfl

/-- The texts of fields are those of members when the texts of their data are. -/
theorem map_textOf (hfields : FitsAll False n fields ds)
    (h : ∀ f ∈ fields, ∀ d, Fits False f.2.2 n d → f.2.2.chars d = Json.chars (f.2.2.toTree d)) :
    (written fields ds).map textOf =
      ((written fields ds).map memberOf).map fun m => (m.1, Json.chars m.2) := by
  rw [List.map_map]
  refine List.map_congr_left fun p hp => ?_
  have hzip := mem_zip_of_mem_written hp
  rw [textOf, h _ (List.of_mem_zip hzip).1 _ (hfields.fits_of_mem_zip hzip)]
  rfl

/-- **The text of a datum without numbers of single precision** is the text of its value. -/
theorem chars_eq {form : Form} {d : Datum} (h : Fits False form n d) :
    form.chars d = Json.chars (form.toTree d) := by
  induction form using inductionOn generalizing n d with
  | text | flag | whole | real | span | moment | identifier | value | object | word => rfl
  | single =>
      cases h with
      | single hrounded => exact hrounded.elim
  | optional inner ih =>
      cases h with
      | absent => rfl
      | present d habsent hnull h => rw [toTree_optional habsent, chars_optional habsent, ih h]
  | list item ih =>
      cases h with
      | list hroom items h =>
          rw [chars, toTree, Json.chars_arr, List.map_map]
          exact congrArg Json.listChars (List.map_congr_left fun d hd => ih (h d hd))
  | table item ih =>
      cases h with
      | table hroom entries horder h =>
          rw [chars_table, toTree_table, Json.chars_obj, List.map_map]
          exact congrArg Json.objectChars
            (List.map_congr_left fun e he => congrArg (Prod.mk e.1) (ih (h e he)))
  | record name fields ih =>
      cases h with
      | record hroom ds h =>
          rw [chars_record h.length_eq, toTree_record h.length_eq, Json.chars_obj,
            map_textOf h fun f hf d hd => ih f hf hd]
  | tagged name tag alternatives ih =>
      cases h with
      | tagged hroom hw ds h =>
          have ha := mem_of_lookup_eq_some hw
          rw [chars_tagged hw h.length_eq, toTree_tagged hw h.length_eq, Json.chars_obj,
            map_textOf h fun f hf d hd => ih _ ha f hf hd]
          rfl

end Form

end AgentSwarm

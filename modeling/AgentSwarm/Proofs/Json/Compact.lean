/-
**Values have different compact texts.**

A value of which texts are made has finite numbers, and its objects have their members in order.  The
first character of its text tells what kind of value it is; a text in quotes ends at its quote, and
an array or object at its bracket.  Only numbers have no end of their own: they end where something
follows that is no part of a number, which is so for all that follows them inside a text.  So a text
can be cut off from whatever comes behind it, and values with one text are the same value.  An
integer is never written as another number is, since only the latter have a point or an exponent;
and the two zeros of floating point are told apart by their sign.

Main definitions:

* `AgentSwarm.JsonOf.WellFormed`, `AgentSwarm.JsonOf.Writable` — numbers are finite, and members in
  order or not;
* `AgentSwarm.JsonOf.kind` — the kind of a value, as the first character of its text tells it;
* `AgentSwarm.Json.Ends` — a number can end here.

Main results:

* `AgentSwarm.JsonOf.Writable.settle` — settled values are well-formed;
* `AgentSwarm.Json.leadKind_chars` — the first character of a text tells the kind of the value;
* `AgentSwarm.Json.joined_append_inj` — lists are told apart when their elements are;
* `AgentSwarm.Json.chars_append_inj`, `AgentSwarm.Json.compact_injective` — **values have different
  texts**.
-/

import AgentSwarm.Proofs.Decimal.Double
import AgentSwarm.Proofs.Json.Strings
import AgentSwarm.Proofs.Members

set_option relaxedAutoImplicit false
set_option autoImplicit false

namespace AgentSwarm

/-! ### Well-formed values -/

/-- The numbers of a value are finite, and the members of its objects are in order. -/
inductive JsonOf.WellFormed {R : Type} [Scalar R] : JsonOf R → Prop
  | null : WellFormed .null
  | bool (b : Bool) : WellFormed (.bool b)
  | int (n : Int) : WellFormed (.int n)
  | real (x : R) (hfinite : Scalar.isFinite x = true) : WellFormed (.real x)
  | str (s : String) : WellFormed (.str s)
  | arr (items : List (JsonOf R)) (hitems : ∀ v ∈ items, WellFormed v) : WellFormed (.arr items)
  | obj (members : List (String × JsonOf R)) (horder : Ascending members)
      (hmembers : ∀ m ∈ members, WellFormed m.2) : WellFormed (.obj members)

/-- The numbers of a value are finite. -/
inductive JsonOf.Writable {R : Type} [Scalar R] : JsonOf R → Prop
  | null : Writable .null
  | bool (b : Bool) : Writable (.bool b)
  | int (n : Int) : Writable (.int n)
  | real (x : R) (hfinite : Scalar.isFinite x = true) : Writable (.real x)
  | str (s : String) : Writable (.str s)
  | arr (items : List (JsonOf R)) (hitems : ∀ v ∈ items, Writable v) : Writable (.arr items)
  | obj (members : List (String × JsonOf R)) (hmembers : ∀ m ∈ members, Writable m.2) :
      Writable (.obj members)

section Settled

variable {A : Type} {members : List (String × A)}

theorem ascending_sortMembers (members : List (String × A)) : Ascending (sortMembers members) := by
  induction members using List.reverseRecOn with
  | nil => exact .nil
  | append_singleton members m ih =>
      rw [sortMembers, List.foldl_append]
      exact ih.insertMember

theorem mem_of_mem_sortMembers {m : String × A} (h : m ∈ sortMembers members) : m ∈ members := by
  induction members using List.reverseRecOn with
  | nil => exact h
  | append_singleton members n ih =>
      rw [sortMembers, List.foldl_append] at h
      rcases eq_or_mem_of_mem_insertMember h with rfl | h
      · simp
      · exact List.mem_append_left _ (ih h)

variable {R : Type}

theorem JsonOf.settleItems_eq (items : List (JsonOf R)) :
    settleItems items = items.map settle := by
  induction items with
  | nil => rfl
  | cons v rest ih => rw [settleItems, List.map_cons, ih]

theorem JsonOf.settleMembers_eq (members : List (String × JsonOf R)) :
    settleMembers members = members.map fun m => (m.1, m.2.settle) := by
  induction members with
  | nil => rfl
  | cons m rest ih => rw [settleMembers, List.map_cons, ih]

/-- **Settled values are well-formed** when their numbers are finite, in whatever order their members
were given. -/
theorem JsonOf.Writable.settle [Scalar R] {v : JsonOf R} (h : v.Writable) :
    v.settle.WellFormed := by
  induction h with
  | null => exact .null
  | bool b => exact .bool b
  | int n => exact .int n
  | real x hfinite => exact .real x hfinite
  | str s => exact .str s
  | arr items _ ih =>
      rw [JsonOf.settle, settleItems_eq]
      exact .arr _ (List.forall_mem_map.2 ih)
  | obj members _ ih =>
      rw [JsonOf.settle, settleMembers_eq]
      refine .obj _ (ascending_sortMembers _) fun m hm => ?_
      obtain ⟨n, hn, rfl⟩ := List.mem_map.1 (mem_of_mem_sortMembers hm)
      exact ih n hn

end Settled

/-- The kind of a value; integers and other numbers are of one kind. -/
def JsonOf.kind {R : Type} : JsonOf R → Char
  | .null => 'n'
  | .bool _ => 'b'
  | .int _ | .real _ => '0'
  | .str _ => '"'
  | .arr _ => '['
  | .obj _ => '{'

namespace Json

open Decimal

/-! ### Numbers -/

section Numbers

variable {cs cs' r r' : List Char}

/-- What stands here is no part of a number. -/
def Ends (r : List Char) : Prop := ∀ c ∈ r.head?, isNumeral c = false

theorem ends_cons {c : Char} (h : isNumeral c = false) : Ends (c :: r) := by
  intro d hd
  rwa [← Option.some.inj hd]

theorem ends_nil : Ends [] := fun _ h => nomatch h

/-- **Numbers are told apart from what follows them.** -/
theorem numeral_append_inj (hcs : ∀ c ∈ cs, isNumeral c = true)
    (hcs' : ∀ c ∈ cs', isNumeral c = true) (hr : Ends r) (hr' : Ends r')
    (h : cs ++ r = cs' ++ r') : cs = cs' ∧ r = r' := by
  have htake : ∀ {cs r : List Char}, (∀ c ∈ cs, isNumeral c = true) → Ends r →
      (cs ++ r).takeWhile isNumeral = cs := by
    intro cs r hcs hr
    have hnone : r.takeWhile isNumeral = [] := by
      cases r with
      | nil => rfl
      | cons c r => exact List.takeWhile_cons_of_neg (by simp [hr c rfl])
    rw [List.takeWhile_append_of_pos hcs, hnone, List.append_nil]
  have hsame := congrArg (List.takeWhile isNumeral) h
  rw [htake hcs hr, htake hcs' hr'] at hsame
  subst hsame
  exact ⟨rfl, List.append_cancel_left h⟩

theorem isNumeral_ofFloat (form : Notation) (x : Float) :
    ∀ c ∈ form.ofFloat x, isNumeral c = true := by
  unfold Notation.ofFloat
  dsimp only
  split
  · exact List.forall_mem_cons.2 ⟨rfl, isNumeral_chars _ _⟩
  · exact isNumeral_chars _ _

theorem intChars_ne_nil (n : ℤ) : intChars n ≠ [] := by
  cases n with
  | ofNat n => exact natChars_ne_nil
  | negSucc n => exact List.cons_ne_nil _ _

/-- Integers are not written as other numbers are. -/
theorem intChars_ne_ofFloat (n : ℤ) (form : Notation) (x : Float) :
    intChars n ≠ form.ofFloat x := by
  obtain ⟨c, hc, hmark⟩ : ∃ c ∈ form.ofFloat x, c = '.' ∨ c = 'e' := by
    obtain ⟨c, hc, hmark⟩ := exists_mark_chars form (Binary.ofFloat x).shortest
    refine ⟨c, ?_, hmark⟩
    unfold Notation.ofFloat
    dsimp only
    split
    · exact List.mem_cons_of_mem _ hc
    · exact hc
  have hdigit : ∀ {n : ℕ}, c ∉ natChars n := by
    intro n hmem
    have := isDigit_of_mem_natChars hmem
    rcases hmark with rfl | rfl <;> cases this
  intro h
  rw [← h] at hc
  cases n with
  | ofNat n => exact hdigit hc
  | negSucc n =>
      rcases List.mem_cons.1 hc with rfl | hc
      · rcases hmark with h | h <;> cases h
      · exact hdigit hc

end Numbers

/-! ### Lists -/

section Lists

variable {A : Type} {f : A → List Char} {as bs : List A} {close : Char} {r r' : List Char}

theorem joined_cons_cons (a b : A) (rest : List A) :
    joined f (a :: b :: rest) = f a ++ ',' :: joined f (b :: rest) := rfl

theorem joined_map {B : Type} (g : B → A) (l : List B) : joined f (l.map g) = joined (f ∘ g) l := by
  induction l with
  | nil => rfl
  | cons b rest ih => rw [List.map_cons, joined, joined, ih, List.isEmpty_map, Function.comp_apply]

/-- A list that is not empty starts with the text of its first element. -/
theorem exists_joined_cons (a : A) (rest : List A) :
    ∃ tail, joined f (a :: rest) = f a ++ tail := by
  cases rest with
  | nil => exact ⟨[], (List.append_nil _).symm⟩
  | cons b rest => exact ⟨_, joined_cons_cons a b rest⟩

/-- **Lists are told apart when their elements are.**  Elements are not empty and do not start with
what closes the list, so a list without elements is told apart, too. -/
theorem joined_append_inj (hclose : isNumeral close = false) (hcomma : close ≠ ',')
    (hstart : ∀ a, a ∈ as ∨ a ∈ bs → ∃ c cs, f a = c :: cs ∧ c ≠ close)
    (hf : ∀ a ∈ as, ∀ b ∈ bs, ∀ r r', Ends r → Ends r' → f a ++ r = f b ++ r' → a = b ∧ r = r')
    (h : joined f as ++ close :: r = joined f bs ++ close :: r') : as = bs ∧ r = r' := by
  have hempty : ∀ {a : A} {rest : List A} {s s' : List Char}, a ∈ as ∨ a ∈ bs →
      joined f (a :: rest) ++ s ≠ close :: s' := by
    intro a rest s s' ha heq
    obtain ⟨c, cs, hc, hne⟩ := hstart a ha
    obtain ⟨tail, htail⟩ := exists_joined_cons (f := f) a rest
    rw [htail, hc] at heq
    exact hne (List.cons.inj heq).1
  have hends : ∀ s, Ends (close :: s) := fun s => ends_cons hclose
  have hmore : ∀ s, Ends (',' :: s) := fun s => ends_cons rfl
  induction as generalizing bs with
  | nil =>
      cases bs with
      | nil => exact ⟨rfl, (List.cons.inj h).2⟩
      | cons b bs => exact absurd h.symm (hempty (.inr List.mem_cons_self))
  | cons a as ih =>
      cases bs with
      | nil => exact absurd h (hempty (.inl List.mem_cons_self))
      | cons b bs =>
          have hfirst := hf a List.mem_cons_self b List.mem_cons_self
          cases as with
          | nil =>
              cases bs with
              | nil =>
                  obtain ⟨rfl, hrest⟩ := hfirst _ _ (hends r) (hends r') h
                  exact ⟨rfl, (List.cons.inj hrest).2⟩
              | cons b' bs =>
                  rw [joined_cons_cons, List.append_assoc] at h
                  obtain ⟨-, hrest⟩ := hfirst _ _ (hends r) (hmore _) h
                  exact absurd (List.cons.inj hrest).1 hcomma
          | cons a' as =>
              cases bs with
              | nil =>
                  rw [joined_cons_cons, List.append_assoc] at h
                  obtain ⟨-, hrest⟩ := hfirst _ _ (hmore _) (hends r') h
                  exact absurd (List.cons.inj hrest).1.symm hcomma
              | cons b' bs =>
                  rw [joined_cons_cons, joined_cons_cons, List.append_assoc,
                    List.append_assoc] at h
                  obtain ⟨rfl, hrest⟩ := hfirst _ _ (hmore _) (hmore _) h
                  obtain ⟨heq, hr⟩ := ih
                    (fun c hc => hstart c (hc.imp (List.mem_cons_of_mem _) (List.mem_cons_of_mem _)))
                    (fun c hc d hd => hf c (List.mem_cons_of_mem _ hc) d (List.mem_cons_of_mem _ hd))
                    (List.cons.inj hrest).2
                    (fun hc => hempty (hc.imp (List.mem_cons_of_mem _) (List.mem_cons_of_mem _)))
                  rw [heq]
                  exact ⟨rfl, hr⟩

end Lists

/-! ### Values -/

section Texts

variable {R : Type} [Scalar R]

theorem itemsChars_eq (items : List (JsonOf R)) : itemsChars items = joined chars items := by
  induction items with
  | nil => rfl
  | cons v rest ih => rw [itemsChars, joined, ih]

/-- The text of a member. -/
def memberChars (m : String × JsonOf R) : List Char := memberText (m.1, chars m.2)

theorem membersChars_eq (members : List (String × JsonOf R)) :
    membersChars members = joined memberChars members := by
  induction members with
  | nil => rfl
  | cons m rest ih =>
      obtain ⟨k, v⟩ := m
      rw [membersChars, joined, ih, memberChars, memberText]
      split
      · rfl
      · simp

/-- The text of a list has the texts of its elements in it. -/
theorem chars_arr (items : List (JsonOf R)) : chars (.arr items) = listChars (items.map chars) := by
  rw [chars, listChars, itemsChars_eq, joined_map]
  rfl

/-- The text of an object has the texts of its members in it. -/
theorem chars_obj (members : List (String × JsonOf R)) :
    chars (.obj members) = objectChars (members.map fun m => (m.1, chars m.2)) := by
  rw [chars, objectChars, membersChars_eq, joined_map]
  rfl

end Texts

variable {v w : Json} {r r' : List Char}

/-- The kind of a value whose text starts with a character. -/
def leadKind (c : Char) : Char :=
  if c = 't' ∨ c = 'f' then 'b' else if isNumeral c then '0' else c

theorem leadKind_of_isNumeral {c : Char} (h : isNumeral c = true) : leadKind c = '0' := by
  have hne : ¬ (c = 't' ∨ c = 'f') := by
    rintro (rfl | rfl) <;> revert h <;> decide
  rw [leadKind, if_neg hne, if_pos h]

theorem chars_real {x : Float} (h : Scalar.isFinite x = true) :
    chars (.real x : Json) = Notation.json.ofFloat x := if_pos h

/-- A number is written in the characters of numbers. -/
theorem isNumeral_of_kind (h : v.WellFormed) (hkind : v.kind = '0') :
    ∀ c ∈ chars v, isNumeral c = true := by
  cases h with
  | int n => exact fun c hc => isNumeral_of_mem_intChars hc
  | real x hfinite => exact chars_real hfinite ▸ isNumeral_ofFloat _ x
  | null | bool | str | arr | obj => cases hkind

theorem chars_ne_nil (h : v.WellFormed) : chars v ≠ [] := by
  cases h with
  | int n => exact intChars_ne_nil n
  | real x hfinite =>
      obtain ⟨c, hc, -⟩ := exists_mark_chars .json (Binary.ofFloat x).shortest
      rw [chars_real hfinite]
      unfold Notation.ofFloat
      dsimp only
      split
      · exact List.cons_ne_nil _ _
      · exact List.ne_nil_of_mem hc
  | bool b => cases b <;> exact List.cons_ne_nil _ _
  | null | str | arr | obj => exact List.cons_ne_nil _ _

/-- **The first character of a text tells the kind of the value.** -/
theorem leadKind_chars (h : v.WellFormed) : ∃ c cs, chars v = c :: cs ∧ leadKind c = v.kind := by
  obtain ⟨c, cs, hcs⟩ := List.exists_cons_of_ne_nil (chars_ne_nil h)
  refine ⟨c, cs, hcs, ?_⟩
  by_cases hkind : v.kind = '0'
  · rw [hkind]
    exact leadKind_of_isNumeral (isNumeral_of_kind h hkind c (by simp [hcs]))
  · cases h with
    | bool b =>
        cases b <;> obtain ⟨rfl, -⟩ := List.cons.inj hcs <;> rfl
    | null | str | arr | obj =>
        obtain ⟨rfl, -⟩ := List.cons.inj hcs
        rfl
    | int | real => exact absurd rfl hkind

/-- Values with one text are of one kind. -/
theorem kind_eq (hv : v.WellFormed) (hw : w.WellFormed) (h : chars v ++ r = chars w ++ r') :
    v.kind = w.kind := by
  obtain ⟨c, cs, hc, hkind⟩ := leadKind_chars hv
  obtain ⟨d, ds, hd, hkind'⟩ := leadKind_chars hw
  rw [hc, hd] at h
  rw [← hkind, ← hkind', (List.cons.inj h).1]

/-- No value starts with what closes a list. -/
theorem exists_chars_cons (h : v.WellFormed) : ∃ c cs, chars v = c :: cs ∧ c ≠ ']' := by
  obtain ⟨c, cs, hc, hkind⟩ := leadKind_chars h
  refine ⟨c, cs, hc, ?_⟩
  rintro rfl
  have hclose : leadKind ']' = ']' := by decide
  rw [hclose] at hkind
  cases v <;> cases hkind

/-- **Numbers have different texts.** -/
theorem number_append_inj (hv : v.WellFormed) (hw : w.WellFormed) (hkind : v.kind = '0')
    (hkind' : w.kind = '0') (hr : Ends r) (hr' : Ends r') (h : chars v ++ r = chars w ++ r') :
    v = w ∧ r = r' := by
  obtain ⟨htext, hrest⟩ := numeral_append_inj (isNumeral_of_kind hv hkind)
    (isNumeral_of_kind hw hkind') hr hr' h
  refine ⟨?_, hrest⟩
  cases hv with
  | int m =>
      cases hw with
      | int n => rw [intChars_injective htext]
      | real y hy => exact absurd (chars_real hy ▸ htext) (intChars_ne_ofFloat _ _ _)
      | null | bool | str | arr | obj => cases hkind'
  | real x hx =>
      rw [chars_real hx] at htext
      cases hw with
      | int n => exact absurd htext.symm (intChars_ne_ofFloat _ _ _)
      | real y hy =>
          rw [chars_real hy] at htext
          rw [eq_of_ofFloat_eq htext]
      | null | bool | str | arr | obj => cases hkind'
  | null | bool | str | arr | obj => cases hkind

/-- **Values have different texts**, whatever follows them that is no part of a number. -/
theorem chars_append_inj (hv : v.WellFormed) (hw : w.WellFormed) (hr : Ends r) (hr' : Ends r')
    (h : chars v ++ r = chars w ++ r') : v = w ∧ r = r' := by
  have hkind := kind_eq hv hw h
  -- over the nesting of the first value; the second one is of the same kind
  induction hv generalizing w r r' with
  | null =>
      cases hw with
      | null => exact ⟨rfl, List.append_cancel_left h⟩
      | bool | int | real | str | arr | obj => cases hkind
  | bool b =>
      cases hw with
      | bool b' =>
          cases b <;> cases b'
          · exact ⟨rfl, List.append_cancel_left h⟩
          · cases (List.cons.inj h).1
          · cases (List.cons.inj h).1
          · exact ⟨rfl, List.append_cancel_left h⟩
      | null | int | real | str | arr | obj => cases hkind
  | int n => exact number_append_inj (.int n) hw rfl hkind.symm hr hr' h
  | real x hx => exact number_append_inj (.real x hx) hw rfl hkind.symm hr hr' h
  | str s =>
      cases hw with
      | str s' =>
          obtain ⟨rfl, hrest⟩ := quote_append_inj h
          exact ⟨rfl, hrest⟩
      | null | bool | int | real | arr | obj => cases hkind
  | arr items hitems ih =>
      cases hw with
      | arr items' hitems' =>
          simp only [chars, itemsChars_eq, List.cons_append, List.append_assoc, List.nil_append,
            List.cons.injEq, true_and] at h
          obtain ⟨rfl, hrest⟩ := joined_append_inj rfl (by decide)
            (fun u hu => exists_chars_cons (hu.elim (hitems u) (hitems' u)))
            (fun u hu u' hu' s s' hs hs' heq =>
              ih u hu (hitems' u' hu') hs hs' heq (kind_eq (hitems u hu) (hitems' u' hu') heq)) h
          exact ⟨rfl, hrest⟩
      | null | bool | int | real | str | obj => cases hkind
  | obj members horder hmembers ih =>
      cases hw with
      | obj members' horder' hmembers' =>
          simp only [chars, membersChars_eq, List.cons_append, List.append_assoc, List.nil_append,
            List.cons.injEq, true_and] at h
          have hmember : ∀ m ∈ members, ∀ m' ∈ members', ∀ s s', Ends s → Ends s' →
              memberChars m ++ s = memberChars m' ++ s' → m = m' ∧ s = s' := by
            rintro ⟨k, u⟩ hm ⟨k', u'⟩ hm' s s' hs hs' heq
            simp only [memberChars, memberText, List.append_assoc] at heq
            obtain ⟨rfl, htail⟩ := quote_append_inj heq
            have htext := (List.cons.inj htail).2
            obtain ⟨rfl, hrest⟩ := ih _ hm (hmembers' _ hm') hs hs' htext
              (kind_eq (hmembers _ hm) (hmembers' _ hm') htext)
            exact ⟨rfl, hrest⟩
          obtain ⟨rfl, hrest⟩ := joined_append_inj rfl (by decide)
            (fun m _ => ⟨'"', _, rfl, by decide⟩) hmember h
          exact ⟨rfl, hrest⟩
      | null | bool | int | real | str | arr => cases hkind

/-- **Values have different compact texts.** -/
theorem compact_injective (hv : v.WellFormed) (hw : w.WellFormed) (h : compact v = compact w) :
    v = w := by
  have htext : chars v ++ [] = chars w ++ [] := by
    rw [List.append_nil, List.append_nil]
    exact String.ofList_injective h
  exact (chars_append_inj hv hw ends_nil ends_nil htext).1

end Json

end AgentSwarm

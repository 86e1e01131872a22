/-
**What readers leave.**

A reader takes something off the front of a text, so what it leaves is the end of that text.  A
reader of members begins behind the opening brace and stops right behind the closing one.  So a text
that is an object stands in braces, with nothing but blanks around them.

Main definitions:

* `AgentSwarm.Json.Rests` — what readers of values leave.

Main results:

* `AgentSwarm.Json.readString_rest`, `AgentSwarm.Json.readNumber_rest` — what is left behind strings
  and numbers;
* `AgentSwarm.Json.rests` — **what is left behind a value**, and that members end with a brace;
* `AgentSwarm.Json.exists_braces_of_parse` — **a text that is an object stands in braces**.
-/

import AgentSwarm.Json.Reader
import Mathlib.Data.List.TakeWhile

set_option relaxedAutoImplicit false
set_option autoImplicit false

namespace AgentSwarm.Json

section

variable {A B E : Type}

/-- Two steps that succeed one after the other. -/
theorem bind_eq_ok {x : Except E A} {f : A → Except E B} {b : B} :
    (x >>= f) = .ok b ↔ ∃ a, x = .ok a ∧ f a = .ok b := by
  cases x with
  | error e => simp [bind, Except.bind]
  | ok a => simp [bind, Except.bind]

theorem rest_eq {a b : A} {more rest : List Char}
    (h : (.ok (a, more) : Except E (A × List Char)) = .ok (b, rest)) : more = rest :=
  (Prod.mk.inj (Except.ok.inj h)).2

theorem suffix_of_ok {a b : A} {more rest : List Char}
    (h : (.ok (a, more) : Except E (A × List Char)) = .ok (b, rest)) : rest <:+ more :=
  rest_eq h ▸ List.suffix_rfl

end

variable {cs rest : List Char}

/-! ### Words and strings -/

/-- Behind the blanks a text goes on to its end. -/
theorem suffix_of_skipSpace {c : Char} {tail : List Char} (h : skipSpace cs = c :: tail) :
    c :: tail <:+ cs :=
  h ▸ List.dropWhile_suffix _

theorem readWord_rest {word : List Char} (h : readWord word cs = .ok rest) : rest <:+ cs := by
  induction word generalizing cs with
  | nil =>
      obtain rfl := Except.ok.inj h
      exact List.suffix_rfl
  | cons w word ih =>
      cases cs with
      | nil => cases h
      | cons c cs =>
          rw [readWord] at h
          split at h
          next => exact (ih h).trans (List.suffix_cons ..)
          next => cases h

theorem readHex_rest {n : Nat} (h : readHex cs = .ok (n, rest)) : rest <:+ cs := by
  simp only [readHex] at h
  split at h
  next a b c d more =>
      split at h
      next => exact (suffix_of_ok h).trans ⟨[a, b, c, d], rfl⟩
      next => split at h <;> cases h
  next => split at h <;> cases h

theorem readUnit_rest {n : Nat} {c : Char} (h : readUnit n cs = .ok (c, rest)) : rest <:+ cs := by
  rw [readUnit.eq_def] at h
  split at h
  next => cases h
  split at h
  next => exact suffix_of_ok h
  split at h
  -- only a second escape may follow the first of a pair
  case h_3 more =>
      obtain ⟨⟨m, last⟩, hhex, h⟩ := bind_eq_ok.1 h
      dsimp only at h
      split at h
      next => exact (suffix_of_ok h).trans ((readHex_rest hhex).trans ⟨['\\', 'u'], rfl⟩)
      next => cases h
  all_goals cases h

theorem readEscape_rest {c : Char} (h : readEscape cs = .ok (c, rest)) : rest <:+ cs := by
  cases cs with
  | nil => cases h
  | cons d cs =>
      refine .trans ?_ (List.suffix_cons d cs)
      simp only [readEscape] at h
      split at h
      case h_9 =>
          obtain ⟨⟨n, more⟩, hhex, hunit⟩ := bind_eq_ok.1 h
          exact (readUnit_rest hunit).trans (readHex_rest hhex)
      case h_10 => cases h
      all_goals exact suffix_of_ok h

/-- What is left behind the closing quote. -/
theorem readStringFrom_rest {fuel : Nat} {got s : List Char}
    (h : readStringFrom fuel got cs = .ok (s, rest)) : rest <:+ cs := by
  induction fuel generalizing got cs with
  | zero => cases h
  | succ fuel ih =>
      cases cs with
      | nil => cases h
      | cons c cs =>
          refine .trans ?_ (List.suffix_cons c cs)
          rw [readStringFrom] at h
          split at h
          next => exact suffix_of_ok h
          split at h
          next =>
              obtain ⟨⟨d, more⟩, hescape, hmore⟩ := bind_eq_ok.1 h
              exact (ih hmore).trans (readEscape_rest hescape)
          split at h
          next => cases h
          next => exact ih h

theorem readString_rest {s : String} (h : readString cs = .ok (s, rest)) : rest <:+ cs := by
  obtain ⟨⟨got, more⟩, hread, h⟩ := bind_eq_ok.1 h
  exact (suffix_of_ok h).trans (readStringFrom_rest hread)

/-! ### Numbers -/

theorem takeDigits_rest (cs : List Char) : (takeDigits cs).2 <:+ cs := List.dropWhile_suffix _

theorem readWhole_rest {ds : List Char} (h : readWhole cs = .ok (ds, rest)) : rest <:+ cs := by
  rw [readWhole.eq_def] at h
  split at h
  next => cases h
  next more =>
      refine .trans ?_ (List.suffix_cons '0' more)
      split at h
      next =>
          split at h
          next => cases h
          next => exact suffix_of_ok h
      next => exact suffix_of_ok h
  next c more _ =>
      split at h
      next => exact (suffix_of_ok h).trans (takeDigits_rest (c :: more))
      next => cases h

theorem readFraction_rest {f : Option (List Char)} (h : readFraction cs = .ok (f, rest)) :
    rest <:+ cs := by
  rw [readFraction.eq_def] at h
  split at h
  next more =>
      dsimp only at h
      split at h
      next => cases h
      next => exact (suffix_of_ok h).trans ((takeDigits_rest more).trans (List.suffix_cons '.' more))
  next => exact suffix_of_ok h

/-- The digits of an exponent stand behind its sign. -/
theorem digits_rest {negative : Bool} {digits : List Char} {e : Option (Bool × List Char)}
    {fault : Fault} (h : (if (takeDigits digits).1.isEmpty then .error fault
      else .ok (some (negative, (takeDigits digits).1), (takeDigits digits).2)) = Except.ok (e, rest)) :
    rest <:+ digits := by
  split at h
  next => cases h
  next => exact (suffix_of_ok h).trans (takeDigits_rest digits)

theorem readExponent_rest {e : Option (Bool × List Char)} (h : readExponent cs = .ok (e, rest)) :
    rest <:+ cs := by
  cases cs with
  | nil => exact suffix_of_ok h
  | cons c cs =>
      rw [readExponent.eq_def] at h
      dsimp only at h
      split at h
      next =>
          refine .trans ?_ (List.suffix_cons c cs)
          split at h
          next r => exact (digits_rest h).trans (List.suffix_cons '+' r)
          next r => exact (digits_rest h).trans (List.suffix_cons '-' r)
          next => exact digits_rest h
      next => exact suffix_of_ok h

theorem readLiteral_rest {negative : Bool} {l : Literal}
    (h : readLiteral negative cs = .ok (l, rest)) : rest <:+ cs := by
  obtain ⟨⟨whole, r₁⟩, hwhole, h⟩ := bind_eq_ok.1 h
  obtain ⟨⟨fraction, r₂⟩, hfraction, h⟩ := bind_eq_ok.1 h
  obtain ⟨⟨exponent, r₃⟩, hexponent, h⟩ := bind_eq_ok.1 h
  have hliteral := (readExponent_rest hexponent).trans
    ((readFraction_rest hfraction).trans (readWhole_rest hwhole))
  exact (suffix_of_ok h).trans hliteral

theorem readNumber_rest {negative : Bool} {v : Json} (h : readNumber negative cs = .ok (v, rest)) :
    rest <:+ cs := by
  obtain ⟨⟨literal, more⟩, hread, h⟩ := bind_eq_ok.1 h
  dsimp only at h
  split at h
  next => exact (suffix_of_ok h).trans (readLiteral_rest hread)
  next => cases h

/-- A number is no object. -/
theorem Literal.value_ne_obj (l : Literal) (members : List (String × Json)) :
    l.value ≠ .ok (.obj members) := by
  intro h
  rw [Literal.value] at h
  split at h
  split at h
  next =>
      split at h
      next => cases h
      next => split at h <;> cases h
  next => cases hdouble : l.double <;> simp [hdouble, Except.map] at h

theorem readNumber_ne_obj {negative : Bool} {members : List (String × Json)} :
    readNumber negative cs ≠ .ok (.obj members, rest) := by
  intro h
  obtain ⟨⟨literal, more⟩, -, h⟩ := bind_eq_ok.1 h
  dsimp only at h
  split at h
  next v hvalue =>
      obtain rfl : v = .obj members := (Prod.mk.inj (Except.ok.inj h)).1
      exact literal.value_ne_obj members hvalue
  next => cases h

/-! ### Steps inside containers -/

theorem nextItem_rest {first : Bool} {more : List Char} (h : nextItem first cs = .ok (some more)) :
    more <:+ cs := by
  rw [nextItem] at h
  split at h
  next => cases h
  next c tail hskip =>
      refine .trans ?_ (suffix_of_skipSpace hskip)
      split at h
      next => cases h
      split at h
      next =>
          obtain rfl := Option.some.inj (Except.ok.inj h)
          exact List.suffix_rfl
      split at h
      next =>
          split at h
          next => cases h
          next d last hlast =>
              split at h
              next => cases h
              next =>
                  obtain rfl := Option.some.inj (Except.ok.inj h)
                  exact (suffix_of_skipSpace hlast).trans (List.suffix_cons c tail)
      next => cases h

theorem nextKey_rest {first : Bool} {more : List Char} (h : nextKey first cs = .ok (some more)) :
    more <:+ cs := by
  rw [nextKey] at h
  split at h
  next => cases h
  next c tail hskip =>
      refine .trans ?_ ((List.suffix_cons c tail).trans (suffix_of_skipSpace hskip))
      split at h
      next => cases h
      split at h
      next =>
          split at h
          next =>
              obtain rfl := Option.some.inj (Except.ok.inj h)
              exact List.suffix_rfl
          next => cases h
      split at h
      next =>
          split at h
          next => cases h
          next d last hlast =>
              split at h
              next =>
                  obtain rfl := Option.some.inj (Except.ok.inj h)
                  exact (List.suffix_cons d last).trans (suffix_of_skipSpace hlast)
              next => split at h <;> cases h
      next => cases h

theorem readColon_rest (h : readColon cs = .ok rest) : rest <:+ cs := by
  rw [readColon] at h
  split at h
  next => cases h
  next c tail hskip =>
      split at h
      next =>
          obtain rfl := Except.ok.inj h
          exact (List.suffix_cons c tail).trans (suffix_of_skipSpace hskip)
      next => cases h

theorem endList_rest (h : endList cs = .ok rest) : rest <:+ cs := by
  rw [endList] at h
  split at h
  next => cases h
  next c tail hskip =>
      split at h
      next =>
          obtain rfl := Except.ok.inj h
          exact (List.suffix_cons c tail).trans (suffix_of_skipSpace hskip)
      split at h
      next => split at h <;> cases h
      next => cases h

/-- The end of an object stands right behind its closing brace. -/
theorem endObject_rest (h : endObject cs = .ok rest) : '}' :: rest <:+ cs := by
  rw [endObject] at h
  split at h
  next => cases h
  next c tail hskip =>
      split at h
      next hc =>
          obtain rfl := Except.ok.inj h
          exact hc ▸ suffix_of_skipSpace hskip
      next => split at h <;> cases h

/-! ### Values -/

/-- What readers with some fuel leave: the end of their text, which stands behind a brace when they
read members.  A value that is an object has stood in braces. -/
structure Rests (fuel : Nat) : Prop where
  value {depth : Nat} {cs rest : List Char} {v : Json} : readValueAt fuel depth cs = .ok (v, rest) →
    rest <:+ cs ∧ ∀ members, v = .obj members →
      ∃ behind, skipSpace cs = '{' :: behind ∧ '}' :: rest <:+ behind
  items {depth : Nat} {first : Bool} {cs rest : List Char} {vs : List Json} :
    readItemsAt fuel depth first cs = .ok (vs, rest) → rest <:+ cs
  members {depth : Nat} {first : Bool} {cs rest : List Char} {ms : List (String × Json)} :
    readMembersAt fuel depth first cs = .ok (ms, rest) → '}' :: rest <:+ cs

variable {fuel depth : Nat} {first : Bool}

theorem Rests.value_succ (h : Rests fuel) {v : Json}
    (hread : readValueAt (fuel + 1) depth cs = .ok (v, rest)) :
    rest <:+ cs ∧ ∀ members, v = .obj members →
      ∃ behind, skipSpace cs = '{' :: behind ∧ '}' :: rest <:+ behind := by
  rw [readValueAt] at hread
  split at hread
  next => cases hread
  next c tail hskip =>
      have hcs := suffix_of_skipSpace hskip
      have htail : tail <:+ cs := (List.suffix_cons c tail).trans hcs
      -- the three words
      iterate 3
        split at hread
        next =>
            obtain ⟨r, hword, hread⟩ := bind_eq_ok.1 hread
            obtain ⟨rfl, rfl⟩ := Prod.mk.inj (Except.ok.inj hread)
            exact ⟨(readWord_rest hword).trans htail, fun _ he => nomatch he⟩
      -- numbers, with and without a sign
      split at hread
      next =>
          exact ⟨(readNumber_rest hread).trans htail,
            fun _ he => absurd (he ▸ hread) readNumber_ne_obj⟩
      split at hread
      next =>
          exact ⟨(readNumber_rest hread).trans hcs,
            fun _ he => absurd (he ▸ hread) readNumber_ne_obj⟩
      split at hread
      next =>
          obtain ⟨⟨s, r⟩, hstring, hread⟩ := bind_eq_ok.1 hread
          obtain ⟨rfl, rfl⟩ := Prod.mk.inj (Except.ok.inj hread)
          exact ⟨(readString_rest hstring).trans htail, fun _ he => nomatch he⟩
      split at hread
      next =>
          split at hread
          next => cases hread
          next =>
              obtain ⟨⟨vs, r⟩, hitems, hread⟩ := bind_eq_ok.1 hread
              obtain ⟨rfl, rfl⟩ := Prod.mk.inj (Except.ok.inj hread)
              exact ⟨(h.items hitems).trans htail, fun _ he => nomatch he⟩
      split at hread
      next hc =>
          split at hread
          next => cases hread
          next =>
              obtain ⟨⟨ms, r⟩, hmembers, hread⟩ := bind_eq_ok.1 hread
              obtain ⟨rfl, rfl⟩ := Prod.mk.inj (Except.ok.inj hread)
              have hclose := h.members hmembers
              exact ⟨(List.suffix_cons '}' _).trans (hclose.trans htail),
                fun _ _ => ⟨tail, by rw [hskip, hc], hclose⟩⟩
      next => cases hread

theorem Rests.items_succ (h : Rests fuel) {vs : List Json}
    (hread : readItemsAt (fuel + 1) depth first cs = .ok (vs, rest)) : rest <:+ cs := by
  rw [readItemsAt] at hread
  obtain ⟨next, hnext, hread⟩ := bind_eq_ok.1 hread
  cases next with
  | none =>
      obtain ⟨r, hend, hread⟩ := bind_eq_ok.1 hread
      obtain rfl := rest_eq hread
      exact endList_rest hend
  | some more =>
      obtain ⟨⟨v, r₁⟩, hv, hread⟩ := bind_eq_ok.1 hread
      obtain ⟨⟨vs, r₂⟩, hvs, hread⟩ := bind_eq_ok.1 hread
      obtain rfl := rest_eq hread
      exact (h.items hvs).trans ((h.value hv).1.trans (nextItem_rest hnext))

theorem Rests.members_succ (h : Rests fuel) {ms : List (String × Json)}
    (hread : readMembersAt (fuel + 1) depth first cs = .ok (ms, rest)) : '}' :: rest <:+ cs := by
  rw [readMembersAt] at hread
  obtain ⟨next, hnext, hread⟩ := bind_eq_ok.1 hread
  cases next with
  | none =>
      obtain ⟨r, hend, hread⟩ := bind_eq_ok.1 hread
      obtain rfl := rest_eq hread
      exact endObject_rest hend
  | some more =>
      obtain ⟨⟨k, r₁⟩, hk, hread⟩ := bind_eq_ok.1 hread
      obtain ⟨r₂, hcolon, hread⟩ := bind_eq_ok.1 hread
      obtain ⟨⟨v, r₃⟩, hv, hread⟩ := bind_eq_ok.1 hread
      obtain ⟨⟨others, r₄⟩, hothers, hread⟩ := bind_eq_ok.1 hread
      obtain rfl := rest_eq hread
      have hbehind : r₃ <:+ cs := (h.value hv).1.trans
        ((readColon_rest hcolon).trans ((readString_rest hk).trans (nextKey_rest hnext)))
      exact (h.members hothers).trans hbehind

/-- **What is left behind a value** is the end of the text. -/
theorem rests (fuel : Nat) : Rests fuel := by
  induction fuel with
  | zero =>
      refine ⟨fun h => ?_, fun h => ?_, fun h => ?_⟩
      · rw [readValueAt] at h
        cases h
      · rw [readItemsAt] at h
        cases h
      · rw [readMembersAt] at h
        cases h
  | succ fuel ih => exact ⟨ih.value_succ, ih.items_succ, ih.members_succ⟩

/-- **A text that is an object stands in braces**, with nothing but blanks around them. -/
theorem exists_braces_of_parse {members : List (String × Json)}
    (h : parse (String.ofList cs) = .ok (.obj members)) :
    ∃ u inner v, cs = u ++ '{' :: (inner ++ ['}']) ++ v ∧
      (∀ c ∈ u, isSpace c = true) ∧ ∀ c ∈ v, isSpace c = true := by
  rw [parse, String.toList_ofList] at h
  obtain ⟨⟨v, rest⟩, hread, h⟩ := bind_eq_ok.1 h
  obtain ⟨⟨⟩, hend, h⟩ := bind_eq_ok.1 h
  have hobj : ∃ ms, v = .obj ms := by
    cases v with
    | obj ms => exact ⟨ms, rfl⟩
    | null | bool | int | real | str | arr => cases Except.ok.inj h
  obtain ⟨ms, hobj⟩ := hobj
  obtain ⟨behind, hopen, inner, hclose⟩ := ((rests _).value hread).2 ms hobj
  refine ⟨cs.takeWhile isSpace, inner, rest, ?_, fun c hc => List.mem_takeWhile_imp hc, ?_⟩
  · have hcs := List.takeWhile_append_dropWhile (p := isSpace) (l := cs)
    rw [← skipSpace, hopen, ← hclose] at hcs
    simpa using hcs.symm
  · rw [endText] at hend
    split at hend
    next hnil => exact List.dropWhile_eq_nil_iff.1 hnil
    next => cases hend

end AgentSwarm.Json

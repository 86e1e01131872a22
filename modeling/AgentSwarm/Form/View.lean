/-
**Looking into data.**

Main definitions:

* `AgentSwarm.Datum.text?` and its companions — the value of a datum of one kind;
* `AgentSwarm.Datum.optional?`, `AgentSwarm.Datum.list?`, `AgentSwarm.Datum.table?` — the values of
  data inside;
* `AgentSwarm.optionalDatum` — an optional value as it is written.

Main results:

* `AgentSwarm.Datum.optional?_optionalDatum`, `AgentSwarm.Datum.list?_map` — reading what was
  written.
-/

import AgentSwarm.Form.Basic

set_option relaxedAutoImplicit false
set_option autoImplicit false

namespace AgentSwarm

/-- An optional value as it is written. -/
def optionalDatum {A : Type} (f : A → Datum) : Option A → Datum
  | some a => f a
  | none => .absent

namespace Datum

/-- The text of a datum. -/
def text? : Datum → Option String
  | .text s => some s
  | _ => none

/-- The whole number of a datum. -/
def whole? : Datum → Option Nat
  | .whole n => some n
  | _ => none

/-- The single-precision number of a datum. -/
def single? : Datum → Option Float32
  | .single x => some x
  | _ => none

/-- Whether a datum is there. -/
def isAbsent : Datum → Bool
  | .absent => true
  | _ => false

/-- An optional value. -/
def optional? {A : Type} (f : Datum → Option A) (d : Datum) : Option (Option A) :=
  if d.isAbsent then some none else (f d).map some

/-- The values of a list. -/
def list? {A : Type} (f : Datum → Option A) : Datum → Option (List A)
  | .list ds => ds.mapM f
  | _ => none

/-- The entries of a table. -/
def table? {A : Type} (f : Datum → Option A) : Datum → Option (List (String × A))
  | .table entries => entries.mapM fun (k, d) => (f d).map fun a => (k, a)
  | _ => none

theorem optional?_optionalDatum {A : Type} {f : Datum → Option A} {g : A → Datum}
    (hf : ∀ a, f (g a) = some a) (hg : ∀ a, (g a).isAbsent = false) (x : Option A) :
    (optionalDatum g x).optional? f = some x := by
  cases x with
  | none => rfl
  | some a => simp [optionalDatum, optional?, hf, hg]

theorem list?_map {A : Type} {f : Datum → Option A} {g : A → Datum}
    (hf : ∀ a, f (g a) = some a) (xs : List A) : (Datum.list (xs.map g)).list? f = some xs := by
  induction xs with
  | nil => rfl
  | cons a rest ih =>
    simp only [list?] at ih
    simp [list?, hf, ih]

end Datum

end AgentSwarm

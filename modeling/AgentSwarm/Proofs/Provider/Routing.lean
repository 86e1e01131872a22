/-
**Who is asked for an alias.**

A manifest may list several providers that declare one alias, several models in one provider, and
several providers of one name.  The registry keeps two tables that are filled entry by entry: the
route of an alias comes from the last provider that declares it, but a route names its provider, and
the connection under that name comes from the last provider of the name and asks for the first of
its models.  The two agree when no two providers share a name and the alias is that of the first
model; otherwise the price that is reported may be that of a model that is never asked for.

Main definitions:

* `AgentSwarm.Manifest.served` — the providers that are registered;
* `AgentSwarm.Manifest.declaring?`, `AgentSwarm.Manifest.bearing?` — the last of them that declares
  an alias, and the last that bears a name;
* `AgentSwarm.Registry.AsksFirst`, `AgentSwarm.Registry.AsDeclared` — whom the requests for an alias
  reach, and that it is who declares the alias.

Main results:

* `AgentSwarm.Registry.route?_ofManifest`, `AgentSwarm.Registry.lookup_ofManifest` — what the two
  tables of a manifest hold;
* `AgentSwarm.Course.moves_tries` — tries ask one provider, before anybody else is asked;
* `AgentSwarm.Registry.primary_requests` — where the requests for an alias go;
* `AgentSwarm.Registry.asDeclared_of_unique` — they go where the alias is declared when names are
  unique and the alias is that of a first model.
-/

import AgentSwarm.Manifest.Fault
import AgentSwarm.Provider.OfManifest

set_option relaxedAutoImplicit false
set_option autoImplicit false

namespace AgentSwarm

/-! ### The last entry -/

/-- The connection of a provider, if it is enabled. -/
def ProviderEntry.served? (env : Environment) (p : ProviderEntry) : Option Connection :=
  if p.enabled then p.connection? env else none

/-- The model that a provider declares under an alias: the last one that it lists. -/
def ProviderEntry.modelFor? (p : ProviderEntry) (aliasName : String) : Option ModelEntry :=
  p.models.reverse.find? fun m => m.aliasName == aliasName

namespace Manifest

/-- The providers that are registered, in the order of the manifest. -/
def served (env : Environment) (m : Manifest) : List ProviderEntry :=
  m.providers.filter fun p => (p.served? env).isSome

/-- The last registered provider that declares an alias. -/
def declaring? (env : Environment) (m : Manifest) (aliasName : String) : Option ProviderEntry :=
  (m.served env).reverse.find? fun p => (p.modelFor? aliasName).isSome

/-- The last registered provider of a name. -/
def bearing? (env : Environment) (m : Manifest) (name : String) : Option ProviderEntry :=
  (m.served env).reverse.find? fun p => p.name == name

variable {env : Environment} {m : Manifest} {aliasName name : String} {p : ProviderEntry}

/-- A registered provider is one of the manifest. -/
theorem mem_providers_of_served (h : p ∈ m.served env) : p ∈ m.providers := (List.mem_filter.1 h).1

theorem mem_served_of_declaring? (h : m.declaring? env aliasName = some p) : p ∈ m.served env :=
  List.mem_reverse.1 (List.mem_of_find?_eq_some h)

theorem mem_served_of_bearing? (h : m.bearing? env name = some p) : p ∈ m.served env :=
  List.mem_reverse.1 (List.mem_of_find?_eq_some h)

theorem name_of_bearing? (h : m.bearing? env name = some p) : p.name = name := by
  simpa using List.find?_some h

/-- A registered provider is found under its name, unless a later one bears the name. -/
theorem bearing?_isSome (h : p ∈ m.served env) : (m.bearing? env p.name).isSome :=
  List.find?_isSome.2 ⟨p, List.mem_reverse.2 h, by simp⟩

/-- The endpoints of a valid manifest are not empty. -/
theorem endpoint_ne (hvalid : m.validate = .ok ()) (h : p ∈ m.providers) : p.endpoint ≠ "" := by
  have hfaults : m.providers.flatMap ProviderEntry.faults = [] := by
    have := validate_eq_ok_iff.1 hvalid
    simp only [faults, List.append_eq_nil_iff] at this
    exact this.1.1.2
  have hp : p.faults = [] := List.flatMap_eq_nil_iff.1 hfaults p h
  simp only [ProviderEntry.faults, List.append_eq_nil_iff, faultIf_eq_nil] at hp
  simpa using hp.1.1.2

end Manifest

/-! ### Connections -/

/-- What a connection is made of. -/
theorem ProviderEntry.served?_eq_some {env : Environment} {p : ProviderEntry} {c : Connection}
    (h : p.served? env = some c) (hplace : p.endpoint ≠ "") :
    ∃ vendor key first, Vendor.ofType? p.kind = some vendor ∧ p.key? env = some key ∧
      p.models.head? = some first ∧ c = ⟨vendor, p.endpoint, key, first.model⟩ := by
  unfold served? at h
  split at h
  next =>
      simp only [connection?, bind, Option.bind_eq_some_iff, pure, Option.some.injEq] at h
      obtain ⟨key, hkey, first, hfirst, vendor, hvendor, rfl⟩ := h
      refine ⟨vendor, key, first, hvendor, hkey, hfirst, ?_⟩
      simp [Connection.create, hplace]
  next => simp at h

/-- A request names the model of its connection. -/
theorem Connection.model_inquiry (c : Connection) (prompt : String) (o : GenerationOptions) :
    ∃ members, (c.inquiry prompt o).body = some (.obj members) ∧
      members.lookup "model" = some (.str c.model) := by
  obtain ⟨vendor, endpoint, key, model⟩ := c
  cases vendor <;> exact ⟨_, rfl, rfl⟩

/-! ### The tables of a manifest -/

namespace Registry

/-- A provider is added when it is served. -/
theorem addEntry_eq (env : Environment) (r : Registry Connection) (p : ProviderEntry) :
    addEntry env r p =
      match p.served? env with
      | some c => r.register p.name c p.models
      | none => r := by
  unfold addEntry ProviderEntry.served?
  cases p.enabled <;> rfl

/-- The route of an alias after the entries were added. -/
theorem route?_foldl_addEntry (env : Environment) (r : Registry Connection)
    (entries : List ProviderEntry) (aliasName : String) :
    (entries.foldl (addEntry env) r).route? aliasName =
      ((entries.filter fun p => (p.served? env).isSome).reverse.findSome? fun p =>
        (p.modelFor? aliasName).map fun m => ⟨p.name, m⟩).or (r.route? aliasName) := by
  induction entries generalizing r with
  | nil => rfl
  | cons p rest ih =>
      rw [List.foldl_cons, ih, addEntry_eq]
      cases hc : p.served? env with
      | none => simp [hc]
      | some c =>
          simp only [lookup_routes_register, List.filter_cons, hc, Option.isSome_some, if_true,
            List.reverse_cons, List.findSome?_append, Option.or_assoc]
          congr 1
          rw [List.findSome?_singleton, ProviderEntry.modelFor?]
          cases p.models.reverse.find? fun m => m.aliasName == aliasName <;> rfl

/-- The connection of a name after the entries were added. -/
theorem lookup_foldl_addEntry (env : Environment) (r : Registry Connection)
    (entries : List ProviderEntry) (name : String) :
    (entries.foldl (addEntry env) r).providers.lookup name =
      (((entries.filter fun p => (p.served? env).isSome).reverse.find? (·.name == name)).bind
        (·.served? env)).or (r.providers.lookup name) := by
  induction entries generalizing r with
  | nil => rfl
  | cons p rest ih =>
      rw [List.foldl_cons, ih, addEntry_eq]
      cases hc : p.served? env with
      | none => simp [hc]
      | some c =>
          simp only [register, lookup_insertMember, List.filter_cons, hc, Option.isSome_some,
            if_true, List.reverse_cons, List.find?_append]
          cases hrest : (rest.filter fun p => (p.served? env).isSome).reverse.find?
              (·.name == name) with
          | some q =>
              -- a later provider of the name is served, so the earlier one does not count
              have hq : (q.served? env).isSome := by
                have hmem := List.mem_reverse.1 (List.mem_of_find?_eq_some hrest)
                exact (List.mem_filter.1 hmem).2
              obtain ⟨d, hd⟩ := Option.isSome_iff_exists.1 hq
              simp [hd]
          | none => by_cases hname : name = p.name <;> simp [hname, hc, Ne.symm]

/-- The last provider with an answer is the last one that has one. -/
theorem findSome?_map_eq {A B C : Type} (l : List A) (f : A → Option B) (g : A → B → C) :
    (l.findSome? fun a => (f a).map (g a)) =
      (l.find? fun a => (f a).isSome).bind fun a => (f a).map (g a) := by
  induction l with
  | nil => rfl
  | cons a rest ih => cases h : f a <;> simp [h, ih]

/-- The route of an alias: the last served provider that declares it, and its model for it. -/
theorem route?_ofManifest (env : Environment) (m : Manifest) (aliasName : String) :
    (ofManifest env m).route? aliasName =
      (m.declaring? env aliasName).bind fun p =>
        (p.modelFor? aliasName).map fun model => ⟨p.name, model⟩ := by
  have h := route?_foldl_addEntry env
    (.empty m.selection.maxRetries (.ofMillis m.selection.retryDelayMillis)) m.providers aliasName
  rw [findSome?_map_eq] at h
  exact h.trans Option.or_none

/-- The connection under a name: that of the last served provider of the name. -/
theorem lookup_ofManifest (env : Environment) (m : Manifest) (name : String) :
    (ofManifest env m).providers.lookup name = (m.bearing? env name).bind (·.served? env) := by
  have h := lookup_foldl_addEntry env
    (.empty m.selection.maxRetries (.ofMillis m.selection.retryDelayMillis)) m.providers name
  exact h.trans Option.or_none

end Registry

/-! ### Tries -/

/-- **Tries ask one provider**, and what is done when they are over comes after them. -/
theorem Course.moves_tries {P S : Type} (answer : P → S → ProviderAnswer × S) (p : P)
    (pause : Nat → Duration) (last : ProviderAnswer → Course P) (left i : Nat) (s : S) :
    ∃ tried rest, ((tries p pause last left i).run answer s).moves = .asked p :: tried ++ rest ∧
      (∀ q, .asked q ∈ tried → q = p) ∧
      (rest = [] ∨ ∃ a s', rest = ((last a).run answer s').moves) := by
  induction left generalizing i s with
  | zero =>
      simp only [tries, run]
      split
      next => exact ⟨[], _, rfl, by simp, .inr ⟨_, _, rfl⟩⟩
      next => exact ⟨[], [], rfl, by simp, .inl rfl⟩
  | succ left ih =>
      simp only [tries, run]
      split
      next =>
          obtain ⟨tried, rest, hmoves, htried, hrest⟩ := ih (i + 1) (answer p s).2
          refine ⟨.waited (pause i) :: .asked p :: tried, rest, ?_, ?_, hrest⟩
          · simp [run, hmoves]
          · intro q hq
            simp only [List.mem_cons, reduceCtorEq, Move.asked.injEq, false_or] at hq
            exact hq.elim id (htried q)
      next => exact ⟨[], [], rfl, by simp, .inl rfl⟩

/-! ### Where requests go -/

namespace Registry

/-- The requests for an alias go to a connection: it is asked first, and all that is done before the
fallback asks nobody else. -/
def AsksFirst {P : Type} (r : Registry P) (aliasName provider : String) (c : P) : Prop :=
  ∀ (S : Type) (answer : P → S → ProviderAnswer × S) (s : S),
    ∃ tried rest, ((r.course aliasName).run answer s).moves = .asked c :: tried ++ rest ∧
      (∀ q, .asked q ∈ tried → q = c) ∧
      (rest = [] ∨ ∃ f, r.fallbackFor provider = some f ∧ rest = [.asked f])

variable {env : Environment} {m : Manifest} {aliasName : String} {route : Route}

/-- An alias with a provider asks it. -/
theorem asksFirst_of_lookup {P : Type} {r : Registry P} {c : P}
    (hroute : r.route? aliasName = some route)
    (hc : r.providers.lookup route.provider = some c) : r.AsksFirst aliasName route.provider c := by
  intro S answer s
  have hcourse : r.course aliasName =
      .tries c r.pause (r.afterTries route.provider) (r.maxRetries - 1) 0 := by
    simp [course, hroute, hc]
  rw [hcourse]
  obtain ⟨tried, rest, hmoves, htried, hrest⟩ :=
    Course.moves_tries answer c r.pause (r.afterTries route.provider) (r.maxRetries - 1) 0 s
  refine ⟨tried, rest, hmoves, htried, ?_⟩
  rcases hrest with rfl | ⟨a, s', rfl⟩
  · exact .inl rfl
  · unfold afterTries
    cases r.fallbackFor route.provider with
    | none => exact .inl rfl
    | some f => exact .inr ⟨f, rfl, rfl⟩

/-- The two entries and the two models that decide about an alias. -/
theorem exists_of_route? (hvalid : m.validate = .ok ())
    (hroute : (ofManifest env m).route? aliasName = some route) :
    ∃ declaring bearing vendor key first,
      m.declaring? env aliasName = some declaring ∧
      declaring.modelFor? aliasName = some route.model ∧ route.provider = declaring.name ∧
      m.bearing? env declaring.name = some bearing ∧
      Vendor.ofType? bearing.kind = some vendor ∧ bearing.key? env = some key ∧
      bearing.models.head? = some first ∧
      (ofManifest env m).AsksFirst aliasName declaring.name
        ⟨vendor, bearing.endpoint, key, first.model⟩ := by
  have htable := hroute
  rw [route?_ofManifest] at htable
  obtain ⟨declaring, hdeclaring, hmodel⟩ := Option.bind_eq_some_iff.1 htable
  obtain ⟨model, hdeclared, rfl⟩ := Option.map_eq_some_iff.1 hmodel
  obtain ⟨bearing, hbearing⟩ := Option.isSome_iff_exists.1
    (Manifest.bearing?_isSome (Manifest.mem_served_of_declaring? hdeclaring))
  have hserved := Manifest.mem_served_of_bearing? hbearing
  obtain ⟨c, hc⟩ := Option.isSome_iff_exists.1 (List.mem_filter.1 hserved).2
  obtain ⟨vendor, key, first, hvendor, hkey, hfirst, rfl⟩ :=
    ProviderEntry.served?_eq_some hc
      (Manifest.endpoint_ne hvalid (Manifest.mem_providers_of_served hserved))
  refine ⟨declaring, bearing, vendor, key, first, hdeclaring, hdeclared, rfl, hbearing, hvendor,
    hkey, hfirst, asksFirst_of_lookup hroute ?_⟩
  rw [lookup_ofManifest, hbearing]
  exact hc

/-- **Where the requests for an alias go.**  The price is that of the model which the last provider
to declare the alias lists for it.  The requests go to the endpoint of the last provider that bears
the name of that one, with its key, and ask for the first of its models. -/
theorem primary_requests (hvalid : m.validate = .ok ())
    (hroute : (ofManifest env m).route? aliasName = some route) :
    ∃ declaring bearing vendor key first,
      m.declaring? env aliasName = some declaring ∧
      declaring.modelFor? aliasName = some route.model ∧
      (ofManifest env m).costPer1k? aliasName = some route.model.costPer1k ∧
      m.bearing? env declaring.name = some bearing ∧
      Vendor.ofType? bearing.kind = some vendor ∧ bearing.key? env = some key ∧
      bearing.models.head? = some first ∧
      (ofManifest env m).AsksFirst aliasName declaring.name
        ⟨vendor, bearing.endpoint, key, first.model⟩ ∧
      ∀ prompt o, ∃ members,
        (Connection.inquiry ⟨vendor, bearing.endpoint, key, first.model⟩ prompt o).body =
          some (.obj members) ∧
        members.lookup "model" = some (.str first.model) := by
  obtain ⟨declaring, bearing, vendor, key, first, hdeclaring, hmodel, -, hbearing, hvendor, hkey,
    hfirst, hasks⟩ := exists_of_route? hvalid hroute
  refine ⟨declaring, bearing, vendor, key, first, hdeclaring, hmodel, ?_, hbearing, hvendor, hkey,
    hfirst, hasks, Connection.model_inquiry _⟩
  rw [costPer1k?, hroute]
  rfl

namespace Sample

/-- A provider that speaks the first protocol. -/
def gateway (name endpoint key : String) (models : List ModelEntry) : ProviderEntry :=
  ⟨name, "openai-compatible", endpoint, some key, true, models⟩

/-- A model under an alias. -/
def model (aliasName model : String) (cost : Float) : ModelEntry :=
  ⟨aliasName, model, [], 8192, cost⟩

/-- Two providers of one name. -/
def twins : Manifest :=
  { Manifest.standard "twins" with
    providers := [gateway "gw" "http://one" "k1" [model "big" "large" 2],
      gateway "gw" "http://two" "k2" [model "small" "tiny" 0.5]] }

/-- One provider with two models. -/
def single : Manifest :=
  { Manifest.standard "single" with
    providers :=
      [gateway "gw" "http://one" "k1" [model "big" "large" 2, model "small" "tiny" 0.5]] }

/-- The route of the first provider's model, in a manifest with a second one of its name. -/
theorem route?_twins : (ofManifest (fun _ => none) twins).route? "big" =
    some ⟨"gw", model "big" "large" 2⟩ := by
  rw [route?_ofManifest]
  rfl

end Sample

/-- With two providers of one name, the requests for the first one's model go to the second, which
is asked for its own. -/
theorem primary_requests_twins :
    Sample.twins.validate = .ok () ∧
      (ofManifest (fun _ => none) Sample.twins).costPer1k? "big" = some 2 ∧
      (ofManifest (fun _ => none) Sample.twins).AsksFirst "big" "gw"
        ⟨.openai, "http://two", "k2", "tiny"⟩ := by
  have hvalid : Sample.twins.validate = .ok () := Manifest.validate_eq_ok_iff.2 (by decide)
  obtain ⟨declaring, bearing, vendor, key, first, hdeclaring, -, hcost, hbearing, hvendor, hkey,
    hfirst, hasks, -⟩ := primary_requests hvalid Sample.route?_twins
  obtain rfl : Sample.gateway "gw" "http://one" "k1" _ = declaring := Option.some.inj hdeclaring
  obtain rfl : Sample.gateway "gw" "http://two" "k2" _ = bearing := Option.some.inj hbearing
  obtain rfl : Vendor.openai = vendor := Option.some.inj hvendor
  obtain rfl : "k2" = key := Option.some.inj hkey
  obtain rfl : Sample.model "small" "tiny" 0.5 = first := Option.some.inj hfirst
  exact ⟨hvalid, hcost, hasks⟩

/-! ### Where requests are declared to go -/

/-- The requests for an alias go where its declaration says: to the last provider that declares it,
for the model that it lists there. -/
def AsDeclared (env : Environment) (m : Manifest) (aliasName : String) : Prop :=
  ∀ declaring model, m.declaring? env aliasName = some declaring →
    declaring.modelFor? aliasName = some model →
    ∃ vendor key, Vendor.ofType? declaring.kind = some vendor ∧ declaring.key? env = some key ∧
      (ofManifest env m).AsksFirst aliasName declaring.name
        ⟨vendor, declaring.endpoint, key, model.model⟩

/-- Only one connection is asked first. -/
theorem AsksFirst.unique {P : Type} {r : Registry P} {provider other : String} {c d : P}
    (hc : r.AsksFirst aliasName provider c) (hd : r.AsksFirst aliasName other d) : c = d := by
  obtain ⟨_, _, hmoves, -⟩ := hc Unit (fun _ s => (.error .rateLimit, s)) ()
  obtain ⟨_, _, hmoves', -⟩ := hd Unit (fun _ s => (.error .rateLimit, s)) ()
  rw [hmoves] at hmoves'
  exact Move.asked.inj (List.cons.inj hmoves').1

/-- **Unique names and first models.**  When no other provider is registered under the name of the
one that declares the alias, and the alias is that of its first model, requests go where the
declaration says. -/
theorem asDeclared_of_unique {declaring : ProviderEntry} {model : ModelEntry}
    (hvalid : m.validate = .ok ()) (hdeclaring : m.declaring? env aliasName = some declaring)
    (hmodel : declaring.modelFor? aliasName = some model)
    (hname : ∀ p ∈ m.served env, p.name = declaring.name → p = declaring)
    (hfirst : declaring.models.head? = some model) : AsDeclared env m aliasName := by
  have hroute : (ofManifest env m).route? aliasName = some ⟨declaring.name, model⟩ := by
    simp [route?_ofManifest, hdeclaring, hmodel]
  obtain ⟨declaring', bearing, vendor, key, first, hdeclaring', hmodel', -, hbearing, hvendor, hkey,
    hfirst', hasks⟩ := exists_of_route? hvalid hroute
  obtain rfl : declaring = declaring' := Option.some.inj (hdeclaring.symm.trans hdeclaring')
  obtain rfl : bearing = declaring :=
    hname bearing (Manifest.mem_served_of_bearing? hbearing) (Manifest.name_of_bearing? hbearing)
  obtain rfl : model = first := Option.some.inj (hfirst.symm.trans hfirst')
  intro d n hd hn
  obtain rfl : bearing = d := Option.some.inj (hdeclaring.symm.trans hd)
  obtain rfl : model = n := Option.some.inj (hmodel.symm.trans hn)
  exact ⟨vendor, key, hvendor, hkey, hasks⟩

/-- Requests do not always go where the declaration says: with two providers of one name they go to
the other endpoint, and a model that is not the first of its provider is not asked for. -/
theorem not_asDeclared :
    Sample.twins.validate = .ok () ∧ ¬ AsDeclared (fun _ => none) Sample.twins "big" ∧
      Sample.single.validate = .ok () ∧ ¬ AsDeclared (fun _ => none) Sample.single "small" := by
  refine ⟨Manifest.validate_eq_ok_iff.2 (by decide), ?_,
    Manifest.validate_eq_ok_iff.2 (by decide), ?_⟩
  · intro hdeclared
    obtain ⟨vendor, key, -, -, hasks⟩ := hdeclared _ _ rfl rfl
    have hreal := asksFirst_of_lookup (c := ⟨.openai, "http://two", "k2", "tiny"⟩)
      Sample.route?_twins (by rw [lookup_ofManifest]; rfl)
    have hplace : "http://one" = "http://two" :=
      congrArg Connection.endpoint (hasks.unique hreal)
    exact absurd hplace (by decide)
  · intro hdeclared
    obtain ⟨vendor, key, -, -, hasks⟩ := hdeclared _ _ rfl rfl
    have hroute : (ofManifest (fun _ => none) Sample.single).route? "small" =
        some ⟨"gw", Sample.model "small" "tiny" 0.5⟩ := by
      rw [route?_ofManifest]
      rfl
    have hreal := asksFirst_of_lookup (c := ⟨.openai, "http://one", "k1", "large"⟩)
      hroute (by rw [lookup_ofManifest]; rfl)
    have hasked : "tiny" = "large" := congrArg Connection.model (hasks.unique hreal)
    exact absurd hasked (by decide)

end Registry

end AgentSwarm

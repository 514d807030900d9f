import TypeEngine.Proofs.Coherence

/-!
# No dangling names

In a registry that is built layer by layer, every name that is visible leads to names that are
visible. Each layer is closed: its types mention only what is visible in it (`Catalog.Closed`), and
walking along names and going down into parts both keep to such types (`Catalog.Walk.closed`,
`Place.Opens.closed`). The only error that a visible name can give is therefore a cyclic alias,
whether it is resolved or solved (`no_dangling_names`). That is so whatever was registered, also
where registrations failed or were dropped when the registry was built.
-/

namespace TypeEngine

/-- The names that the type mentions are visible in the catalog. -/
def Ty.ClosedIn (C : Catalog) (ty : Ty) : Prop :=
  ∀ name ∈ ty.mentions true, ∃ found, C.find? name = some found

namespace Catalog

/-- The catalog and all layers below it are closed. -/
def ClosedLayers (R : Catalog) : Prop :=
  ∀ O : Catalog, O.Under R → O.Closed

variable {R C O : Catalog} {chain : List String} {ty t : Ty} {name : String}

/-- What a name stands for mentions only names that are visible where it is declared. -/
theorem ClosedLayers.closed_of_find? (hR : R.ClosedLayers) (hlayered : R.Layered)
    (hC : C.Under R) (h : C.find? name = some (O, t)) : t.ClosedIn O := by
  obtain ⟨own, hown⟩ := exists_sees h
  have hO := ((hlayered.of_under hC).under_of_find? h).trans hC
  exact hR O hO hown.lookup

/-- **A walk keeps to visible names.** -/
theorem Walk.closed (hR : R.ClosedLayers) (hlayered : R.Layered) (h : Walk C chain ty O t)
    (hC : C.Under R) (hty : ty.ClosedIn C) : t.ClosedIn O := by
  induction h with
  | stop => exact hty
  | reference _ hf _ ih =>
    have hP := (hlayered.of_under hC).under_of_find? hf
    exact ih (hP.trans hC) (hR.closed_of_find? hlayered hC hf)
  | typeAlias _ ih =>
    intro name hname
    rw [Ty.addAttributes, Ty.mentions_withAttributes] at hname
    exact ih hC hty name hname
  | labeled _ ih => exact ih hC hty
  | constructor hf => exact hR.closed_of_find? hlayered hC hf

/-- **A walk from visible names does not miss one.** It ends, or comes to a name again. -/
theorem ClosedLayers.code_of_resolveWithin (hR : R.ClosedLayers) (hlayered : R.Layered)
    {k : Nat} {e : TypeError} (hC : C.Under R) (hty : ty.ClosedIn C)
    (h : resolveWithin k C chain ty = .error e) : e.code = .cyclicAlias := by
  induction k generalizing C chain ty with
  | zero =>
    cases h
    rfl
  | succ k ih =>
    have hreference {name : String} (hname : ∃ found, C.find? name = some found)
        (h : resolveWithin (k + 1) C chain (.reference name) = .error e) :
        e.code = .cyclicAlias := by
      obtain ⟨⟨O, t⟩, hf⟩ := hname
      rw [resolveWithin_reference, hf] at h
      split_ifs at h
      · cases h
        rfl
      · exact ih (((hlayered.of_under hC).under_of_find? hf).trans hC)
          (hR.closed_of_find? hlayered hC hf) h
    cases ty with
    | reference name => exact hreference (hty name (List.mem_singleton_self name)) h
    | typeAlias name attributes =>
      rw [resolveWithin_typeAlias, except_map_eq_error] at h
      exact hreference (hty name (List.mem_singleton_self name)) h
    | labeled label ty =>
      rw [resolveWithin_labeled, except_map_eq_error] at h
      have hinner : ty.ClosedIn C := hty
      exact ih hC hinner h
    | constructor label union attributes =>
      obtain ⟨found, hf⟩ := hty union (List.mem_singleton_self union)
      rw [resolveWithin, getOwned, hf] at h
      cases h
    | _ => cases h

end Catalog

namespace Place

variable {R : Catalog} {walk : Nat} {p q : Place} {names : List String}

/-- **A descent keeps to visible names,** whatever it opens. -/
theorem Opens.closed (hR : R.ClosedLayers) (hlayered : R.Layered) (h : p.Opens names q)
    (hp : p.Within R walk) (hty : p.ty.ClosedIn p.catalog) : q.ty.ClosedIn q.catalog := by
  induction h with
  | here => exact hty
  | part hq _ ih =>
    refine ih (hp.part hq) fun name hname => ?_
    rw [hq.catalog_eq]
    exact hty name (hq.mentions (fun _ => rfl) hname)
  | name _ _ hwalk _ ih =>
    exact ih (hp.opened hlayered hwalk) (hwalk.closed hR hlayered hp.under hty)

end Place

namespace Registry

variable {R : Registry} {T : Ty} {e : TypeError}

theorem code_of_resolve (hR : R.toCatalog.ClosedLayers) (hlayered : R.toCatalog.Layered)
    (hT : T.ClosedIn R.toCatalog) (h : R.resolve T = .error e) : e.code = .cyclicAlias :=
  hR.code_of_resolveWithin hlayered (.refl _) hT (except_map_eq_error.1 h)

theorem code_of_solve (hR : R.toCatalog.ClosedLayers) (hlayered : R.toCatalog.Layered)
    (hT : T.ClosedIn R.toCatalog) (h : R.solve T = .error e) : e.code = .cyclicAlias := by
  have hfail : (Place.outcome ⟨R.toCatalog, false, T⟩ (R.descentFuel T) (R.walkFuel T) []).failure?
      = some (some e) := by
    show (R.solve T).failure? = some (some e)
    rw [h]
    rfl
  obtain ⟨names, q, name, hopens, -, hend⟩ :=
    Place.exists_opens_of_failure? hlayered (R.within T) hfail
  rcases hend with hresolve | ⟨-, -, rfl⟩
  · exact hR.code_of_resolveWithin hlayered (hopens.within hlayered (R.within T)).under
      (hopens.closed hR hlayered (R.within T) hT) hresolve
  · rfl

end Registry

/-! ## Registries declared in layers -/

/-- A registry of regular registrations, over a parent of the same kind or over none. -/
inductive DeclaredInLayers : Built → Prop
  | layer {parent : Option Built} {rs : List Registration} :
      (∀ P, parent = some P → DeclaredInLayers P) → (∀ r ∈ rs, r.Regular) →
      DeclaredInLayers (Builder.registering parent rs).build

namespace DeclaredInLayers

variable {B : Built}

theorem builtInLayers (h : DeclaredInLayers B) : BuiltInLayers B := by
  induction h with
  | @layer parent rs _ hrs ih =>
    have hlawful (r : Registration) (hr : r ∈ rs) : r.Lawful := (hrs r hr).lawful
    cases parent with
    | none => exact .root hlawful
    | some P => exact .above (ih P rfl) hlawful

theorem closedLayers (h : DeclaredInLayers B) : B.value.toCatalog.ClosedLayers := by
  induction h with
  | @layer parent rs _ hrs ih =>
    have htop : (Builder.registering parent rs).build.value.toCatalog.Closed :=
      Builder.build_closed hrs
    rw [Builder.build_catalog, Builder.registering_parent] at htop ⊢
    intro O hO
    cases parent with
    | none =>
      cases hO with
      | refl => exact htop
    | some P =>
      cases hO with
      | refl => exact htop
      | above hO => exact ih P rfl O hO

end DeclaredInLayers

/-- **A built registry has no dangling names.** Whatever was declared in whichever layer, a visible
name resolves and solves, or is reported as a cyclic alias; no name is found missing on the way. -/
theorem no_dangling_names {B : Built} (hB : DeclaredInLayers B) {name : String}
    (hname : B.value.contains name = true) :
    ((∃ t, B.value.resolve (.reference name) = .ok t) ∨
      ∃ e, B.value.resolve (.reference name) = .error e ∧ e.code = .cyclicAlias) ∧
    ((∃ S, B.value.solve (.reference name) = .ok S) ∨
      ∃ e, B.value.solve (.reference name) = .error e ∧ e.code = .cyclicAlias) := by
  have hlayered := hB.builtInLayers.layered
  have hclosed : Ty.ClosedIn B.value.toCatalog (.reference name) := by
    intro other hother
    rw [List.mem_singleton.1 hother]
    rw [Catalog.contains, Catalog.get?, Option.isSome_map] at hname
    exact Option.isSome_iff_exists.1 hname
  refine ⟨?_, ?_⟩
  · cases h : B.value.resolve (.reference name) with
    | ok t => exact .inl ⟨t, rfl⟩
    | error e =>
      exact .inr ⟨e, rfl, Registry.code_of_resolve hB.closedLayers hlayered hclosed h⟩
  · cases h : B.value.solve (.reference name) with
    | ok S => exact .inl ⟨S, rfl⟩
    | error e => exact .inr ⟨e, rfl, Registry.code_of_solve hB.closedLayers hlayered hclosed h⟩
    | outOfFuel => exact absurd h (Registry.solve_ne_outOfFuel hlayered _)

/-- Declarations over the garden. `Int` is taken there. There are no roots, so there are no bushes
and no hedges of bushes. Ivy and vine are names for each other. -/
def thicket : Built :=
  (Builder.declaring (some garden)
    [.concrete "Int",
      .type "Hedge" ∅ [] (.parametric "List" [.reference "Bush"]),
      .union "Bush" [⟨"Twig", [.reference "Root"]⟩],
      .union "Tree" [⟨"Leaf", []⟩,
        ⟨"Node", [.reference "Int", .parametric "List" [.reference "Tree"]]⟩],
      .type "Ivy" ∅ [] (.reference "Vine"),
      .type "Vine" ∅ [] (.reference "Ivy")]).build

theorem thicket_declaredInLayers : DeclaredInLayers thicket := by
  refine .layer ?_ (regular_registrations (by decide))
  rintro _ ⟨⟩
  exact .layer (fun _ h => (nomatch h)) (regular_registrations (by decide))

theorem thicket_facts :
    thicket.value.names = ["Tree", "Leaf", "Node", "Ivy", "Vine"] ∧
    thicket.value.contains "Node" = true ∧ thicket.value.contains "Ivy" = true ∧
    thicket.value.resolve (.reference "Ivy") = .error (.cyclicAlias ["Ivy", "Vine"] "Ivy") := by
  decide +kernel

/-- In the thicket, the case label `Node` solves or is cyclic although its union goes on to trees,
and ivy is cyclic. -/
theorem no_dangling_names_thicket :
    DeclaredInLayers thicket ∧ thicket.value.names = ["Tree", "Leaf", "Node", "Ivy", "Vine"] ∧
    thicket.value.contains "Node" = true ∧ thicket.value.contains "Ivy" = true ∧
    ((∃ S, thicket.value.solve (.reference "Node") = .ok S) ∨
      ∃ e, thicket.value.solve (.reference "Node") = .error e ∧ e.code = .cyclicAlias) ∧
    ∃ e, thicket.value.resolve (.reference "Ivy") = .error e ∧ e.code = .cyclicAlias := by
  obtain ⟨hnames, hnode, hivy, hcyclic⟩ := thicket_facts
  refine ⟨thicket_declaredInLayers, hnames, hnode, hivy,
    (no_dangling_names thicket_declaredInLayers hnode).2, ?_⟩
  rcases (no_dangling_names thicket_declaredInLayers hivy).1 with ⟨t, ht⟩ | h
  · rw [hcyclic] at ht
    cases ht
  · exact h

end TypeEngine

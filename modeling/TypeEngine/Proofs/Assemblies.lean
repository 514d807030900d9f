import TypeEngine.Proofs.Coherence

/-!
# Registries with modules

Registries are made in two ways, by registrations over a parent and by importing modules over a
parent, and both may be used in any order and any number of times (`Assembled`).

Modules hide names: a registry that imports a module under a key takes all names with that key away
from its parent. Other names are safe. No layer declares a name that is visible below it
(`Assembled.stacked`), so a name without a key means the same in every registry between the one that
declares it and the one that asks (`Catalog.Stacked.find?_of_under`).

What is visible in an assembled registry is owned by one of its layers, and where all registrations
are plain the layers are coherent (`Assembled.coherent_of_find?`).
-/

namespace TypeEngine

/-- A registry that is put together by registrations of an allowed kind and by imports. -/
inductive Assembled (allowed : Registration → Prop) : Built → Prop
  | built {parent : Option Built} {rs : List Registration} :
      (∀ P, parent = some P → Assembled allowed P) → (∀ r ∈ rs, allowed r) →
      Assembled allowed ((Builder.start parent).registerAll rs).2.build
  | modules {parent : Option Built} {modules : List (String × Built)} :
      (∀ P, parent = some P → Assembled allowed P) → (∀ m ∈ modules, Assembled allowed m.2) →
      Assembled allowed (Registry.ofModules parent modules)

/-- Plain declarations are one way to put a registry together. -/
theorem Assembled.declaring {parent : Option Built} {ds : List Declaration}
    (hparent : ∀ P, parent = some P → Assembled Registration.Plain P)
    (hds : ∀ d ∈ ds, d.isPlain = true) :
    Assembled Registration.Plain (Builder.declaring parent ds).build := by
  refine .built hparent fun r hr => ?_
  obtain ⟨d, hd, rfl⟩ := List.mem_map.1 hr
  exact ⟨d, hds d hd, rfl⟩

theorem Registry.ofModules_catalog (parent : Option Built) (modules : List (String × Built)) :
    (Registry.ofModules parent modules).value.toCatalog
      = ⟨parent.map (·.value.toCatalog), [],
          (modules.map fun m => (m.1, m.2.value.toCatalog)).reverse⟩ := by
  simp [Registry.ofModules, Registry.make, Function.comp_def]

/-! ## Names without a key -/

namespace Catalog

/-- No layer declares a name that is visible below it. -/
def Stacked (C : Catalog) : Prop :=
  ∀ ⦃P : Catalog⦄ ⦃entries : List (String × Ty)⦄ ⦃imports : List (String × Catalog)⦄,
    Under ⟨some P, entries, imports⟩ C → ∀ p ∈ entries, P.find? p.1 = none

/-- **A name without a key means the same in every layer that sees it,** imports or not. -/
theorem Stacked.find?_of_under {O C : Catalog} {name : String} {found : Catalog × Ty}
    (hC : C.Stacked) (hO : O.Under C) (hname : splitQualified name = none)
    (h : O.find? name = some found) : C.find? name = some found := by
  induction hO with
  | refl => exact h
  | @above P entries imports _ ih =>
    have hfound := ih fun _ _ _ hunder => hC (.above hunder)
    have hmodule : moduleOf? ⟨some P, entries, imports⟩ name = none := by
      rw [moduleOf?, hname]
      rfl
    rw [find?_eq, hmodule]
    cases hl : entries.lookup name with
    | some t =>
      rw [hC (.refl _) _ (mem_of_lookup hl)] at hfound
      cases hfound
    | none => exact hfound

end Catalog

namespace Assembled

theorem stacked {B : Built} (h : Assembled Registration.Lawful B) : B.value.toCatalog.Stacked := by
  induction h with
  | @built parent rs _ hrs ih =>
    have hdistinct := Builder.registerAll_distinct
      (Builder.distinct_of_entries_eq_nil (Builder.start_entries parent)) hrs
    have hparent := (Builder.registerAll_parent (Builder.start parent) rs).trans
      (Builder.start_parent parent)
    rw [Builder.build_catalog, hparent]
    intro P entries imports hunder p hp
    cases parent with
    | none => cases hunder
    | some Q =>
      cases hunder with
      | refl =>
        obtain ⟨e, he, rfl⟩ := List.mem_map.1 hp
        have hunseen := hdistinct.unseen e ((settle_sublist ..).subset he)
        rw [hparent] at hunseen
        exact Option.map_eq_none_iff.1 hunseen
      | above hunder => exact ih Q rfl hunder p hp
  | @modules parent modules _ _ ih _ =>
    rw [Registry.ofModules_catalog]
    intro P entries imports hunder p hp
    cases parent with
    | none => cases hunder
    | some Q =>
      cases hunder with
      | refl => cases hp
      | above hunder => exact ih Q rfl hunder p hp

end Assembled

/-! ## Owners -/

namespace Catalog

/-- A registry sees what a module of it sees, under the key of the module. -/
theorem Sees.of_module {C M O : Catalog} {name rest own : String} {ty : Ty}
    (h : M.Sees rest O own ty) (key : String) (hnone : C.entries.lookup name = none)
    (hsplit : splitQualified name = some (key, rest)) (hkey : C.imports.lookup key = some M) :
    C.Sees name O own ty := by
  refine .imported hnone ?_ h
  rw [moduleOf?, hsplit]
  show (C.imports.lookup key).map (·, rest) = some (M, rest)
  rw [hkey]
  rfl

/-- A layer of declarations sees what its parent sees, unless it declares the name itself. -/
theorem Sees.of_parent {parent : Built} {ds : List Declaration} {O : Catalog} {name own : String}
    {ty : Ty} (h : parent.value.Sees name O own ty)
    (hnone : (Builder.declaring (some parent) ds).build.value.entries.lookup name = none) :
    (Builder.declaring (some parent) ds).build.value.Sees name O own ty := by
  rw [Builder.build_catalog, Builder.declaring_parent] at hnone ⊢
  refine .inherited hnone ?_ rfl h
  cases hsplit : splitQualified name <;> simp [moduleOf?, hsplit]

end Catalog

/-- **The owner of a visible name is coherent,** if all registrations are plain. -/
theorem Assembled.coherent_of_find? {B : Built} (h : Assembled Registration.Plain B)
    {name : String} {O : Catalog} {ty : Ty} (hfind : B.value.find? name = some (O, ty)) :
    O.Coherent := by
  induction h generalizing name with
  | @built parent rs _ hrs ih =>
    have htop : (Builder.registering parent rs).build.value.toCatalog.Coherent :=
      Builder.build_coherent hrs
    change (Builder.registering parent rs).build.value.toCatalog.find? name = some (O, ty) at hfind
    rw [Builder.build_catalog, Builder.registering_parent] at htop hfind
    rw [Catalog.find?_layer] at hfind
    split at hfind
    · cases hfind
      exact htop
    · cases parent with
      | none => cases hfind
      | some P => exact ih P rfl hfind
  | @modules parent modules _ _ ih ihModules =>
    rw [Registry.ofModules_catalog] at hfind
    obtain ⟨own, hown⟩ := Catalog.exists_sees hfind
    cases hown with
    | own hlookup => cases hlookup
    | imported _ hmodule hrest =>
      obtain ⟨key, hmem⟩ := Catalog.mem_imports_of_moduleOf? hmodule
      obtain ⟨m, hm, heq⟩ := List.mem_map.1 (List.mem_reverse.1 hmem)
      cases heq
      exact ihModules m hm hrest.find?
    | inherited _ _ hparent hrest =>
      obtain ⟨P, rfl, rfl⟩ := Option.map_eq_some_iff.1 hparent
      exact ih P rfl hrest.find?

end TypeEngine

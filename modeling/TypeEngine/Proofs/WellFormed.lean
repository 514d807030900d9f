import TypeEngine.Proofs.Settling

/-!
# Well-formed registries

Whatever regular registrations are made, over any parent and whether they succeed or fail, the
registry that is built is well formed (`build_wellFormed`). Its own names are distinct and hide
nothing of the parent, a look-up of one of them finds what is stored for it, and every stored type
fits the registry (`Ty.Fits`).

The checks of the entries were made against entries. They hold in the registry because a look-up in
the registry is the same look-up (`Builder.build_get?`). And the case labels of an entry that is
kept are kept with it: they have no checks of their own, so keeping them as well would be consistent
(`Builder.label_mem_kept`).
-/

namespace TypeEngine

theorem lookup_map_entries (entries : List Entry) (name : String) :
    (entries.map fun e => (e.name, e.ty)).lookup name
      = (entries.find? (·.name == name)).map (·.ty) := by
  induction entries with
  | nil => rfl
  | cons e entries ih =>
    rw [List.map_cons, lookup_cons, List.find?_cons]
    by_cases h : name = e.name
    · simp [h]
    · rw [if_neg h, ih]
      have : (e.name == name) = false := by simpa using fun heq : e.name = name => h heq.symm
      rw [this]

namespace Builder

/-- A look-up in the built registry is a look-up among the kept entries. -/
theorem build_get? (b : Builder) (name : String) :
    b.build.value.get? name = lookupIn b.parent b.kept name := by
  rw [Catalog.get?, build_catalog, Catalog.find?_layer, lookup_map_entries, lookupIn]
  cases b.kept.find? (·.name == name) with
  | some e => rfl
  | none =>
    cases b.parent with
    | none => rfl
    | some P => rfl

variable {parent : Option Built} {rs : List Registration}

/-- The case labels of a kept entry are kept. -/
theorem label_mem_kept (hrs : ∀ r ∈ rs, r.Regular) {e : Entry}
    (he : e ∈ (registering parent rs).kept) {label : String} {ty : Ty}
    (hlabel : ⟨label, ty, [], some e.name⟩ ∈ (registering parent rs).entries) :
    ⟨label, ty, [], some e.name⟩ ∈ (registering parent rs).kept := by
  have hgreatest := kept_greatest parent hrs
  have hsub : ⟨label, ty, [], some e.name⟩ :: (registering parent rs).kept
      ⊆ (registering parent rs).entries :=
    List.cons_subset.2 ⟨hlabel, hgreatest.sublist.subset⟩
  refine hgreatest.greatest _ hsub ?_ (List.mem_cons_self ..)
  have hext := (registering_distinct parent hrs).lookupIn_extends (List.subset_cons_self _ _) hsub
  rw [registering_parent] at hext
  intro f hf
  rcases List.mem_cons.1 hf with rfl | hf
  · refine ⟨fun _ h => (nomatch h), fun owner howner => ⟨e, List.mem_cons_of_mem _ he, ?_⟩⟩
    exact Option.some.inj howner
  · obtain ⟨hpass, howner⟩ := hgreatest.consistent f hf
    have hsteady := (registering_sound parent hrs f (hgreatest.sublist.subset hf)).steady
    refine ⟨hsteady hext hpass, fun owner h => ?_⟩
    obtain ⟨g, hg, hname⟩ := howner owner h
    exact ⟨g, List.mem_cons_of_mem _ hg, hname⟩

/-- **Every kept type fits the kept entries.** -/
theorem fits_of_mem_kept (hrs : ∀ r ∈ rs, r.Regular) {e : Entry}
    (he : e ∈ (registering parent rs).kept) :
    e.ty.Fits (lookupIn (registering parent rs).parent (registering parent rs).kept) e.name := by
  have hgreatest := kept_greatest parent hrs
  have hsub := hgreatest.sublist.subset
  have hsound := registering_sound parent hrs e (hsub he)
  obtain ⟨hpass, -⟩ := hgreatest.consistent e he
  rw [← registering_parent parent rs] at hpass
  cases hsound with
  | label => exact .leaf trivial rfl
  | type hsteady hfree hlabels hfits =>
    refine hfits _ ⟨hpass, fun p hp => ?_⟩
    exact (registering_distinct parent hrs).lookupIn_of_mem hsub
      (label_mem_kept hrs he (hlabels p hp))

end Builder

/-- **Every built registry is well formed.** Its own names are distinct and none is visible in the
parent, each of them is found with the type that is stored for it, and this type fits the registry
throughout. -/
theorem build_wellFormed (parent : Option Built) {rs : List Registration}
    (hrs : ∀ r ∈ rs, r.Regular) :
    (Builder.registering parent rs).build.value.names.Nodup ∧
    (∀ P, parent = some P → ∀ name ∈ (Builder.registering parent rs).build.value.names,
      P.value.get? name = none) ∧
    ∀ p ∈ (Builder.registering parent rs).build.value.entries,
      (Builder.registering parent rs).build.value.get p.1 = .ok p.2 ∧
        p.2.Fits (Builder.registering parent rs).build.value.get? p.1 := by
  have hdistinct := Builder.registering_distinct parent hrs
  have hsub : (Builder.registering parent rs).kept.Sublist
      (Builder.registering parent rs).entries := settle_sublist ..
  have hget : (Builder.registering parent rs).build.value.get?
      = lookupIn (Builder.registering parent rs).parent (Builder.registering parent rs).kept :=
    funext (Builder.build_get? _)
  have hnames : (Builder.registering parent rs).build.value.names
      = (Builder.registering parent rs).kept.map (·.name) := by
    rw [Catalog.names, Builder.build_catalog]
    exact List.map_map
  refine ⟨?_, ?_, ?_⟩
  · rw [hnames]
    exact hdistinct.nodup.sublist (hsub.map _)
  · rintro P rfl name hname
    rw [hnames] at hname
    obtain ⟨e, he, rfl⟩ := List.mem_map.1 hname
    have hunseen := hdistinct.unseen e (hsub.subset he)
    rw [Builder.registering_parent] at hunseen
    exact hunseen
  · intro p hp
    rw [Builder.build_catalog] at hp
    obtain ⟨e, he, rfl⟩ := List.mem_map.1 hp
    refine ⟨?_, ?_⟩
    · rw [Catalog.get, hget, hdistinct.lookupIn_of_mem hsub.subset he]
    · rw [hget]
      exact Builder.fits_of_mem_kept hrs he

/-- Numbers and lists. -/
def garden : Built :=
  (Builder.declaring none [.concrete "Int", .parametric "List" [.parameter "a"]]).build

/-- Declarations over the garden. The name `Int` is taken there, the function type is too short, and
`Pair` gives a list too many parameters. -/
def plants : List Declaration :=
  [.concrete "Int",
    .union "Tree" [⟨"Leaf", []⟩,
      ⟨"Node", [.reference "Int", .parametric "List" [.reference "Tree"]]⟩],
    .type "Growth" ∅ [] (.function [.reference "Int"]),
    .trait "Show" ∅ "a" [⟨"show", false, [.parameter "a", .reference "Int"]⟩],
    .type "Shown" ∅ [] (.intersection ["Show"]),
    .type "Pair" ∅ [] (.parametric "List" [.reference "Int", .reference "Int"])]

theorem build_wellFormed_plants :
    (∀ d ∈ plants, d.isPlain = true) ∧
      (Builder.declaring (some garden) plants).build.value.names
        = ["Tree", "Leaf", "Node", "Show", "Shown"] ∧
      ∀ p ∈ (Builder.declaring (some garden) plants).build.value.entries,
        (Builder.declaring (some garden) plants).build.value.get p.1 = .ok p.2 ∧
          p.2.Fits (Builder.declaring (some garden) plants).build.value.get? p.1 := by
  have h : ∀ d ∈ plants, d.isPlain = true := by decide +kernel
  exact ⟨h, by decide +kernel, (build_wellFormed (some garden) (regular_registrations h)).2.2⟩

end TypeEngine

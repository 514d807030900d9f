import TypeEngine.Proofs.Assemblies
import TypeEngine.Proofs.Erasure
import TypeEngine.Proofs.Unrolling

/-!
# Attributes along names

The walk from a type passes references, second names and labels before it stops. Each label it
passes stays around the result, and each second name adds its attributes. `Catalog.Route` is the
walk with all that it passes written down.

The attributes are merged on the way back, into a type that may have labels around it by then. They
nevertheless reach the type where the walk stopped, because replacing attributes goes through labels
in the same way as reading them (`Ty.addAttributes_underLabels`). So a type resolves to the one
where the walk stopped, with all attributes of the way added and under all labels of the way
(`resolve_accumulates`).
-/

namespace TypeEngine

/-! ## Attributes of a type -/

namespace Attributes

/-- The attributes of a set and of all further sets. -/
def join (s : Attributes) (sets : List Attributes) : Attributes :=
  sets.foldr (fun attributes joined => joined.union attributes) s

theorem mem_join {s : Attributes} {sets : List Attributes} {a : Attribute} :
    a ∈ s.join sets ↔ a ∈ s ∨ ∃ t ∈ sets, a ∈ t := by
  induction sets with
  | nil => simp [join]
  | cons t sets ih =>
    have hcons : s.join (t :: sets) = (s.join sets).union t := rfl
    rw [hcons, mem_union, ih, List.exists_mem_cons_iff, or_assoc]
    exact or_congr_right or_comm

end Attributes

namespace Ty

/-- Whether the type has a place for attributes: what is behind its labels, its directives and the
traits it implements is neither a parameter nor a reference. -/
def carriesAttributes : Ty → Bool
  | .labeled _ ty | .annotated _ ty | .impl _ ty => ty.carriesAttributes
  | .parameter .. | .reference _ => false
  | _ => true

theorem attributes_withAttributes (attributes : Attributes) (ty : Ty) :
    (ty.withAttributes attributes).attributes
      = if ty.carriesAttributes then attributes else ∅ := by
  induction ty with
  | labeled label ty ih | annotated directives ty ih | impl trait ty _ ih => exact ih
  | _ => rfl

theorem withAttributes_withAttributes (attributes attributes' : Attributes) (ty : Ty) :
    (ty.withAttributes attributes').withAttributes attributes = ty.withAttributes attributes := by
  induction ty with
  | labeled label ty ih | annotated directives ty ih | impl trait ty _ ih =>
    simp only [withAttributes, ih]
  | _ => rfl

theorem withAttributes_self (ty : Ty) : ty.withAttributes ty.attributes = ty := by
  have hrestore := withAttributes_restore ty.attributes ty
  rwa [withAttributes_withAttributes] at hrestore

/-- A type without a place for attributes stays as it is. -/
theorem withAttributes_of_not_carries {ty : Ty} (h : ¬ ty.carriesAttributes = true)
    (attributes : Attributes) : ty.withAttributes attributes = ty := by
  induction ty with
  | labeled label ty ih | annotated directives ty ih | impl trait ty _ ih =>
    rw [withAttributes, ih h]
  | parameter | reference => rfl
  | _ => exact absurd rfl h

/-! ## Types under labels -/

/-- Put labels around the type, the first one outermost. -/
def underLabels (labels : List String) (ty : Ty) : Ty :=
  labels.foldr .labeled ty

theorem underLabels_cons (label : String) (labels : List String) (ty : Ty) :
    ty.underLabels (label :: labels) = .labeled label (ty.underLabels labels) := rfl

theorem attributes_underLabels (labels : List String) (ty : Ty) :
    (ty.underLabels labels).attributes = ty.attributes := by
  induction labels with
  | nil => rfl
  | cons label labels ih => exact ih

theorem withAttributes_underLabels (labels : List String) (attributes : Attributes) (ty : Ty) :
    (ty.underLabels labels).withAttributes attributes
      = (ty.withAttributes attributes).underLabels labels := by
  induction labels with
  | nil => rfl
  | cons label labels ih => rw [underLabels_cons, withAttributes, ih, underLabels_cons]

theorem bare_underLabels (labels : List String) (ty : Ty) :
    (ty.underLabels labels).bare = ty.bare.underLabels labels := by
  induction labels with
  | nil => rfl
  | cons label labels ih => rw [underLabels_cons, bare_labeled, ih, underLabels_cons]

/-- **Attributes that are added behind labels** reach the same place as those that are there. -/
theorem addAttributes_underLabels (labels : List String) (attributes attributes' : Attributes)
    (ty : Ty) :
    ((ty.withAttributes attributes).underLabels labels).addAttributes attributes'
      = (ty.withAttributes (attributes.union attributes')).underLabels labels := by
  rw [addAttributes, withAttributes_underLabels, withAttributes_withAttributes,
    attributes_underLabels, attributes_withAttributes]
  by_cases hcarries : ty.carriesAttributes = true
  · rw [if_pos hcarries]
  · rw [withAttributes_of_not_carries hcarries, withAttributes_of_not_carries hcarries]

end Ty

/-! ## Routes -/

namespace Catalog

/-- `Route C ty labels sets F`: the walk from `ty` in `C` stops at `F`. On the way it passes these
labels, and second names with these sets of attributes. -/
inductive Route : Catalog → Ty → List String → List Attributes → Ty → Prop
  | stop {C : Catalog} {ty : Ty} : ty.stopsWalk = true → Route C ty [] [] ty
  | constructor {C O : Catalog} {label union : String} {attributes : Attributes} {F : Ty} :
      C.find? union = some (O, F) → Route C (.constructor label union attributes) [] [] F
  | labeled {C : Catalog} {label : String} {ty F : Ty} {labels : List String}
      {sets : List Attributes} :
      Route C ty labels sets F → Route C (.labeled label ty) (label :: labels) sets F
  | reference {C O : Catalog} {name : String} {target F : Ty} {labels : List String}
      {sets : List Attributes} : C.find? name = some (O, target) →
      Route O target labels sets F → Route C (.reference name) labels sets F
  | typeAlias {C : Catalog} {name : String} {attributes : Attributes} {F : Ty}
      {labels : List String} {sets : List Attributes} :
      Route C (.reference name) labels sets F →
      Route C (.typeAlias name attributes) labels (attributes :: sets) F

/-- There is one route from a type. -/
theorem Route.unique {C : Catalog} {ty F F' : Ty} {labels labels' : List String}
    {sets sets' : List Attributes} (h : C.Route ty labels sets F)
    (h' : C.Route ty labels' sets' F') : labels' = labels ∧ sets' = sets ∧ F' = F := by
  induction h generalizing labels' sets' F' with
  | stop hstop =>
    cases h' with
    | stop => exact ⟨rfl, rfl, rfl⟩
    | constructor | labeled | reference | typeAlias => cases hstop
  | constructor hfind =>
    cases h' with
    | stop hstop => cases hstop
    | constructor hfind' =>
      rw [hfind] at hfind'
      cases hfind'
      exact ⟨rfl, rfl, rfl⟩
  | labeled _ ih =>
    cases h' with
    | stop hstop => cases hstop
    | labeled h' =>
      obtain ⟨rfl, rfl, rfl⟩ := ih h'
      exact ⟨rfl, rfl, rfl⟩
  | reference hfind _ ih =>
    cases h' with
    | stop hstop => cases hstop
    | reference hfind' h' =>
      rw [hfind] at hfind'
      cases hfind'
      exact ih h'
  | typeAlias _ ih =>
    cases h' with
    | stop hstop => cases hstop
    | typeAlias h' =>
      obtain ⟨rfl, rfl, rfl⟩ := ih h'
      exact ⟨rfl, rfl, rfl⟩

/-- **What a walk gives:** the end of its route, with all attributes and all labels of the route. -/
theorem Walk.exists_route {C O : Catalog} {chain : List String} {T U : Ty}
    (h : Walk C chain T O U) :
    ∃ labels sets F, C.Route T labels sets F ∧
      U = (F.withAttributes (F.attributes.join sets)).underLabels labels := by
  induction h with
  | @stop C chain ty hstop => exact ⟨[], [], ty, .stop hstop, ty.withAttributes_self.symm⟩
  | @constructor C O chain label union attributes t hfind =>
    exact ⟨[], [], t, .constructor hfind, t.withAttributes_self.symm⟩
  | @labeled C O chain label ty t _ ih =>
    obtain ⟨labels, sets, F, hroute, rfl⟩ := ih
    exact ⟨label :: labels, sets, F, .labeled hroute, rfl⟩
  | reference _ hfind _ ih =>
    obtain ⟨labels, sets, F, hroute, rfl⟩ := ih
    exact ⟨labels, sets, F, .reference hfind hroute, rfl⟩
  | @typeAlias C O chain name attributes t _ ih =>
    obtain ⟨labels, sets, F, hroute, rfl⟩ := ih
    exact ⟨labels, attributes :: sets, F, .typeAlias hroute, Ty.addAttributes_underLabels ..⟩

end Catalog

/-- **Attributes accumulate along names.** In any registry, let a type resolve to `U`. The walk from
it passes certain labels and certain sets of attributes, and stops at a type `F`. Then `U` is `F`
under these labels, with attributes of its own: if `F` has a place for attributes, they are those of
`F` and of all the sets, and otherwise there are none. -/
theorem resolve_accumulates {R : Registry} {T U : Ty} (h : R.resolve T = .ok U) :
    ∃ labels sets F, R.toCatalog.Route T labels sets F ∧
      (∀ labels' sets' F', R.toCatalog.Route T labels' sets' F' →
        labels' = labels ∧ sets' = sets ∧ F' = F) ∧
      U.same (F.underLabels labels) = true ∧
      U = (F.withAttributes U.attributes).underLabels labels ∧
      (F.carriesAttributes = true → ∀ a, a ∈ U.attributes ↔ a ∈ F.attributes ∨ ∃ s ∈ sets, a ∈ s) ∧
      (F.carriesAttributes = false → U.attributes = ∅) := by
  obtain ⟨O, hwalk⟩ := Registry.resolve_eq_ok_iff.1 h
  obtain ⟨labels, sets, F, hroute, hU⟩ := hwalk.exists_route
  have hattributes : U.attributes
      = if F.carriesAttributes then F.attributes.join sets else ∅ := by
    rw [hU, Ty.attributes_underLabels, Ty.attributes_withAttributes]
  refine ⟨labels, sets, F, hroute, fun _ _ _ hroute' => hroute.unique hroute', ?_, ?_, ?_, ?_⟩
  · rw [Ty.same_iff, hU, Ty.bare_underLabels, Ty.bare_withAttributes, Ty.bare_underLabels]
  · rw [hattributes]
    split_ifs with hcarries
    · exact hU
    · rw [hU, Ty.withAttributes_of_not_carries hcarries, Ty.withAttributes_of_not_carries hcarries]
  · intro hcarries a
    rw [hattributes, if_pos hcarries, Attributes.mem_join]
  · intro hcarries
    rw [hattributes, hcarries, if_neg Bool.false_ne_true]

/-- Whole numbers, which are native. -/
def units : Registry :=
  .make none [("Whole", .numeric .int (.ofList [.native]))] []

/-- A second name for them, which is exported. -/
def counters : Registry :=
  .make (some units) [("Count", .typeAlias "Whole" (.ofList [.exported]))] []

/-- A registry that imports the counters, with a name for a labelled counter. -/
def gauges : Registry :=
  .make none
    [("Total", .typeAlias "Sum" (.ofList [.impure])),
      ("Sum", .labeled "sum" (.reference "Lib.Count"))]
    [("Lib", counters)]

/-- The total under a label. -/
def gaugeType : Ty :=
  .labeled "today" (.reference "Total")

def gaugeResolved : Ty :=
  .labeled "today" (.labeled "sum" (.numeric .int (.ofList [.native, .exported, .impure])))

theorem gauges_facts :
    gauges.resolve gaugeType = .ok gaugeResolved ∧
      gauges.entries.lookup "Total" = some (.typeAlias "Sum" (.ofList [.impure])) ∧
      gauges.entries.lookup "Sum" = some (.labeled "sum" (.reference "Lib.Count")) ∧
      gauges.entries.lookup "Lib.Count" = none ∧
      splitQualified "Lib.Count" = some ("Lib", "Count") ∧
      counters.entries.lookup "Count" = some (.typeAlias "Whole" (.ofList [.exported])) ∧
      counters.entries.lookup "Whole" = none ∧
      units.entries.lookup "Whole" = some (.numeric .int (.ofList [.native])) := by
  decide +kernel

/-- The route goes through an imported registry and its parent. -/
theorem gauges_route :
    gauges.toCatalog.Route gaugeType ["today", "sum"] [.ofList [.impure], .ofList [.exported]]
      (.numeric .int (.ofList [.native])) := by
  obtain ⟨-, htotal, hsum, hnone, hsplit, hcount, hnone', hwhole⟩ := gauges_facts
  have hlib : gauges.Sees "Lib.Count" counters.toCatalog "Count"
      (.typeAlias "Whole" (.ofList [.exported])) :=
    .of_module (.own hcount) "Lib" hnone hsplit rfl
  have hparent : counters.Sees "Whole" units.toCatalog "Whole"
      (.numeric .int (.ofList [.native])) :=
    .inherited hnone' rfl rfl (.own hwhole)
  exact .labeled (.reference (Catalog.Sees.own htotal).find?
    (.typeAlias (.reference (Catalog.Sees.own hsum).find?
      (.labeled (.reference hlib.find?
        (.typeAlias (.reference hparent.find? (.stop rfl))))))))

/-- The total of today is a whole number under two labels, and it has the attributes of all three
registries. -/
theorem resolve_accumulates_gauges :
    gauges.resolve gaugeType = .ok gaugeResolved ∧
      gaugeResolved.same ((Ty.numeric .int (.ofList [.native])).underLabels ["today", "sum"])
        = true ∧
      ∀ a, a ∈ gaugeResolved.attributes ↔ a ∈ Attributes.ofList [.native] ∨
        ∃ s ∈ [Attributes.ofList [.impure], .ofList [.exported]], a ∈ s := by
  have hresolve := gauges_facts.1
  obtain ⟨labels, sets, F, -, hunique, hsame, -, hattributes, -⟩ := resolve_accumulates hresolve
  obtain ⟨rfl, rfl, rfl⟩ := hunique _ _ _ gauges_route
  exact ⟨hresolve, hsame, hattributes rfl⟩

end TypeEngine

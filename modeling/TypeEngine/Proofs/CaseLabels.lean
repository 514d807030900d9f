import TypeEngine.Proofs.Assemblies
import TypeEngine.Proofs.Closedness
import TypeEngine.Proofs.Compatibility

/-!
# Case labels and the unions that take them

A case label belongs to the union that declares it. Unification recognizes it in two other ways: by
its spelling, and by the name of the type it was declared in (`Registry.takes_label_iff`). This
module says when these come to the same.

`union_takes_labels` lists all ways in which a union can take a label. It takes its own labels. But
it also takes a label of another catalog that is spelled like one of its own, a label whose type's
name means something else in the registry that is asked, and a label of a union nested inside it.
The first two need modules that are imported side by side. In a registry that is declared in layers
only the last one is left, because there a label is found under its own name everywhere.
-/

namespace TypeEngine

namespace Ty

@[simp] theorem caseLabels_bare (ty : Ty) : ty.bare.caseLabels = ty.caseLabels := by
  cases ty with
  | union cases attributes => simp [bare, mapAttributes, caseLabels, CaseOf.map]
  | _ => rfl

theorem caseLabels_of_same {X Y : Ty} (h : X.same Y = true) : X.caseLabels = Y.caseLabels := by
  rw [← caseLabels_bare X, same_iff.1 h, caseLabels_bare]

theorem contains_inner (ty : Ty) : ty.Contains ty.inner := by
  induction ty with
  | labeled label ty ih => exact .inside (List.mem_singleton_self ty) ih
  | annotated directives ty ih => exact .inside (List.mem_singleton_self ty) ih
  | _ => exact .self _

/-- The cases of a type lie behind its labels and directives. -/
theorem HasCase.inner {ty : Ty} {label : String} (h : ty.HasCase label) :
    ty.inner.HasCase label := by
  induction ty with
  | labeled _ ty ih | annotated _ ty ih =>
    rcases hasCase_iff.1 h with hlabel | ⟨t, ht, h⟩
    · cases hlabel
    · rw [List.mem_singleton.1 ht] at h
      exact ih h
  | _ => exact h

theorem HasCase.isParameter_inner {ty : Ty} {label : String} (h : ty.HasCase label) :
    ty.inner.isParameter = false := by
  have hinner := h.inner
  cases hty : ty.inner with
  | parameter =>
    rw [hty] at hinner
    exact absurd hinner (not_hasCase_of_leaf rfl rfl)
  | _ => rfl

/-- The type declares the label for a union that is equal to `U`. -/
def DeclaresFor (ty : Ty) (label : String) (U : Ty) : Prop :=
  ∃ X, ty.Contains X ∧ label ∈ X.caseLabels ∧ X.same U = true

theorem DeclaresFor.mem_caseLabels {ty U : Ty} {label : String} (h : ty.DeclaresFor label U) :
    label ∈ U.caseLabels := by
  obtain ⟨X, -, hlabel, hsame⟩ := h
  rwa [← caseLabels_of_same hsame]

/-- A type behind which the union is found declares the label for the union, or for one that is
nested in it. -/
theorem HasCase.declaresFor_or_nested {ty U : Ty} {label : String} (h : ty.HasCase label)
    (hU : ty.inner.isParameter = true ∨ ty.inner.same U = true) :
    ty.DeclaresFor label U ∨ ty.inner.same U = true ∧ label ∉ U.caseLabels := by
  have hsame : ty.inner.same U = true := by simpa [h.isParameter_inner] using hU
  by_cases hlabel : label ∈ U.caseLabels
  · exact .inl ⟨ty.inner, ty.contains_inner, by rwa [caseLabels_of_same hsame], hsame⟩
  · exact .inr ⟨hsame, hlabel⟩

end Ty

/-- Unification takes the actual type where the expected one stands. -/
def Registry.Takes (R : Registry) (location : Location) (implements : Checker)
    (expected actual : Ty) : Prop :=
  ∃ v, R.unify location expected actual implements = .ok v

namespace Registry

variable {R : Registry}

theorem resolve_label (label union : String) (attributes : Attributes) :
    R.resolve (.constructor label union attributes) = R.get union := by
  obtain ⟨n, hn⟩ := R.exists_walkFuel (.constructor label union attributes)
  rw [resolve, resolveOwned, hn, Catalog.resolveWithin, Catalog.getOwned, Catalog.get, Catalog.get?]
  cases R.find? union <;> rfl

/-- **Which case labels a union takes:** those that are spelled like one of its own, and those
whose type's name stands, in the registry that is asked, for the union or for a variable. -/
theorem takes_label_iff {location : Location} {implements : Checker} {U : Ty}
    (hU : U.isUnion = true) {label union : String} {b : Attributes} :
    R.Takes location implements U (.constructor label union b)
      ↔ label ∈ U.caseLabels ∨ ∃ t, R.get? union = some t ∧
        (t.inner.isParameter = true ∨ t.inner.same U = true) := by
  obtain ⟨cases, a, rfl⟩ : ∃ cases a, U = .union cases a := by
    cases U <;> first | exact ⟨_, _, rfl⟩ | cases hU
  have hany : cases.any (·.label == label) = true ↔ label ∈ (Ty.union cases a).caseLabels := by
    simp [Ty.caseLabels]
  have hresolve {t : Ty} : R.resolve (.constructor label union b) = .ok t
      ↔ R.get? union = some t := by
    rw [resolve_label, Catalog.get]
    cases R.get? union <;> simp
  obtain ⟨n, hn⟩ : ∃ n, R.pairFuel (.union cases a) (.constructor label union b) = n + 1 :=
    Nat.exists_eq_succ_of_ne_zero (by simp [pairFuel, reach])
  simp only [Takes, unify, Setting.unify, hn, Setting.unifyWithin_succ_eq_ok, ← hany, ← hresolve]
  constructor
  · rintro ⟨v, hv⟩
    cases hv with
    | absorbed _ ht hparam => exact .inr ⟨_, ht, .inl hparam⟩
    | whole _ ht hsame => exact .inr ⟨_, ht, .inr hsame⟩
    | label h => exact .inl h
    | itself _ hsame => simp [Ty.same, Ty.sameUnder] at hsame
    | compound _ _ hshell => cases hshell
    | name hkind | bound hkind | implemented hkind => cases hkind
  · rintro (h | ⟨t, ht, hparam | hsame⟩)
    · exact ⟨_, .label h⟩
    · exact ⟨_, .absorbed rfl ht hparam⟩
    · exact ⟨_, .whole rfl ht hsame⟩

end Registry

/-! ## Where a case label belongs -/

namespace Catalog

/-- In a coherent catalog, a union takes labels of its own spelling for its own. -/
theorem Coherent.declaresFor {C : Catalog} (hC : C.Coherent) {own label n : String} {U t : Ty}
    {b : Attributes} (hU : C.entries.lookup own = some U) (hlabel : label ∈ U.caseLabels)
    (hname : C.entries.lookup label = some (.constructor label n b))
    (ht : C.entries.lookup n = some t) : t.DeclaresFor label U := by
  obtain ⟨attributes, hown⟩ := hC.label hU ⟨U, .self U, hlabel⟩
  rw [hname] at hown
  cases hown
  rw [hU] at ht
  cases ht
  exact ⟨U, .self U, hlabel, U.same_refl⟩

/-- Two layers do not declare the same name. -/
theorem Layered.eq_of_lookup {R O P : Catalog} (hR : R.Layered) (hO : O.Under R) (hP : P.Under R)
    {name : String} {t t' : Ty} (h : O.entries.lookup name = some t)
    (h' : P.entries.lookup name = some t') : O = P := by
  have hfind := hR.find?_of_under hO (Sees.own h).find?
  rw [hR.find?_of_under hP (Sees.own h').find?] at hfind
  cases hfind
  rfl

end Catalog

/-- **Which labels a union takes.** The label was declared in the type `t` of `P`. The union takes
it if `t` declares it for a union equal to this one, and otherwise in three cases: it is spelled
like a label of the union, but belongs to another catalog; the name of `t` means another type here,
which is the union or a variable; or `t` is the union, and the label is one of a union nested in it.
In a registry that is declared in layers only the last of the three can arise. -/
theorem union_takes_labels {B : Built} (hB : Assembled Registration.Plain B)
    {u l label n : String} {O P : Catalog} {U : Ty} {b : Attributes}
    (hu : B.value.find? u = some (O, U)) (hU : U.isUnion = true)
    (hl : B.value.find? l = some (P, .constructor label n b)) (location : Location)
    (implements : Checker) :
    ∃ t, P.entries.lookup n = some t ∧ t.HasCase label ∧
      (B.value.Takes location implements U (.constructor label n b) ↔
        t.DeclaresFor label U ∨
        (O ≠ P ∧ label ∈ U.caseLabels) ∨
        (∃ Q t', B.value.find? n = some (Q, t') ∧ (Q, t') ≠ (P, t) ∧
          (t'.inner.isParameter = true ∨ t'.inner.same U = true)) ∨
        (B.value.find? n = some (P, t) ∧ t.inner.same U = true ∧ label ∉ U.caseLabels)) ∧
      (DeclaredInLayers B →
        (B.value.Takes location implements U (.constructor label n b) ↔
          t.DeclaresFor label U ∨ t.inner.same U = true ∧ label ∉ U.caseLabels)) := by
  obtain ⟨own, hown⟩ := Catalog.exists_sees hu
  obtain ⟨name, hname⟩ := Catalog.exists_sees hl
  have hO := hB.coherent_of_find? hu
  have hP := hB.coherent_of_find? hl
  obtain ⟨rfl, t, ht, hcase⟩ := hP.owner hname.lookup
  have hown' (hlabel : name ∈ U.caseLabels) (heq : O = P) : t.DeclaresFor name U := by
    subst heq
    exact hO.declaresFor hown.lookup hlabel hname.lookup ht
  have hget {t' : Ty} : B.value.get? n = some t' ↔ ∃ Q, B.value.find? n = some (Q, t') := by
    simp [Catalog.get?]
  refine ⟨t, ht, hcase, ?takes, fun hlayers => Iff.trans ?takes ?layers⟩
  case takes =>
    rw [Registry.takes_label_iff hU]
    constructor
    · rintro (hlabel | ⟨t', ht', htaken⟩)
      · by_cases heq : O = P
        · exact .inl (hown' hlabel heq)
        · exact .inr (.inl ⟨heq, hlabel⟩)
      · obtain ⟨Q, hQ⟩ := hget.1 ht'
        by_cases heq : (Q, t') = (P, t)
        · cases heq
          exact (hcase.declaresFor_or_nested htaken).imp_right fun h => .inr (.inr ⟨hQ, h⟩)
        · exact .inr (.inr (.inl ⟨Q, t', hQ, heq, htaken⟩))
    · rintro (hdeclares | ⟨-, hlabel⟩ | ⟨Q, t', hQ, -, htaken⟩ | ⟨hQ, hinner, -⟩)
      · exact .inl hdeclares.mem_caseLabels
      · exact .inl hlabel
      · exact .inr ⟨t', hget.2 ⟨Q, hQ⟩, htaken⟩
      · exact .inr ⟨t, hget.2 ⟨P, hQ⟩, .inr hinner⟩
  case layers =>
    -- Both the label and the name of its type are found under themselves everywhere.
    have hlayered := hlayers.builtInLayers.layered
    have hunder := hlayered.under_of_find? hl
    have hfind := hlayered.find?_of_under hunder (Catalog.Sees.own ht).find?
    constructor
    · rintro (hdeclares | ⟨hne, hlabel⟩ | ⟨Q, t', hQ, hne, -⟩ | ⟨-, hnested⟩)
      · exact .inl hdeclares
      · obtain ⟨_, hlookup⟩ := hO.label hown.lookup ⟨U, .self U, hlabel⟩
        exact absurd
          (hlayered.eq_of_lookup (hlayered.under_of_find? hu) hunder hlookup hname.lookup) hne
      · rw [hfind] at hQ
        exact absurd (Option.some.inj hQ).symm hne
      · exact .inr hnested
    · rintro (hdeclares | hnested)
      · exact .inl hdeclares
      · exact .inr (.inr (.inr ⟨hfind, hnested⟩))

/-! ## Labels that a union takes wrongly -/

/-- A union whose cases have no parameters. -/
def choice (labels : List String) : Ty :=
  .union (labels.map fun label => ⟨label, []⟩) ∅

theorem caseLabels_choice (labels : List String) : (choice labels).caseLabels = labels := by
  simp [choice, Ty.caseLabels, Function.comp_def]

/-- Without parameters there is no union inside, and other labels make another union. -/
theorem not_declaresFor_choice {labels : List String} {label : String} {U : Ty}
    (h : labels ≠ U.caseLabels) : ¬ (choice labels).DeclaresFor label U := by
  rintro ⟨X, hX, -, hsame⟩
  cases hX with
  | self => exact h ((caseLabels_choice labels).symm.trans (Ty.caseLabels_of_same hsame))
  | inside ht => simp [choice, Ty.children] at ht

/-- Colors, red and green. -/
def paint : Built :=
  (Builder.declaring none [.union "Color" [⟨"Red", []⟩, ⟨"Green", []⟩]]).build

/-- Lights, red and amber. -/
def lamps : Built :=
  (Builder.declaring none [.union "Light" [⟨"Red", []⟩, ⟨"Amber", []⟩]]).build

/-- A registry beside both. -/
def street : Built :=
  Registry.ofModules none [("Paint", paint), ("Lamps", lamps)]

/-- A registry over the street, with lights of its own. -/
def house : Built :=
  (Builder.declaring (some street) [.union "Light" [⟨"On", []⟩, ⟨"Off", []⟩]]).build

/-- Shapes, with a union inside the union. -/
def sketch : Built :=
  (Builder.declaring none [.union "Shape" [⟨"Node", [.union [⟨"Leaf", []⟩]]⟩]]).build

theorem street_facts :
    paint.value.entries.lookup "Color" = some (choice ["Red", "Green"]) ∧
    lamps.value.entries.lookup "Color" = none ∧
    lamps.value.entries.lookup "Light" = some (choice ["Red", "Amber"]) ∧
    lamps.value.entries.lookup "Red" = some (.constructor "Red" "Light" ∅) ∧
    lamps.value.entries.lookup "Amber" = some (.constructor "Amber" "Light" ∅) ∧
    house.value.entries.lookup "Light" = some (choice ["On", "Off"]) ∧
    house.value.entries.lookup "Lamps.Amber" = none ∧
    sketch.value.entries.lookup "Shape" = some (.union [⟨"Node", [choice ["Leaf"]]⟩] ∅) ∧
    sketch.value.entries.lookup "Leaf" = some (.constructor "Leaf" "Shape" ∅) := by
  decide +kernel

theorem street_assembled : Assembled Registration.Plain street := by
  have hnone (P : Built) : none = some P → Assembled Registration.Plain P := by
    intro h
    cases h
  refine .modules hnone ?_
  simp only [List.mem_cons, List.not_mem_nil, or_false, forall_eq_or_imp, forall_eq]
  exact ⟨.declaring hnone (by decide), .declaring hnone (by decide)⟩

theorem house_assembled : Assembled Registration.Plain house := by
  refine .declaring ?_ (by decide)
  rintro _ ⟨⟩
  exact street_assembled

theorem sketch_assembled : Assembled Registration.Plain sketch := by
  refine .declaring ?_ (by decide)
  rintro _ ⟨⟩

/-- The colors take the red of the lamps, because they have a red as well. The switch of the house
takes amber, because it has the name of the lights. And shapes take the leaf of the union inside
them. None of these labels was declared for the union that takes it. -/
theorem union_takes_labels_street :
    (street.value.get? "Paint.Color" = some (choice ["Red", "Green"]) ∧
      street.value.get? "Lamps.Red" = some (.constructor "Red" "Light" ∅) ∧
      street.value.Takes default (fun _ _ => false) (choice ["Red", "Green"])
        (.constructor "Red" "Light" ∅) ∧
      ¬ (choice ["Red", "Amber"]).DeclaresFor "Red" (choice ["Red", "Green"])) ∧
    (house.value.get? "Light" = some (choice ["On", "Off"]) ∧
      house.value.get? "Lamps.Amber" = some (.constructor "Amber" "Light" ∅) ∧
      house.value.Takes default (fun _ _ => false) (choice ["On", "Off"])
        (.constructor "Amber" "Light" ∅) ∧
      ¬ (choice ["Red", "Amber"]).DeclaresFor "Amber" (choice ["On", "Off"])) ∧
    (sketch.value.get? "Shape" = some (.union [⟨"Node", [choice ["Leaf"]]⟩] ∅) ∧
      sketch.value.get? "Leaf" = some (.constructor "Leaf" "Shape" ∅) ∧
      sketch.value.Takes default (fun _ _ => false) (.union [⟨"Node", [choice ["Leaf"]]⟩] ∅)
        (.constructor "Leaf" "Shape" ∅) ∧
      ¬ (Ty.union [⟨"Node", [choice ["Leaf"]]⟩] ∅).DeclaresFor "Leaf"
        (.union [⟨"Node", [choice ["Leaf"]]⟩] ∅)) := by
  obtain ⟨hcolor, hnone, hlight, hred, hamber, hswitch, hunseen, hshape, hleaf⟩ := street_facts
  have hpaint : street.value.Sees "Paint.Color" paint.value.toCatalog "Color"
      (choice ["Red", "Green"]) := (Catalog.Sees.own hcolor).of_module "Paint" rfl (by decide) rfl
  have hlampsRed : street.value.Sees "Lamps.Red" lamps.value.toCatalog "Red"
      (.constructor "Red" "Light" ∅) :=
    (Catalog.Sees.own hred).of_module "Lamps" rfl (by decide) rfl
  have hlampsAmber : street.value.Sees "Lamps.Amber" lamps.value.toCatalog "Amber"
      (.constructor "Amber" "Light" ∅) :=
    (Catalog.Sees.own hamber).of_module "Lamps" rfl (by decide) rfl
  have hget {R : Registry} {name own : String} {O : Catalog} {ty : Ty}
      (h : R.toCatalog.Sees name O own ty) : R.get? name = some ty := by
    rw [Catalog.get?, h.find?]
    rfl
  have hne : paint.value.toCatalog ≠ lamps.value.toCatalog := by
    intro heq
    rw [heq, hnone] at hcolor
    cases hcolor
  have houseSwitch : house.value.Sees "Light" house.value.toCatalog "Light"
      (choice ["On", "Off"]) := .own hswitch
  have houseAmber : house.value.Sees "Lamps.Amber" lamps.value.toCatalog "Amber"
      (.constructor "Amber" "Light" ∅) := hlampsAmber.of_parent hunseen
  have hsketch : sketch.value.Sees "Shape" sketch.value.toCatalog "Shape"
      (.union [⟨"Node", [choice ["Leaf"]]⟩] ∅) := .own hshape
  refine ⟨⟨hget hpaint, hget hlampsRed, ?_, not_declaresFor_choice (by decide)⟩,
    ⟨hget houseSwitch, hget houseAmber, ?_, not_declaresFor_choice (by decide)⟩,
    hget hsketch, hget (.own hleaf), ?_, ?_⟩
  · obtain ⟨_, -, -, htakes, -⟩ := union_takes_labels street_assembled hpaint.find? rfl
      hlampsRed.find? default (fun _ _ => false)
    exact htakes.2 (.inr (.inl ⟨hne, by decide⟩))
  · obtain ⟨t, ht, -, htakes, -⟩ := union_takes_labels house_assembled houseSwitch.find? rfl
      houseAmber.find? default (fun _ _ => false)
    rw [hlight] at ht
    cases ht
    refine htakes.2 (.inr (.inr (.inl ⟨_, _, houseSwitch.find?, ?_, .inr (Ty.same_refl _)⟩)))
    exact fun heq => absurd (congrArg (·.2.caseLabels) heq) (by decide)
  · obtain ⟨t, ht, -, htakes, -⟩ := union_takes_labels sketch_assembled hsketch.find? rfl
      (Catalog.Sees.own hleaf).find? default (fun _ _ => false)
    rw [hshape] at ht
    cases ht
    exact htakes.2 (.inr (.inr (.inr ⟨hsketch.find?, Ty.same_refl _, by decide⟩)))
  · rintro ⟨X, hX, hlabel, hsame⟩
    cases hX with
    | self => simp [Ty.caseLabels] at hlabel
    | inside ht hX =>
      simp only [Ty.children, List.flatMap_cons, List.flatMap_nil, List.append_nil,
        List.mem_singleton] at ht
      subst ht
      exact not_declaresFor_choice (by decide) ⟨X, hX, hlabel, hsame⟩

end TypeEngine

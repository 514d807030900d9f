import TypeEngine.Catalog

/-!
# Layers

A catalog without modules is a stack of layers, each over its parent. In a `Layered` catalog no
layer declares a name that is visible from the layer below it. A name then means the same in every
layer that sees it (`find?_of_under`), so a type may be carried up from the layer that declares it.

A walk along names in such a stack enters every declaration at most once. `unseen` adds up the
types that it has not entered yet; entering one takes its weight off (`unseen_enter`).
-/

namespace TypeEngine.Catalog

/-- Layers without modules, none of which declares a name that is visible from below. -/
inductive Layered : Catalog → Prop
  | base (entries : List (String × Ty)) : Layered ⟨none, entries, []⟩
  | above {P : Catalog} {entries : List (String × Ty)} : Layered P →
      (∀ p ∈ entries, P.find? p.1 = none) → Layered ⟨some P, entries, []⟩

/-- `Under O C`: `O` is `C` or one of the layers below it. -/
inductive Under : Catalog → Catalog → Prop
  | refl (C : Catalog) : Under C C
  | above {O P : Catalog} {entries : List (String × Ty)} {imports : List (String × Catalog)} :
      Under O P → Under O ⟨some P, entries, imports⟩

theorem Under.trans {A B C : Catalog} (hAB : A.Under B) (hBC : B.Under C) : A.Under C := by
  induction hBC with
  | refl => exact hAB
  | above _ ih => exact .above ih

theorem Layered.of_under {O C : Catalog} (hC : C.Layered) (h : O.Under C) : O.Layered := by
  induction h with
  | refl => exact hC
  | above _ ih =>
    cases hC with
    | above hP _ => exact ih hP

/-! ## Looking up names -/

/-- Without modules, a look-up goes from the catalog's own types to the parent. -/
theorem find?_layer (parent : Option Catalog) (entries : List (String × Ty)) (name : String) :
    find? ⟨parent, entries, []⟩ name
      = match entries.lookup name with
        | some ty => some (⟨parent, entries, []⟩, ty)
        | none => findParent? parent name := by
  rw [find?]
  cases entries.lookup name with
  | some ty => rfl
  | none =>
    cases splitQualified name with
    | none => rfl
    | some parts => rfl

theorem mem_of_lookup {α : Type} {name : String} {a : α} {l : List (String × α)}
    (h : l.lookup name = some a) : (name, a) ∈ l := by
  obtain ⟨l, r, rfl, -⟩ := List.lookup_eq_some_iff.1 h
  simp

theorem Layered.under_of_find? {C O : Catalog} {name : String} {ty : Ty} (hC : C.Layered)
    (h : C.find? name = some (O, ty)) : O.Under C := by
  induction hC with
  | base entries =>
    rw [find?_layer] at h
    cases hl : entries.lookup name with
    | some t =>
      rw [hl] at h
      cases h
      exact .refl _
    | none =>
      rw [hl] at h
      cases h
  | @above P entries hP hnew ih =>
    rw [find?_layer] at h
    cases hl : entries.lookup name with
    | some t =>
      rw [hl] at h
      cases h
      exact .refl _
    | none =>
      rw [hl] at h
      exact .above (ih h)

/-- **A name means the same in every layer that sees it.** -/
theorem Layered.find?_of_under {O C : Catalog} {name : String} {found : Catalog × Ty}
    (hC : C.Layered) (hO : O.Under C) (h : O.find? name = some found) :
    C.find? name = some found := by
  induction hO with
  | refl => exact h
  | @above P entries imports _ ih =>
    cases hC with
    | above hP hnew =>
      have hfound := ih hP
      rw [find?_layer]
      cases hl : entries.lookup name with
      | some t =>
        -- The upper layer would declare a name that the lower one sees.
        rw [hnew _ (mem_of_lookup hl)] at hfound
        cases hfound
      | none => exact hfound

/-! ## What a walk has not entered yet -/

mutual

/-- The declarations of all layers, the upper ones first. -/
def declared : Catalog → List (String × Ty)
  | ⟨parent, entries, _⟩ => entries ++ declaredBelow parent

def declaredBelow : Option Catalog → List (String × Ty)
  | none => []
  | some C => C.declared

end

theorem declared_sublist {O C : Catalog} (h : O.Under C) : O.declared.Sublist C.declared := by
  induction h with
  | refl => exact List.Sublist.refl _
  | above _ ih => exact ih.trans (List.sublist_append_right _ _)

theorem Layered.mem_declared {C O : Catalog} {name : String} {ty : Ty} (hC : C.Layered)
    (h : C.find? name = some (O, ty)) : (name, ty) ∈ O.declared := by
  induction hC with
  | base entries =>
    rw [find?_layer] at h
    cases hl : entries.lookup name with
    | some t =>
      rw [hl] at h
      cases h
      exact List.mem_append_left _ (mem_of_lookup hl)
    | none =>
      rw [hl] at h
      cases h
  | @above P entries hP hnew ih =>
    rw [find?_layer] at h
    cases hl : entries.lookup name with
    | some t =>
      rw [hl] at h
      cases h
      exact List.mem_append_left _ (mem_of_lookup hl)
    | none =>
      rw [hl] at h
      exact ih h

/-- The weight of the declarations whose names are not on the chain. -/
def unseen (C : Catalog) (chain : List String) : Nat :=
  weightAll ((C.declared.filter fun p => decide (p.1 ∉ chain)).map (·.2))

theorem weightAll_sublist {ts us : List Ty} (h : ts.Sublist us) : weightAll ts ≤ weightAll us := by
  induction h with
  | slnil => exact Nat.le_refl _
  | cons u _ ih => rw [weightAll]; omega
  | cons_cons u _ ih => rw [weightAll, weightAll]; omega

theorem unseen_le_of_under {O C : Catalog} (h : O.Under C) (chain : List String) :
    O.unseen chain ≤ C.unseen chain :=
  weightAll_sublist (((declared_sublist h).filter _).map _)

theorem Layered.unseen_le_weight {C : Catalog} (hC : C.Layered) (chain : List String) :
    C.unseen chain ≤ C.weight := by
  refine Nat.le_trans (weightAll_sublist (List.filter_sublist.map _)) ?_
  induction hC with
  | base entries => simp [declared, declaredBelow, weight, weightParent, weightImports]
  | above _ _ ih =>
    rw [declared, declaredBelow, List.map_append, weightAll_append, weight, weightParent]
    omega

theorem Layered.weight_le_of_under {O C : Catalog} (hC : C.Layered) (h : O.Under C) :
    O.weight ≤ C.weight := by
  induction h with
  | refl => exact Nat.le_refl _
  | above _ ih =>
    cases hC with
    | above hP _ =>
      have := ih hP
      rw [weight, weightParent]
      omega

theorem Layered.weight_le_of_find? {C O : Catalog} {name : String} {ty : Ty} (hC : C.Layered)
    (h : C.find? name = some (O, ty)) : ty.weight ≤ C.weight := by
  refine Nat.le_trans ?_ (hC.unseen_le_weight [])
  refine Nat.le_trans ?_ (unseen_le_of_under (hC.under_of_find? h) [])
  refine weight_le_weightAll (List.mem_map.2 ⟨(name, ty), ?_, rfl⟩)
  exact List.mem_filter.2 ⟨hC.mem_declared h, by simp⟩

theorem weightAll_filter_ne {name : String} {ty : Ty} {l : List (String × Ty)}
    (hmem : (name, ty) ∈ l) :
    ty.weight + weightAll ((l.filter fun p => decide (p.1 ≠ name)).map (·.2))
      ≤ weightAll (l.map (·.2)) := by
  induction l with
  | nil => cases hmem
  | cons p l ih =>
    rw [List.map_cons, weightAll, List.filter_cons]
    rcases List.mem_cons.1 hmem with rfl | hmem
    · rw [if_neg (by simp)]
      exact Nat.add_le_add_left (weightAll_sublist (List.filter_sublist.map _)) _
    · have := ih hmem
      split
      · rw [List.map_cons, weightAll]
        omega
      · omega

/-- Entering a declaration takes its weight off what is unseen. -/
theorem Layered.weight_add_unseen_le {C O : Catalog} {name : String} {ty : Ty}
    {chain : List String} (hC : C.Layered) (h : C.find? name = some (O, ty))
    (hnew : name ∉ chain) : ty.weight + C.unseen (chain ++ [name]) ≤ C.unseen chain := by
  have hmem : (name, ty) ∈ C.declared.filter fun p => decide (p.1 ∉ chain) := by
    refine List.mem_filter.2 ⟨?_, by simpa using hnew⟩
    exact (declared_sublist (hC.under_of_find? h)).subset (hC.mem_declared h)
  have hsplit : (C.declared.filter fun p => decide (p.1 ∉ chain ++ [name]))
      = (C.declared.filter fun p => decide (p.1 ∉ chain)).filter fun p => decide (p.1 ≠ name) := by
    rw [List.filter_filter]
    refine List.filter_congr fun p _ => ?_
    simp [and_comm]
  unfold unseen
  rw [hsplit]
  exact weightAll_filter_ne hmem

theorem Layered.unseen_enter {C O : Catalog} {name : String} {ty : Ty} {chain : List String}
    (hC : C.Layered) (h : C.find? name = some (O, ty)) (hnew : name ∉ chain) :
    ty.weight + O.unseen (chain ++ [name]) ≤ C.unseen chain := by
  have := hC.weight_add_unseen_le h hnew
  have := unseen_le_of_under (hC.under_of_find? h) (chain ++ [name])
  omega

end TypeEngine.Catalog

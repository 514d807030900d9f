import Mathlib.Tactic.SplitIfs
import TypeEngine.Proofs.Binds
import TypeEngine.Proofs.Layers
import TypeEngine.Registry.Resolve

/-!
# Walks along names

Resolving a type walks along names, each in the catalog that declares it. `Walk` is that walk
without fuel: it relates a type to the type where the walk stops. A resolution that succeeds is a
walk (`walk_of_resolveWithin`), and every walk is found with enough fuel
(`Walk.resolveWithin_eq_ok`).

In a layered catalog the nodes of the catalog are fuel enough: beyond them, the outcome of a
resolution does not depend on the amount (`resolveWithin_eq_of_le`).
-/

namespace TypeEngine

/-- Whether a walk stops at the type: it is no name, no label and no case label. -/
def Ty.stopsWalk : Ty → Bool
  | .reference _ | .typeAlias .. | .labeled .. | .constructor .. => false
  | _ => true

theorem Ty.weight_withAttributes (a : Attributes) (ty : Ty) :
    (ty.withAttributes a).weight = ty.weight := by
  induction ty with
  | impl trait implementation _ ih => rw [withAttributes, weight, weight, ih]
  | labeled label ty ih => rw [withAttributes, weight, weight, ih]
  | annotated directives ty ih => rw [withAttributes, weight, weight, ih]
  | trait trait | fixedTrait trait =>
    cases trait
    rfl
  | method method =>
    cases method
    rfl
  | _ => rfl

namespace Catalog

/-! ## The steps of a walk -/

theorem resolveWithin_reference (n : Nat) (C : Catalog) (chain : List String) (name : String) :
    resolveWithin (n + 1) C chain (.reference name)
      = if name ∈ chain then .error (.cyclicAlias chain name)
        else match C.find? name with
          | some (O, ty) => resolveWithin n O (chain ++ [name]) ty
          | none => .error (.typeNotFound name) := by
  rw [resolveWithin, enterAlias, getOwned]
  split_ifs
  · rfl
  · cases C.find? name <;> rfl

theorem resolveWithin_typeAlias (n : Nat) (C : Catalog) (chain : List String) (name : String)
    (attributes : Attributes) :
    resolveWithin (n + 1) C chain (.typeAlias name attributes)
      = (resolveWithin (n + 1) C chain (.reference name)).map
          fun r => (r.1, r.2.addAttributes attributes) := by
  rw [resolveWithin_reference, resolveWithin, enterAlias, getOwned]
  split_ifs
  · rfl
  · cases C.find? name with
    | none => rfl
    | some found =>
      obtain ⟨O, ty⟩ := found
      show (resolveWithin n O (chain ++ [name]) ty >>= fun r => _)
        = (resolveWithin n O (chain ++ [name]) ty).map _
      cases resolveWithin n O (chain ++ [name]) ty <;> rfl

theorem resolveWithin_labeled (n : Nat) (C : Catalog) (chain : List String) (label : String)
    (ty : Ty) :
    resolveWithin (n + 1) C chain (.labeled label ty)
      = (resolveWithin n C chain ty).map fun r => (r.1, .labeled label r.2) := by
  rw [resolveWithin]
  cases resolveWithin n C chain ty <;> rfl

/-- More fuel does not change where a walk ends. -/
theorem resolveWithin_mono {j k : Nat} (hjk : j ≤ k) {C : Catalog} {chain : List String} {ty : Ty}
    {r : Catalog × Ty} (h : resolveWithin j C chain ty = .ok r) :
    resolveWithin k C chain ty = .ok r := by
  induction j generalizing k C chain ty r with
  | zero => cases h
  | succ j ih =>
    obtain ⟨k, rfl⟩ : ∃ k', k = k' + 1 := ⟨k - 1, by omega⟩
    have hreference {name : String} {r : Catalog × Ty}
        (h : resolveWithin (j + 1) C chain (.reference name) = .ok r) :
        resolveWithin (k + 1) C chain (.reference name) = .ok r := by
      rw [resolveWithin_reference] at h ⊢
      split_ifs at h ⊢
      cases hf : C.find? name with
      | none => rw [hf] at h; cases h
      | some found =>
        rw [hf] at h
        exact ih (by omega) h
    cases ty with
    | reference name => exact hreference h
    | typeAlias name attributes =>
      rw [resolveWithin_typeAlias] at h ⊢
      cases hr : resolveWithin (j + 1) C chain (.reference name) with
      | error e => rw [hr] at h; cases h
      | ok q => rwa [hreference hr, ← hr]
    | labeled label ty =>
      rw [resolveWithin_labeled] at h ⊢
      cases hr : resolveWithin j C chain ty with
      | error e => rw [hr] at h; cases h
      | ok q => rwa [ih (by omega) hr, ← hr]
    | _ => exact h

/-- **Enough fuel is enough.** Beyond what is unseen, the amount of fuel does not matter. -/
theorem Layered.resolveWithin_eq_of_le {C : Catalog} (hC : C.Layered) {j k : Nat}
    {chain : List String} {ty : Ty} (hj : ty.weight + C.unseen chain ≤ j)
    (hk : ty.weight + C.unseen chain ≤ k) :
    resolveWithin j C chain ty = resolveWithin k C chain ty := by
  induction j generalizing k C chain ty with
  | zero => have := ty.weight_pos; omega
  | succ j ih =>
    obtain ⟨k, rfl⟩ : ∃ k', k = k' + 1 := ⟨k - 1, by have := ty.weight_pos; omega⟩
    have hreference (name : String) (hj : C.unseen chain ≤ j) (hk : C.unseen chain ≤ k) :
        resolveWithin (j + 1) C chain (.reference name)
          = resolveWithin (k + 1) C chain (.reference name) := by
      rw [resolveWithin_reference, resolveWithin_reference]
      split_ifs with hnew
      · rfl
      · cases hf : C.find? name with
        | none => rfl
        | some found =>
          have henter := hC.unseen_enter hf hnew
          exact ih (hC.of_under (hC.under_of_find? hf)) (by omega) (by omega)
    cases ty with
    | reference name =>
      rw [Ty.weight] at hj hk
      exact hreference name (by omega) (by omega)
    | typeAlias name attributes =>
      rw [Ty.weight] at hj hk
      rw [resolveWithin_typeAlias, resolveWithin_typeAlias,
        hreference name (by omega) (by omega)]
    | labeled label ty =>
      rw [Ty.weight] at hj hk
      have hinner := @ih C hC k chain ty (by omega) (by omega)
      rw [resolveWithin_labeled, resolveWithin_labeled, hinner]
    | _ => rfl

/-! ## Walks -/

/-- `Walk C chain ty O t`: having followed `chain`, the walk from `ty` in `C` stops at `t` in
`O`. -/
inductive Walk : Catalog → List String → Ty → Catalog → Ty → Prop
  | stop {C : Catalog} {chain : List String} {ty : Ty} : ty.stopsWalk = true → Walk C chain ty C ty
  | reference {C O P : Catalog} {chain : List String} {name : String} {target t : Ty} :
      name ∉ chain → C.find? name = some (P, target) → Walk P (chain ++ [name]) target O t →
      Walk C chain (.reference name) O t
  | typeAlias {C O : Catalog} {chain : List String} {name : String} {attributes : Attributes}
      {t : Ty} : Walk C chain (.reference name) O t →
      Walk C chain (.typeAlias name attributes) O (t.addAttributes attributes)
  | labeled {C O : Catalog} {chain : List String} {label : String} {ty t : Ty} :
      Walk C chain ty O t → Walk C chain (.labeled label ty) O (.labeled label t)
  | constructor {C O : Catalog} {chain : List String} {label union : String}
      {attributes : Attributes} {t : Ty} : C.find? union = some (O, t) →
      Walk C chain (.constructor label union attributes) O t

theorem walk_of_resolveWithin {k : Nat} {C O : Catalog} {chain : List String} {ty t : Ty}
    (h : resolveWithin k C chain ty = .ok (O, t)) : Walk C chain ty O t := by
  induction k generalizing C O chain ty t with
  | zero => cases h
  | succ k ih =>
    have hreference {name : String} {O : Catalog} {t : Ty}
        (h : resolveWithin (k + 1) C chain (.reference name) = .ok (O, t)) :
        Walk C chain (.reference name) O t := by
      rw [resolveWithin_reference] at h
      split_ifs at h with hnew
      cases hf : C.find? name with
      | none => rw [hf] at h; cases h
      | some found =>
        rw [hf] at h
        exact .reference hnew hf (ih h)
    cases ty with
    | reference name => exact hreference h
    | typeAlias name attributes =>
      rw [resolveWithin_typeAlias] at h
      cases hr : resolveWithin (k + 1) C chain (.reference name) with
      | error e => rw [hr] at h; cases h
      | ok q =>
        rw [hr] at h
        cases h
        exact .typeAlias (hreference hr)
    | labeled label ty =>
      rw [resolveWithin_labeled] at h
      cases hr : resolveWithin k C chain ty with
      | error e => rw [hr] at h; cases h
      | ok q =>
        rw [hr] at h
        cases h
        exact .labeled (ih hr)
    | constructor label union attributes =>
      rw [resolveWithin, getOwned] at h
      cases hf : C.find? union with
      | none => rw [hf] at h; cases h
      | some found =>
        rw [hf] at h
        cases h
        exact .constructor hf
    | _ =>
      cases h
      exact .stop rfl

theorem Walk.exists_fuel {C O : Catalog} {chain : List String} {ty t : Ty}
    (h : Walk C chain ty O t) : ∃ k, resolveWithin (k + 1) C chain ty = .ok (O, t) := by
  induction h with
  | @stop C chain ty hty =>
    refine ⟨0, ?_⟩
    cases ty <;> first | rfl | cases hty
  | @reference C O P chain name target t hnew hf _ ih =>
    obtain ⟨k, hk⟩ := ih
    refine ⟨k + 1, ?_⟩
    rw [resolveWithin_reference, if_neg hnew, hf]
    exact hk
  | typeAlias _ ih =>
    obtain ⟨k, hk⟩ := ih
    refine ⟨k, ?_⟩
    rw [resolveWithin_typeAlias, hk]
    rfl
  | labeled _ ih =>
    obtain ⟨k, hk⟩ := ih
    refine ⟨k + 1, ?_⟩
    rw [resolveWithin_labeled, hk]
    rfl
  | constructor hf =>
    refine ⟨0, ?_⟩
    rw [resolveWithin, getOwned, hf]

theorem Walk.unique {C O P : Catalog} {chain : List String} {ty t u : Ty}
    (h : Walk C chain ty O t) (h' : Walk C chain ty P u) : O = P ∧ t = u := by
  obtain ⟨j, hj⟩ := h.exists_fuel
  obtain ⟨k, hk⟩ := h'.exists_fuel
  have hj := resolveWithin_mono (Nat.le_max_left (j + 1) (k + 1)) hj
  have hk := resolveWithin_mono (Nat.le_max_right (j + 1) (k + 1)) hk
  rw [hj] at hk
  cases hk
  exact ⟨rfl, rfl⟩

/-- A walk in a layered catalog is found with as much fuel as the catalog has nodes. -/
theorem Walk.resolveWithin_eq_ok {C O : Catalog} (hC : C.Layered) {w : Nat} {ty t : Ty}
    (h : Walk C [] ty O t) (hw : ty.weight + C.weight ≤ w) :
    resolveWithin w C [] ty = .ok (O, t) := by
  obtain ⟨k, hk⟩ := h.exists_fuel
  have hle := hC.unseen_le_weight []
  rw [hC.resolveWithin_eq_of_le (k := max (k + 1) w) (by omega) (by omega)]
  exact resolveWithin_mono (Nat.le_max_left _ w) hk

theorem Walk.under {C O : Catalog} {chain : List String} {ty t : Ty} (h : Walk C chain ty O t)
    (hC : C.Layered) : O.Under C := by
  induction h with
  | stop => exact .refl _
  | reference _ hf _ ih =>
    have hP := hC.under_of_find? hf
    exact (ih (hC.of_under hP)).trans hP
  | typeAlias _ ih => exact ih hC
  | labeled _ ih => exact ih hC
  | constructor hf => exact hC.under_of_find? hf

/-- A walk ends at no more than what it has not seen, and one declaration that a case label leads
to. -/
theorem Walk.weight_le {C O : Catalog} {chain : List String} {ty t : Ty} (h : Walk C chain ty O t)
    (hC : C.Layered) : t.weight ≤ ty.weight + C.unseen chain + C.weight := by
  induction h with
  | stop => omega
  | reference hnew hf _ ih =>
    have hP := hC.under_of_find? hf
    have := ih (hC.of_under hP)
    have := hC.unseen_enter hf hnew
    have := hC.weight_le_of_under hP
    omega
  | typeAlias _ ih =>
    rw [Ty.addAttributes, Ty.weight_withAttributes]
    exact ih hC
  | labeled _ ih =>
    have := ih hC
    rw [Ty.weight, Ty.weight]
    omega
  | constructor hf =>
    have := hC.weight_le_of_find? hf
    omega

/-- A name that resolves in a layer resolves to the same in every layer above it. -/
theorem Walk.of_under {B C O : Catalog} {chain : List String} {name : String} {t : Ty}
    (h : Walk B chain (.reference name) O t) (hC : C.Layered) (hB : B.Under C) :
    Walk C chain (.reference name) O t := by
  cases h with
  | reference hnew hf hrest => exact .reference hnew (hC.find?_of_under hB hf) hrest
  | stop hty => cases hty

end Catalog

end TypeEngine

import TypeEngine.Proofs.Substituting

/-!
# Opening all names of a type

`R.Opened n ty u`: the type `u` is `ty` with every name replaced by what it stands for, in union
cases and intersections too, and at most `n` names and nodes lie behind each other. Types with
variables, with methods or with proofs of traits are left out, and so are traits that are applied to
arguments: these are what bindings are for.

For all other types (`Registry.Static`) substitution opens names and does nothing else
(`Setting.opened_of_substitute`), whatever is bound. What comes out has no names left
(`Opened.nameFree`), and is its own opening (`Opened.self`). A type without names stays as it is
(`Opened.eq_of_nameFree`).
-/

namespace TypeEngine

open Relation

namespace Ty

/-! ## Refilling a type -/

theorem flatMap_refillCases {cases : List Case} {us : List Ty}
    (h : us.length = (cases.flatMap (·.params)).length) :
    (refillCases cases us).flatMap (·.params) = us := by
  induction cases generalizing us with
  | nil =>
    rw [List.eq_nil_of_length_eq_zero h]
    rfl
  | cons c cases ih =>
    rw [List.flatMap_cons, List.length_append] at h
    rw [refillCases, List.flatMap_cons, ih (by rw [List.length_drop]; omega)]
    exact List.take_append_drop _ us

theorem refillCases_flatMap (cases : List Case) :
    refillCases cases (cases.flatMap (·.params)) = cases := by
  induction cases with
  | nil => rfl
  | cons c cases ih => rw [List.flatMap_cons, refillCases, List.take_left, List.drop_left, ih]

/-- The subjects of a refilled type are the new ones. -/
theorem subjects_refill {ty : Ty} {us : List Ty} (h : us.length = ty.subjects.length) :
    (ty.refill us).subjects = us := by
  cases ty with
  | parametric | function | tuple | intersection => rfl
  | union cases attributes => exact flatMap_refillCases h
  | labeled | annotated =>
    obtain ⟨u, rfl⟩ := List.length_eq_one_iff.1 h
    rfl
  | _ => exact (List.eq_nil_of_length_eq_zero h).symm

theorem refill_subjects (ty : Ty) : ty.refill ty.subjects = ty := by
  cases ty with
  | union cases attributes => exact congrArg (Ty.union · attributes) (refillCases_flatMap cases)
  | _ => rfl

@[simp] theorem lookup?_refill (ty : Ty) (us : List Ty) : (ty.refill us).lookup? = ty.lookup? := by
  cases ty <;> rfl

/-! ## Kinds -/

/-- The type itself is no variable, and no method or proof of a trait. -/
def isStatic : Ty → Bool
  | .parameter .. | .method _ | .impl .. | .fixedTrait _ => false
  | _ => true

@[simp] theorem isStatic_refill (ty : Ty) (us : List Ty) :
    (ty.refill us).isStatic = ty.isStatic := by
  cases ty <;> rfl

theorem key?_of_isStatic {ty : Ty} (h : ty.isStatic = true) : ty.key? = none := by
  cases ty <;> first | rfl | cases h

/-- There is no name in the type, heads aside. -/
inductive NameFree : Ty → Prop
  | node {ty : Ty} : ty.lookup? = none → (∀ t ∈ ty.subjects, NameFree t) → NameFree ty

theorem NameFree.lookup?_eq {ty : Ty} (h : ty.NameFree) : ty.lookup? = none := by
  cases h
  assumption

theorem NameFree.subject {ty t : Ty} (h : ty.NameFree) (ht : t ∈ ty.subjects) : t.NameFree := by
  cases h with
  | node _ hsubjects => exact hsubjects t ht

/-- A type without names is its own resolution. -/
theorem NameFree.isSettled {ty : Ty} (h : ty.NameFree) : ty.isSettled = true := by
  induction ty with
  | labeled label ty ih => exact ih (h.subject (List.mem_singleton_self ty))
  | reference | typeAlias | constructor => cases h.lookup?_eq
  | _ => rfl

@[simp] theorem lookup?_bare (ty : Ty) : ty.bare.lookup? = ty.lookup? := by
  cases ty <;> simp [lookup?]

@[simp] theorem subjects_bare (ty : Ty) : ty.bare.subjects = ty.subjects.map Ty.bare := by
  cases ty with
  | union cases attributes =>
    rw [bare_union, subjects, subjects, List.flatMap_map, List.map_flatMap]
    rfl
  | _ => simp [subjects]

/-- Attributes do not tell whether there are names. -/
theorem NameFree.of_bare {ty : Ty} (h : ty.bare.NameFree) : ty.NameFree := by
  generalize ht : ty.bare = t at h
  induction h generalizing ty with
  | node hname _ ih =>
    subst ht
    rw [lookup?_bare] at hname
    refine .node hname fun u hu => ?_
    exact ih u.bare (by rw [subjects_bare]; exact List.mem_map_of_mem hu) rfl

theorem NameFree.bare {ty : Ty} (h : ty.NameFree) : ty.bare.NameFree := by
  induction h with
  | node hname _ ih =>
    refine .node (by rw [lookup?_bare, hname]) fun u hu => ?_
    rw [subjects_bare] at hu
    obtain ⟨t, ht, rfl⟩ := List.mem_map.1 hu
    exact ih t ht

theorem NameFree.of_same {a b : Ty} (h : a.NameFree) (hsame : a.same b = true) : b.NameFree := by
  rw [same_iff] at hsame
  exact .of_bare (hsame ▸ h.bare)

end Ty

/-! ## Opening names -/

namespace Registry

/-- The head of the type, if it has one, can be solved and is no trait. -/
def PlainHead (R : Registry) : Ty → Prop
  | .parametric head _ _ => ∃ solved, R.solvedHead head = .ok solved ∧ ∀ t, solved ≠ .trait t
  | _ => True

theorem PlainHead.refill {R : Registry} {ty : Ty} (h : R.PlainHead ty) (us : List Ty) :
    R.PlainHead (ty.refill us) := by
  cases ty <;> exact h

/-- The type `u` is `ty` with all names opened. -/
inductive Opened (R : Registry) : Nat → Ty → Ty → Prop
  | name {n : Nat} {ty t u : Ty} {name : String} : ty.lookup? = some name → R.resolve ty = .ok t →
      Opened R n t u → Opened R (n + 1) ty u
  | node {n : Nat} {ty : Ty} {us : List Ty} : ty.lookup? = none → ty.isStatic = true →
      R.PlainHead ty → us.length = ty.subjects.length →
      (∀ (i : Nat) t u, ty.subjects[i]? = some t → us[i]? = some u → Opened R n t u) →
      Opened R (n + 1) ty (ty.refill us)

namespace Opened

variable {R : Registry} {n m : Nat} {ty u : Ty}

theorem mono (h : R.Opened n ty u) (hnm : n ≤ m) : R.Opened m ty u := by
  induction h generalizing m with
  | name hname ht _ ih =>
    obtain ⟨m, rfl⟩ : ∃ m', m = m' + 1 := ⟨m - 1, by omega⟩
    exact .name hname ht (ih (by omega))
  | node hname hstatic hhead hlength _ ih =>
    obtain ⟨m, rfl⟩ : ∃ m', m = m' + 1 := ⟨m - 1, by omega⟩
    exact .node hname hstatic hhead hlength fun i t u ht hu => ih i t u ht hu (by omega)

/-- **No name is left.** -/
theorem nameFree (h : R.Opened n ty u) : u.NameFree := by
  induction h with
  | name _ _ _ ih => exact ih
  | @node n ty us hname _ _ hlength _ ih =>
    refine .node (by rw [Ty.lookup?_refill, hname]) fun v hv => ?_
    rw [Ty.subjects_refill hlength] at hv
    obtain ⟨i, hi⟩ := List.getElem?_of_mem hv
    obtain ⟨t, ht⟩ := exists_getElem? hlength.symm hi
    exact ih i t v ht hi

/-- What has no names is its own opening. -/
theorem self (h : R.Opened n ty u) : R.Opened u.weight u u := by
  induction h with
  | name _ _ _ ih => exact ih
  | @node n ty us hname hstatic hhead hlength _ ih =>
    have hsubjects := Ty.subjects_refill hlength
    have hself : R.Opened ((ty.refill us).weight - 1 + 1) (ty.refill us)
        ((ty.refill us).refill (ty.refill us).subjects) := by
      refine .node (by rw [Ty.lookup?_refill, hname]) (by rw [Ty.isStatic_refill, hstatic])
        (hhead.refill us) rfl ?_
      intro i t v ht hv
      rw [ht] at hv
      cases hv
      have hlt := Ty.weight_lt_of_mem_subjects (List.mem_of_getElem? ht)
      rw [hsubjects] at ht
      obtain ⟨w, hw⟩ := exists_getElem? hlength.symm ht
      exact (ih i w t hw ht).mono (by omega)
    rw [Ty.refill_subjects] at hself
    have hpos := (ty.refill us).weight_pos
    exact hself.mono (by omega)

/-- A type without names stays as it is. -/
theorem eq_of_nameFree (h : R.Opened n ty u) (hfree : ty.NameFree) : u = ty := by
  induction h with
  | name hname =>
    rw [hfree.lookup?_eq] at hname
    cases hname
  | @node n ty us _ _ _ hlength _ ih =>
    have hus : us = ty.subjects := by
      refine List.ext_getElem? fun i => ?_
      cases hi : us[i]? with
      | none =>
        rw [List.getElem?_eq_none_iff] at hi
        rw [List.getElem?_eq_none (by omega)]
      | some v =>
        obtain ⟨t, ht⟩ := exists_getElem? hlength.symm hi
        rw [ht, ih i t v ht hi (hfree.subject (List.mem_of_getElem? ht))]
    rw [hus, Ty.refill_subjects]

end Opened

/-- **Types that bindings do not change:** whatever the registry reads in the type is no variable,
method or proof of a trait, and no trait is applied to arguments. -/
structure Static (R : Registry) (ty : Ty) : Prop where
  kind : ∀ u, ReflTransGen R.Reads ty u → u.isStatic = true
  head : ∀ head params attributes, ReflTransGen R.Reads ty (.parametric head params attributes) →
    ∀ t, R.solvedHead head ≠ .ok (.trait t)

theorem Static.reads {R : Registry} {ty t : Ty} (h : R.Static ty) (ht : R.Reads ty t) :
    R.Static t :=
  ⟨fun u hu => h.kind u (.head ht hu),
    fun head params attributes hu => h.head head params attributes (.head ht hu)⟩

end Registry

namespace Setting

variable {s : Setting} {σ : Bindings} {context : Ty}

theorem boundTrait_of_plainHead {ty : Ty} (h : s.types.PlainHead ty) :
    s.boundTrait ty = .ok none := by
  cases ty with
  | parametric head params attributes =>
    obtain ⟨solved, hsolved, hplain⟩ := h
    rw [boundTrait, hsolved, Outcome.ok_bind]
    cases solved with
    | trait t => exact absurd rfl (hplain t)
    | _ => rfl
  | _ => rfl

/-- Where a static type is looked up as a whole, nothing is found. -/
theorem plainHead_of_witness? {ty : Ty} {found? : Option Ty} (hty : s.types.Static ty)
    (h : s.witness? σ context ty = .ok found?) : s.types.PlainHead ty ∧ found? = none := by
  cases ty with
  | parametric head params attributes =>
    obtain ⟨trait?, htrait, h⟩ := Outcome.bind_eq_ok.1 h
    obtain ⟨solved, hsolved, htrait⟩ := Outcome.bind_eq_ok.1 htrait
    have hplain : ∀ t, solved ≠ .trait t := by
      rintro t rfl
      exact hty.head head params attributes .refl t hsolved
    have hnone : trait? = none := by
      cases solved with
      | trait t => exact absurd rfl (hplain t)
      | _ =>
        cases htrait
        rfl
    subst hnone
    cases h
    exact ⟨⟨solved, hsolved, hplain⟩, rfl⟩
  | _ =>
    cases h
    exact ⟨trivial, rfl⟩

theorem opened_of_substituteWithin {n : Nat} {ty u : Ty} (hty : s.types.Static ty)
    (h : s.substituteWithin σ context n ty = .ok u) : s.types.Opened n ty u := by
  induction n generalizing ty u with
  | zero => cases h
  | succ n ih =>
    rw [substituteWithin_succ] at h
    have hstatic := hty.kind ty .refl
    have hkey := Ty.key?_of_isStatic hstatic
    cases hname : ty.lookup? with
    | some name =>
      rw [substituteStep_of_lookup hname] at h
      obtain ⟨t, ht, h⟩ := Outcome.bind_eq_ok.1 h
      have ht' := Outcome.liftM_eq_ok.1 ht
      exact .name hname ht' (ih (hty.reads (.name hname ht')) h)
    | none =>
      rw [substituteStep, hkey, hname] at h
      obtain ⟨found?, hwitness, h⟩ := Outcome.bind_eq_ok.1 h
      obtain ⟨hhead, rfl⟩ := plainHead_of_witness? hty hwitness
      obtain ⟨us, hus, h⟩ := Outcome.bind_eq_ok.1 h
      cases h
      obtain ⟨hlength, hpoint⟩ := forall₂_iff_getElem?.1 (Outcome.mapM_eq_ok.1 hus)
      refine .node hname hstatic hhead hlength fun i t v ht hv => ?_
      exact ih (hty.reads (.subject (List.mem_of_getElem? ht))) (hpoint i t v ht hv)

/-- **Substitution opens the names of a static type,** and does nothing else. -/
theorem opened_of_substitute {ty u : Ty} (hty : s.types.Static ty)
    (h : s.substitute σ ty context = .ok u) :
    s.types.Opened (s.types.descentFuel ty) ty u :=
  opened_of_substituteWithin hty h

end Setting

end TypeEngine

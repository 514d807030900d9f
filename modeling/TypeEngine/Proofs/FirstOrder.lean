import TypeEngine.Proofs.Solutions

/-!
# First-order types

A first-order type has no traits, case labels or directives outside its union cases, and its names
stand for first-order types again (`FirstOrder`, `Fragment`). Resolving such a type gives what lies
behind its names, under labels (`Fragment.resolved`). Inside the labels there is a variable, an
atom, a union or a compound type, and its solution lies inside the same labels of the solution
(`Fragment.solve_inner`).

The solution of a first-order type is smaller at every step into it. So what holds of a type as soon
as it holds of its components, behind names and labels, holds of every first-order type that can be
solved (`Fragment.induct`).
-/

namespace TypeEngine

theorem exists_of_mem_forall₂ {α β : Type} {P : α → β → Prop} {l : List α} {l' : List β}
    (h : List.Forall₂ P l l') {a : α} (ha : a ∈ l) : ∃ b ∈ l', P a b := by
  induction h with
  | nil => cases ha
  | @cons c d l l' hcd _ ih =>
    rcases List.mem_cons.1 ha with rfl | ha
    · exact ⟨d, List.mem_cons_self, hcd⟩
    · obtain ⟨b, hb, hab⟩ := ih ha
      exact ⟨b, List.mem_cons_of_mem d hb, hab⟩

/-! ## Compound types -/

namespace Ty

/-- The compound type `x` with other components, and with the attributes of `y` as well. -/
def rebuild (x : Ty) (components : List Ty) (y : Ty) : Ty :=
  match x with
  | .parametric head _ attributes => .parametric head components (attributes.union y.attributes)
  | .function _ scope attributes => .function components scope (attributes.union y.attributes)
  | .tuple _ attributes => .tuple components (attributes.union y.attributes)
  | x => x

/-- Whether resolving leaves the type as it is: there is no name behind its labels. -/
def isSettled : Ty → Bool
  | .labeled _ ty => ty.isSettled
  | ty => ty.stopsWalk

theorem isSettled_withAttributes (attributes : Attributes) (ty : Ty) :
    (ty.withAttributes attributes).isSettled = ty.isSettled := by
  induction ty with
  | labeled label ty ih => exact ih
  | _ => rfl

theorem eq_of_target {ty : Ty} {name : String} (h : ty.target? = some name) :
    ty = .reference name ∨ ∃ attributes, ty = .typeAlias name attributes := by
  cases ty <;> cases h
  · exact .inl rfl
  · exact .inr ⟨_, rfl⟩

theorem lookup?_of_target {ty : Ty} {name : String} (h : ty.target? = some name) :
    ty.lookup? = some name := by
  obtain rfl | ⟨_, rfl⟩ := eq_of_target h <;> rfl

theorem isSettled_of_stopsWalk {ty : Ty} (h : ty.stopsWalk = true) : ty.isSettled = true := by
  cases ty <;> first | exact h | cases h

@[simp] theorem inner_inner (ty : Ty) : ty.inner.inner = ty.inner := by
  induction ty with
  | labeled label ty ih => exact ih
  | annotated directives ty ih => exact ih
  | _ => rfl

theorem weight_inner_le (ty : Ty) : ty.inner.weight ≤ ty.weight := by
  induction ty with
  | labeled label ty ih =>
    rw [weight]
    exact Nat.le_succ_of_le ih
  | annotated directives ty ih =>
    rw [weight]
    exact Nat.le_succ_of_le ih
  | _ => exact Nat.le_refl _

theorem components_subset_children (ty : Ty) : ty.components ⊆ ty.children := by
  cases ty <;> simp [components, children]

end Ty

/-! ## First-order types -/

/-- `FirstOrder R known unions ty`: the type is first-order in `R`. The names in `known` may occur
in it, and unions may if `unions` says so. -/
inductive FirstOrder (R : Registry) (known : String → Prop) (unions : Bool) : Ty → Prop
  | parameter (name : String) (origin : Origin) : FirstOrder R known unions (.parameter name origin)
  | concrete (name : String) (attributes : Attributes) :
      FirstOrder R known unions (.concrete name attributes)
  | numeric (kind : Numeric) (attributes : Attributes) :
      FirstOrder R known unions (.numeric kind attributes)
  | name {ty : Ty} {name : String} : ty.target? = some name → known name →
      FirstOrder R known unions ty
  /-- What is inside the cases does not matter. -/
  | union (cases : List Case) (attributes : Attributes) : unions = true →
      FirstOrder R known unions (.union cases attributes)
  | labeled {label : String} {ty : Ty} : FirstOrder R known unions ty →
      FirstOrder R known unions (.labeled label ty)
  | tuple {elements : List Ty} {attributes : Attributes} :
      (∀ t ∈ elements, FirstOrder R known unions t) →
      FirstOrder R known unions (.tuple elements attributes)
  | function {arguments : List Ty} {scope : Scope} {attributes : Attributes} :
      (∀ t ∈ arguments, FirstOrder R known unions t) →
      FirstOrder R known unions (.function arguments scope attributes)
  /-- The head is no trait. -/
  | parametric {head : Ty} {params : List Ty} {attributes : Attributes} :
      (∀ trait, R.solvedHead head ≠ .ok (.trait trait)) →
      (∀ t ∈ params, FirstOrder R known unions t) →
      FirstOrder R known unions (.parametric head params attributes)

/-- In a layered registry, the names in `known` stand for first-order types. -/
structure Fragment (R : Registry) (known : String → Prop) (unions : Bool) : Prop where
  layered : R.toCatalog.Layered
  stored : ∀ name ty, known name → R.get? name = some ty → FirstOrder R known unions ty

variable {R : Registry} {known : String → Prop} {unions : Bool}

namespace FirstOrder

theorem withAttributes {ty : Ty} (h : FirstOrder R known unions ty) (attributes : Attributes) :
    FirstOrder R known unions (ty.withAttributes attributes) := by
  induction h with
  | parameter => exact .parameter _ _
  | concrete => exact .concrete _ _
  | numeric => exact .numeric _ _
  | name hname hknown =>
    obtain rfl | ⟨_, rfl⟩ := Ty.eq_of_target hname
    · exact .name rfl hknown
    · exact .name rfl hknown
  | union cases _ hunions => exact .union cases _ hunions
  | labeled _ ih => exact .labeled ih
  | tuple h => exact .tuple h
  | function h => exact .function h
  | parametric hhead h => exact .parametric hhead h

theorem inner {ty : Ty} (h : FirstOrder R known unions ty) :
    FirstOrder R known unions ty.inner := by
  induction h with
  | parameter => exact .parameter _ _
  | concrete => exact .concrete _ _
  | numeric => exact .numeric _ _
  | name hname hknown =>
    obtain rfl | ⟨_, rfl⟩ := Ty.eq_of_target hname
    · exact .name rfl hknown
    · exact .name rfl hknown
  | union cases attributes hunions => exact .union cases attributes hunions
  | labeled _ ih => exact ih
  | tuple h => exact .tuple h
  | function h => exact .function h
  | parametric hhead h => exact .parametric hhead h

theorem components {ty t : Ty} (h : FirstOrder R known unions ty) (ht : t ∈ ty.components) :
    FirstOrder R known unions t := by
  cases h with
  | tuple h => exact h t ht
  | function h => exact h t ht
  | parametric _ h => exact h t ht
  | name hname => obtain rfl | ⟨_, rfl⟩ := Ty.eq_of_target hname <;> cases ht
  | _ => cases ht

theorem rebuild {x : Ty} (hx : FirstOrder R known unions x) {us : List Ty}
    (hus : ∀ u ∈ us, FirstOrder R known unions u) (y : Ty) :
    FirstOrder R known unions (x.rebuild us y) := by
  cases hx with
  | tuple => exact .tuple hus
  | function => exact .function hus
  | parametric hhead => exact .parametric hhead hus
  | name hname hknown =>
    obtain rfl | ⟨_, rfl⟩ := Ty.eq_of_target hname
    · exact .name rfl hknown
    · exact .name rfl hknown
  | parameter => exact .parameter _ _
  | concrete => exact .concrete _ _
  | numeric => exact .numeric _ _
  | union cases attributes hunions => exact .union cases attributes hunions
  | labeled h => exact .labeled h

theorem known_of_target {ty : Ty} {name : String} (h : FirstOrder R known unions ty)
    (hname : ty.target? = some name) : known name := by
  cases h with
  | name hname' hknown =>
    rw [hname] at hname'
    cases hname'
    exact hknown
  | _ => cases hname

/-- The names of a first-order type are no case labels. -/
theorem target_of_lookup {ty : Ty} {name : String} (h : FirstOrder R known unions ty)
    (hname : ty.lookup? = some name) : ∃ name, ty.target? = some name := by
  cases h with
  | name htarget => exact ⟨_, htarget⟩
  | _ => cases hname

theorem stopsWalk_inner {ty : Ty} (h : FirstOrder R known unions ty) (hty : ty.isSettled = true) :
    ty.inner.stopsWalk = true := by
  induction h with
  | labeled _ ih => exact ih hty
  | name hname => obtain rfl | ⟨_, rfl⟩ := Ty.eq_of_target hname <;> cases hty
  | _ => rfl

end FirstOrder

/-! ## Resolving -/

/-- A property that passes along names and through labels, and that no case label has, holds where a
walk ends, and there is no name behind the labels there. -/
theorem Catalog.Walk.keeps {P : Ty → Prop} {C O : Catalog} {chain : List String} {ty t : Ty}
    (h : C.Walk chain ty O t) (hR : R.toCatalog.Layered)
    (hstored : ∀ name target, P (.reference name) → R.get? name = some target → P target)
    (halias : ∀ name attributes, P (.typeAlias name attributes) → P (.reference name))
    (hattributes : ∀ attributes t, P t → P (t.withAttributes attributes))
    (hlabeled : ∀ label t, P (.labeled label t) → P t ∧ ∀ u, P u → P (.labeled label u))
    (hconstructor : ∀ label union attributes, ¬ P (.constructor label union attributes))
    (hC : C.Under R.toCatalog) (hty : P ty) : P t ∧ t.isSettled = true := by
  induction h with
  | stop hstop => exact ⟨hty, Ty.isSettled_of_stopsWalk hstop⟩
  | @reference C O Q chain name target t _ hf _ ih =>
    have hget : R.get? name = some target := by
      rw [Catalog.get?, hR.find?_of_under hC hf]
      rfl
    have hQ := (hR.of_under hC).under_of_find? hf
    exact ih (hQ.trans hC) (hstored name target hty hget)
  | typeAlias _ ih =>
    obtain ⟨ht, hsettled⟩ := ih hC (halias _ _ hty)
    exact ⟨hattributes _ _ ht, by rw [Ty.addAttributes, Ty.isSettled_withAttributes, hsettled]⟩
  | labeled _ ih =>
    obtain ⟨hinner, hback⟩ := hlabeled _ _ hty
    obtain ⟨ht, hsettled⟩ := ih hC hinner
    exact ⟨hback _ ht, hsettled⟩
  | constructor => exact absurd hty (hconstructor _ _ _)

namespace Registry

theorem resolve_of_settled {t : Ty} (ht : t.isSettled = true) : R.resolve t = .ok t := by
  have hwalk : R.toCatalog.Walk [] t R.toCatalog t := by
    induction t with
    | labeled label t ih => exact .labeled (ih ht)
    | _ => exact .stop ht
  exact resolve_eq_ok_iff.2 ⟨_, hwalk⟩

theorem eq_of_resolve {t u : Ty} (ht : t.isSettled = true) (h : R.resolve t = .ok u) : u = t := by
  rw [resolve_of_settled ht] at h
  cases h
  rfl

end Registry

namespace Fragment

variable (hF : Fragment R known unions)
include hF

/-- A walk from a first-order type stays among them. -/
theorem walk {C O : Catalog} {chain : List String} {ty t : Ty} (h : C.Walk chain ty O t)
    (hC : C.Under R.toCatalog) (hty : FirstOrder R known unions ty) :
    FirstOrder R known unions t ∧ t.isSettled = true := by
  refine h.keeps hF.layered (fun name target hname hget => ?_) (fun name attributes hname => ?_)
    (fun attributes t ht => ht.withAttributes attributes)
    (fun label t ht => ⟨?_, fun u hu => .labeled hu⟩)
    (fun label union attributes ht => ?_) hC hty
  · exact hF.stored name target (hname.known_of_target rfl) hget
  · exact .name rfl (hname.known_of_target rfl)
  · cases ht with
    | labeled ht => exact ht
    | name hname => cases hname
  · cases ht with
    | name hname => cases hname

/-- What a first-order type stands for is first-order, and there is no name behind its labels. -/
theorem resolved {a t : Ty} (ha : FirstOrder R known unions a) (h : R.resolve a = .ok t) :
    FirstOrder R known unions t ∧ t.isSettled = true := by
  obtain ⟨O, hwalk⟩ := Registry.resolve_eq_ok_iff.1 h
  exact hF.walk hwalk (.refl _) ha

/-- A type that is solved can be resolved, and what it stands for has the same solution. -/
theorem exists_resolve {a S : Ty} (ha : FirstOrder R known unions a) (h : R.solve a = .ok S) :
    ∃ t, R.resolve a = .ok t ∧ R.solve t = .ok S := by
  have hR := hF.layered
  induction ha generalizing S with
  | name hname => exact Registry.solve_target hR hname h
  | labeled _ ih =>
    obtain ⟨U, hU, rfl⟩ := (Registry.solve_labeled hR).1 h
    obtain ⟨t, ht, hsolve⟩ := ih hU
    exact ⟨_, Registry.resolve_labeled.2 ⟨t, ht, rfl⟩,
      (Registry.solve_labeled hR).2 ⟨U, hsolve, rfl⟩⟩
  | _ => exact ⟨_, Registry.resolve_of_settled rfl, h⟩

end Fragment

/-! ## Solving -/

/-- Whether the type is a variable, a concrete type or a number type. -/
def Ty.isAtom : Ty → Bool
  | .parameter .. | .concrete .. | .numeric .. => true
  | _ => false

namespace Registry

/-- Two compound types of one kind, parametric types also of one family. -/
inductive SameShell (R : Registry) : Ty → Ty → Prop
  | function {arguments arguments' : List Ty} {scope scope' : Scope}
      {attributes attributes' : Attributes} :
      SameShell R (.function arguments scope attributes) (.function arguments' scope' attributes')
  | tuple {elements elements' : List Ty} {attributes attributes' : Attributes} :
      SameShell R (.tuple elements attributes) (.tuple elements' attributes')
  | parametric {head head' : Ty} {params params' : List Ty} {attributes attributes' : Attributes}
      {name : String} : R.family head = .ok name → R.family head' = .ok name →
      SameShell R (.parametric head params attributes) (.parametric head' params' attributes')

namespace SameShell

variable {x y z : Ty}

theorem symm (h : R.SameShell x y) : R.SameShell y x := by
  cases h with
  | function => exact .function
  | tuple => exact .tuple
  | parametric hx hy => exact .parametric hy hx

theorem trans (hxy : R.SameShell x y) (hyz : R.SameShell y z) : R.SameShell x z := by
  cases hxy with
  | function =>
    cases hyz
    exact .function
  | tuple =>
    cases hyz
    exact .tuple
  | parametric hx hy =>
    cases hyz with
    | parametric hy' hz =>
      rw [hy] at hy'
      cases hy'
      exact .parametric hx hz

theorem rebuild (h : R.SameShell x y) (us : List Ty) (w : Ty) :
    R.SameShell x (x.rebuild us w) := by
  cases h with
  | function => exact .function
  | tuple => exact .tuple
  | parametric hx _ => exact .parametric hx hx

theorem components_rebuild (h : R.SameShell x y) (us : List Ty) (w : Ty) :
    (x.rebuild us w).components = us := by
  cases h <;> rfl

theorem stopsWalk (h : R.SameShell x y) : x.stopsWalk = true := by
  cases h <;> rfl

theorem inner_eq (h : R.SameShell x y) : x.inner = x := by
  cases h <;> rfl

theorem isParameter_eq (h : R.SameShell x y) : x.isParameter = false := by
  cases h <;> rfl

end SameShell

/-- A compound type with other components has the solution with their solutions, attributes
aside. -/
theorem solve_rebuild (hR : R.toCatalog.Layered) {x y X : Ty} (hshell : R.SameShell x y)
    (h : R.solve x = .ok X) {us vs : List Ty} (hus : R.SolveAll us vs) (w z : Ty) :
    ∃ W, R.solve (x.rebuild us w) = .ok W ∧ W.same (X.rebuild vs z) = true := by
  cases hshell with
  | function =>
    obtain ⟨_, -, rfl⟩ := (solve_function hR).1 h
    exact ⟨_, (solve_function hR).2 ⟨vs, hus, rfl⟩, Ty.same_iff.2 rfl⟩
  | tuple =>
    obtain ⟨_, -, rfl⟩ := (solve_tuple hR).1 h
    exact ⟨_, (solve_tuple hR).2 ⟨vs, hus, rfl⟩, Ty.same_iff.2 rfl⟩
  | parametric =>
    obtain ⟨H, _, hH, -, rfl⟩ := (solve_parametric hR).1 h
    exact ⟨_, (solve_parametric hR).2 ⟨H, vs, hH, hus, rfl⟩, Ty.same_iff.2 rfl⟩

/-- `Solid R x X`: the type `x`, which is no name and has no labels, and its solution `X`. -/
inductive Solid (R : Registry) : Ty → Ty → Prop
  | atom {x : Ty} : x.isAtom = true → Solid R x x
  | union (cases cases' : List Case) (attributes : Attributes) :
      Solid R (.union cases attributes) (.union cases' attributes)
  | compound {x X : Ty} : R.SameShell x X → R.SolveAll x.components X.components → Solid R x X

theorem Solid.stopsWalk {x X : Ty} (h : R.Solid x X) : X.stopsWalk = true := by
  cases h with
  | atom hx => cases x <;> first | rfl | cases hx
  | union => rfl
  | compound hshell => exact hshell.symm.stopsWalk

theorem Solid.inner_eq {x X : Ty} (h : R.Solid x X) : X.inner = X := by
  cases h with
  | atom hx => cases x <;> first | rfl | cases hx
  | union => rfl
  | compound hshell => exact hshell.symm.inner_eq

theorem Solid.components {x X : Ty} (h : R.Solid x X) :
    R.SolveAll x.components X.components := by
  cases h with
  | atom hx => cases x <;> first | exact .nil | cases hx
  | union => exact .nil
  | compound _ hall => exact hall

end Registry

namespace Fragment

variable (hF : Fragment R known unions)
include hF

theorem solid {x X : Ty} (hx : FirstOrder R known unions x) (hstop : x.stopsWalk = true)
    (h : R.solve x = .ok X) : R.Solid x X := by
  have hR := hF.layered
  cases hx with
  | parameter | concrete | numeric =>
    simp only [Registry.solve_parameter, Registry.solve_concrete, Registry.solve_numeric,
      Outcome.ok.injEq] at h
    rw [← h]
    exact .atom rfl
  | union cases attributes =>
    obtain ⟨cases', rfl⟩ := Registry.solve_union h
    exact .union cases cases' attributes
  | tuple =>
    obtain ⟨us, hus, rfl⟩ := (Registry.solve_tuple hR).1 h
    exact .compound .tuple hus
  | function =>
    obtain ⟨us, hus, rfl⟩ := (Registry.solve_function hR).1 h
    exact .compound .function hus
  | parametric =>
    obtain ⟨H, us, hH, hus, rfl⟩ := (Registry.solve_parametric hR).1 h
    obtain ⟨name, hname⟩ := Registry.exists_family hH
    exact .compound (.parametric hname ((Registry.family_solution hR hH).trans hname)) hus
  | name hname => obtain rfl | ⟨_, rfl⟩ := Ty.eq_of_target hname <;> cases hstop
  | labeled => cases hstop

/-- The solution of a type under labels lies under the same labels. -/
theorem solve_inner {t S : Ty} (ht : FirstOrder R known unions t) (hsettled : t.isSettled = true)
    (h : R.solve t = .ok S) : R.solve t.inner = .ok S.inner ∧ S.isSettled = true := by
  induction t generalizing S with
  | labeled label t ih =>
    obtain ⟨U, hU, rfl⟩ := (Registry.solve_labeled hF.layered).1 h
    cases ht with
    | labeled ht => exact ih (S := U) ht hsettled hU
    | name hname => cases hname
  | annotated directives t =>
    cases ht with
    | name hname => cases hname
  | _ =>
    have hsolid := hF.solid ht hsettled h
    exact ⟨by rw [hsolid.inner_eq]; exact h, Ty.isSettled_of_stopsWalk hsolid.stopsWalk⟩

end Fragment

/-! ## Behind names and labels -/

/-- `Exposed R known unions a t S`: the type `a` stands for `t`, and `S` is the solution of both. -/
structure Exposed (R : Registry) (known : String → Prop) (unions : Bool) (a t S : Ty) : Prop where
  resolve : R.resolve a = .ok t
  firstOrder : FirstOrder R known unions t
  settled : t.isSettled = true
  solve : R.solve t = .ok S

namespace Exposed

variable {a t S : Ty}

theorem solve_inner (h : Exposed R known unions a t S) (hF : Fragment R known unions) :
    R.solve t.inner = .ok S.inner :=
  (hF.solve_inner h.firstOrder h.settled h.solve).1

theorem settled_solution (h : Exposed R known unions a t S) (hF : Fragment R known unions) :
    S.isSettled = true :=
  (hF.solve_inner h.firstOrder h.settled h.solve).2

theorem stopsWalk (h : Exposed R known unions a t S) : t.inner.stopsWalk = true :=
  h.firstOrder.stopsWalk_inner h.settled

theorem solid (h : Exposed R known unions a t S) (hF : Fragment R known unions) :
    R.Solid t.inner S.inner :=
  hF.solid h.firstOrder.inner h.stopsWalk (h.solve_inner hF)

end Exposed

namespace Fragment

variable (hF : Fragment R known unions)
include hF

theorem exists_exposed {a S : Ty} (ha : FirstOrder R known unions a) (h : R.solve a = .ok S) :
    ∃ t, Exposed R known unions a t S := by
  obtain ⟨t, hresolve, hsolve⟩ := hF.exists_resolve ha h
  obtain ⟨ht, hsettled⟩ := hF.resolved ha hresolve
  exact ⟨t, hresolve, ht, hsettled, hsolve⟩

theorem exposed {a t S : Ty} (ha : FirstOrder R known unions a) (h : R.solve a = .ok S)
    (ht : R.resolve a = .ok t) : Exposed R known unions a t S := by
  obtain ⟨t', h'⟩ := hF.exists_exposed ha h
  have hsame := h'.resolve
  rw [ht] at hsame
  cases hsame
  exact h'

/-- **Induction behind names and labels.** A property of first-order types that passes from the
components of what a type stands for to the type holds of every type that can be solved. -/
theorem induct {P : Ty → Prop}
    (step : ∀ a t S, FirstOrder R known unions a → Exposed R known unions a t S →
      (∀ c ∈ t.inner.components, P c) → P a)
    {a S : Ty} (ha : FirstOrder R known unions a) (h : R.solve a = .ok S) : P a := by
  -- The solutions of the components are components of the solution.
  induction hn : S.weight using Nat.strongRecOn generalizing a S with
  | ind n ih =>
    obtain ⟨t, hexposed⟩ := hF.exists_exposed ha h
    refine step a t S ha hexposed fun c hc => ?_
    obtain ⟨U, hU, hsolve⟩ := exists_of_mem_forall₂ (hexposed.solid hF).components hc
    have hlt := Ty.weight_lt_of_mem_children (Ty.components_subset_children _ hU)
    have hle := S.weight_inner_le
    exact ih U.weight (by omega) (hexposed.firstOrder.inner.components hc) hsolve rfl

end Fragment

end TypeEngine

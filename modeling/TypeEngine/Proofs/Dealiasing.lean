import TypeEngine.Proofs.Preorder

/-!
# Unification does not see names

Solving opens all names at once; unification opens them one by one, and differently on either side
and in heads. On first-order types without unions the two agree: types unify exactly if their
solutions do (`Meets.solved`, `Meets.of_solved`), and solving the result gives the result of the
solutions.

Both directions go along the rules of `Meets`. Behind names and labels, a type and its solution are
of one kind (`Registry.Solid`), so the rule that fits the one fits the other, and compound types
pass on to their components.
-/

namespace TypeEngine

variable {R : Registry} {known : String → Prop} {unions : Bool}

/-! ## A type and its solution -/

namespace Registry.Solid

variable {x X y : Ty}

theorem isParameter_eq (h : R.Solid x X) : X.isParameter = x.isParameter := by
  cases h with
  | atom => rfl
  | union => rfl
  | compound hshell => rw [hshell.isParameter_eq, hshell.symm.isParameter_eq]

/-- An atom is its own solution, and the solution of nothing else. -/
theorem eq_of_isAtom (h : R.Solid x X) (hatom : x.isAtom = true ∨ X.isAtom = true) : X = x := by
  cases h with
  | atom => rfl
  | union => rcases hatom with hatom | hatom <;> cases hatom
  | compound hshell => cases hshell <;> rcases hatom with hatom | hatom <;> cases hatom

/-- A compound type has a compound solution, and is what a compound type is the solution of. -/
theorem sameShell (h : R.Solid x X) (hshell : R.SameShell x y ∨ R.SameShell X y) :
    R.SameShell x X := by
  cases h with
  | atom hatom => rcases hshell with hshell | hshell <;> cases hshell <;> cases hatom
  | union => rcases hshell with hshell | hshell <;> cases hshell
  | compound hshell => exact hshell

end Registry.Solid

namespace Fragment

variable (hF : Fragment R known unions)
include hF

/-- The solution of a type under labels is first-order if it is inside of them. -/
theorem firstOrder_of_inner {t S : Ty} (ht : FirstOrder R known unions t)
    (hsettled : t.isSettled = true) (h : R.solve t = .ok S)
    (hinner : FirstOrder R known unions S.inner) : FirstOrder R known unions S := by
  induction t generalizing S with
  | labeled label t ih =>
    obtain ⟨U, hU, rfl⟩ := (Registry.solve_labeled hF.layered).1 h
    cases ht with
    | labeled ht => exact .labeled (ih (S := U) ht hsettled hU hinner)
    | name hname => cases hname
  | annotated directives t =>
    cases ht with
    | name hname => cases hname
  | _ =>
    rw [(hF.solid ht hsettled h).inner_eq] at hinner
    exact hinner

/-- **The solution of a first-order type is first-order.** -/
theorem firstOrder_solution {a A : Ty} (ha : FirstOrder R known unions a)
    (hA : R.solve a = .ok A) : FirstOrder R known unions A := by
  have hR := hF.layered
  refine hF.induct (P := fun a => ∀ A, R.solve a = .ok A → FirstOrder R known unions A)
    (fun a t S ha hexposed ih A hA => ?_) ha hA A hA
  have hexposed := hF.exposed ha hA hexposed.resolve
  have hsolve := hexposed.solve_inner hF
  have hstop := hexposed.stopsWalk
  have hx := hexposed.firstOrder.inner
  refine hF.firstOrder_of_inner hexposed.firstOrder hexposed.settled hexposed.solve ?_
  generalize t.inner = x at hx hsolve hstop ih
  generalize A.inner = X at hsolve
  have hall {us : List Ty} (hus : R.SolveAll x.components us) :
      ∀ u ∈ us, FirstOrder R known unions u := by
    intro u hu
    obtain ⟨c, hc, hcu⟩ := exists_of_mem_forall₂ hus.flip hu
    exact ih c hc u hcu
  cases hx with
  | parameter | concrete | numeric =>
    simp only [Registry.solve_parameter, Registry.solve_concrete, Registry.solve_numeric,
      Outcome.ok.injEq] at hsolve
    rw [← hsolve]
    constructor
  | union cases attributes hunions =>
    obtain ⟨cases', rfl⟩ := Registry.solve_union hsolve
    exact .union cases' attributes hunions
  | tuple =>
    obtain ⟨us, hus, rfl⟩ := (Registry.solve_tuple hR).1 hsolve
    exact .tuple (hall hus)
  | function =>
    obtain ⟨us, hus, rfl⟩ := (Registry.solve_function hR).1 hsolve
    exact .function (hall hus)
  | parametric hhead =>
    obtain ⟨H, us, hH, hus, rfl⟩ := (Registry.solve_parametric hR).1 hsolve
    refine .parametric (fun trait => ?_) (hall hus)
    rw [Registry.solvedHead_solution hR hH, ← hH]
    exact hhead trait
  | name hname => obtain rfl | ⟨_, rfl⟩ := Ty.eq_of_target hname <;> cases hstop
  | labeled => cases hstop

theorem resolve_solution {a A : Ty} (ha : FirstOrder R known unions a)
    (hA : R.solve a = .ok A) : R.resolve A = .ok A := by
  obtain ⟨t, hexposed⟩ := hF.exists_exposed ha hA
  exact Registry.resolve_of_settled (hexposed.settled_solution hF)

theorem exists_exposed_of_resolve {a A s : Ty} (ha : FirstOrder R known unions a)
    (hA : R.solve a = .ok A) (hs : R.resolve A = .ok s) :
    ∃ t, Exposed R known unions a t s := by
  rw [hF.resolve_solution ha hA] at hs
  cases hs
  exact hF.exists_exposed ha hA

end Fragment

/-! ## Unifying solutions -/

/-- There are no unions where first-order types may have none. -/
theorem FirstOrder.inner_ne_union {ty : Ty} (h : FirstOrder R known false ty) (cases : List Case)
    (attributes : Attributes) : ty.inner ≠ .union cases attributes := by
  intro hunion
  have hinner := h.inner
  rw [hunion] at hinner
  cases hinner with
  | union _ _ hfalse => cases hfalse
  | name hname => cases hname

theorem Ty.same_rebuild {x y : Ty} (hshell : R.SameShell x y) {us vs : List Ty}
    (h : List.Forall₂ (fun u v => u.same v = true) us vs) (w z : Ty) :
    (x.rebuild us w).same (x.rebuild vs z) = true := by
  have hbare : mapAttributesAll (fun _ => ∅) us = mapAttributesAll (fun _ => ∅) vs := by
    induction h with
    | nil => rfl
    | cons huv _ ih =>
      have huv := Ty.same_iff.1 huv
      rw [Ty.bare, Ty.bare] at huv
      rw [mapAttributesAll, mapAttributesAll, huv, ih]
  rw [Ty.same_iff, Ty.bare, Ty.bare]
  cases hshell <;> simp only [Ty.rebuild, Ty.mapAttributes, hbare]

namespace Meets

variable {a b u A B : Ty}

/-- **What unifies does so after solving,** and the solution of the result is the result of the
solutions, attributes aside. -/
theorem solved (hF : Fragment R known false) (h : Meets R a b u)
    (ha : FirstOrder R known false a) (hb : FirstOrder R known false b)
    (hA : R.solve a = .ok A) (hB : R.solve b = .ok B) :
    ∃ v W, Meets R A B v ∧ R.solve u = .ok W ∧ W.same v = true := by
  induction h generalizing A B with
  | parameter hs ht hparam =>
    have hx := hF.exposed ha hA hs
    have hy := hF.exposed hb hB ht
    rw [← (hx.solid hF).isParameter_eq] at hparam
    exact ⟨B, B, .parameter (hF.resolve_solution ha hA) (hF.resolve_solution hb hB) hparam,
      hy.solve, Ty.same_refl B⟩
  | absorbed hs ht hparam hparam' =>
    have hx := hF.exposed ha hA hs
    have hy := hF.exposed hb hB ht
    rw [← (hx.solid hF).isParameter_eq] at hparam
    rw [← (hy.solid hF).isParameter_eq] at hparam'
    exact ⟨A.inner, A.inner,
      .absorbed (hF.resolve_solution ha hA) (hF.resolve_solution hb hB) hparam hparam',
      hx.solve_inner hF, Ty.same_refl _⟩
  | concrete hs ht hconcrete hsame =>
    have hx := hF.exposed ha hA hs
    have hy := hF.exposed hb hB ht
    obtain ⟨_, hconcrete'⟩ := eq_concrete_of_same (hconcrete ▸ hsame)
    have hX := (hx.solid hF).eq_of_isAtom (.inl (by rw [hconcrete]; rfl))
    have hY := (hy.solid hF).eq_of_isAtom (.inl (by rw [hconcrete']; rfl))
    rw [← hX] at hconcrete
    rw [← hX, ← hY] at hsame
    exact ⟨B, B, .concrete (hF.resolve_solution ha hA) (hF.resolve_solution hb hB) hconcrete hsame,
      hy.solve, Ty.same_refl B⟩
  | union hs _ hunion => exact absurd hunion ((hF.resolved ha hs).1.inner_ne_union _ _)
  | numeric hs ht hnumeric hnumeric' hwide =>
    have hx := hF.exposed ha hA hs
    have hy := hF.exposed hb hB ht
    have hX := (hx.solid hF).eq_of_isAtom (.inl (by rw [hnumeric]; rfl))
    have hY := (hy.solid hF).eq_of_isAtom (.inl (by rw [hnumeric']; rfl))
    rw [← hX] at hnumeric
    rw [← hY] at hnumeric'
    exact ⟨A.inner, A.inner,
      .numeric (hF.resolve_solution ha hA) (hF.resolve_solution hb hB) hnumeric hnumeric' hwide,
      hx.solve_inner hF, Ty.same_refl _⟩
  | @compound a b s t us hs ht hshell hlength hresult _ ih =>
    have hx := hF.exposed ha hA hs
    have hy := hF.exposed hb hB ht
    have hleft := (hx.solid hF).sameShell (.inl hshell)
    have hright := (hy.solid hF).sameShell (.inl hshell.symm)
    obtain ⟨hlengthA, hcomponentsA⟩ := forall₂_iff_getElem?.1 (hx.solid hF).components
    obtain ⟨hlengthB, hcomponentsB⟩ := forall₂_iff_getElem?.1 (hy.solid hF).components
    -- At every position: what the components of the solutions unify to, and the solution of what
    -- the components unify to.
    have hposition (i : Nat) (hi : i < us.length) : ∃ p : Ty × Ty,
        (∀ C D, A.inner.components[i]? = some C → B.inner.components[i]? = some D →
          Meets R C D p.1) ∧
        (∀ u, us[i]? = some u → R.solve u = .ok p.2) ∧ p.2.same p.1 = true := by
      have hu := List.getElem?_eq_getElem hi
      obtain ⟨c, hc⟩ := exists_getElem? hresult.symm hu
      obtain ⟨d, hd⟩ := exists_getElem? hlength hc
      obtain ⟨C, hC⟩ := exists_getElem? hlengthA hc
      obtain ⟨D, hD⟩ := exists_getElem? hlengthB hd
      obtain ⟨v, W, hmeets, hsolve, hsame⟩ := ih i c d _ hc hd hu
        (hx.firstOrder.inner.components (List.mem_of_getElem? hc))
        (hy.firstOrder.inner.components (List.mem_of_getElem? hd))
        (hcomponentsA i c C hc hC) (hcomponentsB i d D hd hD)
      refine ⟨(v, W), fun C' D' hC' hD' => ?_, fun u' hu' => ?_, hsame⟩
      · rw [hC] at hC'
        rw [hD] at hD'
        cases hC'
        cases hD'
        exact hmeets
      · rw [hu] at hu'
        cases hu'
        exact hsolve
    obtain ⟨ps, hps, hall⟩ := exists_list hposition
    have hvs : Along (Meets R) A.inner.components B.inner.components (ps.map Prod.fst) := by
      refine ⟨by omega, by rw [List.length_map]; omega, fun i C D v hC hD hv => ?_⟩
      rw [List.getElem?_map] at hv
      obtain ⟨p, hp, rfl⟩ := Option.map_eq_some_iff.1 hv
      exact (hall i p hp).1 C D hC hD
    have hWs : R.SolveAll us (ps.map Prod.snd) := by
      refine forall₂_iff_getElem?.2 ⟨by rw [List.length_map, hps], fun i u W hu hW => ?_⟩
      rw [List.getElem?_map] at hW
      obtain ⟨p, hp, rfl⟩ := Option.map_eq_some_iff.1 hW
      exact (hall i p hp).2.1 u hu
    have hsame : List.Forall₂ (fun W v => W.same v = true) (ps.map Prod.snd) (ps.map Prod.fst) := by
      rw [List.forall₂_map_left_iff, List.forall₂_map_right_iff, List.forall₂_same]
      intro p hp
      obtain ⟨i, hi⟩ := List.mem_iff_getElem?.1 hp
      exact (hall i p hi).2.2
    obtain ⟨W, hW, hrebuild⟩ := Registry.solve_rebuild hF.layered hshell (hx.solve_inner hF) hWs
      t.inner B.inner
    exact ⟨_, W, .of_along (hF.resolve_solution ha hA) (hF.resolve_solution hb hB)
      (hleft.symm.trans (hshell.trans hright)) hvs, hW,
      Ty.same_trans hrebuild (Ty.same_rebuild hleft.symm hsame _ _)⟩

/-- **What unifies after solving does so before.** -/
theorem of_solved (hF : Fragment R known false) {v : Ty} (h : Meets R A B v)
    (ha : FirstOrder R known false a) (hb : FirstOrder R known false b)
    (hA : R.solve a = .ok A) (hB : R.solve b = .ok B) : ∃ u, Meets R a b u := by
  induction h generalizing a b with
  | parameter hs ht hparam =>
    obtain ⟨x, hx⟩ := hF.exists_exposed_of_resolve ha hA hs
    obtain ⟨y, hy⟩ := hF.exists_exposed_of_resolve hb hB ht
    rw [(hx.solid hF).isParameter_eq] at hparam
    exact ⟨y, .parameter hx.resolve hy.resolve hparam⟩
  | absorbed hs ht hparam hparam' =>
    obtain ⟨x, hx⟩ := hF.exists_exposed_of_resolve ha hA hs
    obtain ⟨y, hy⟩ := hF.exists_exposed_of_resolve hb hB ht
    rw [(hx.solid hF).isParameter_eq] at hparam
    rw [(hy.solid hF).isParameter_eq] at hparam'
    exact ⟨_, .absorbed hx.resolve hy.resolve hparam hparam'⟩
  | concrete hs ht hconcrete hsame =>
    obtain ⟨x, hx⟩ := hF.exists_exposed_of_resolve ha hA hs
    obtain ⟨y, hy⟩ := hF.exists_exposed_of_resolve hb hB ht
    obtain ⟨_, hconcrete'⟩ := eq_concrete_of_same (hconcrete ▸ hsame)
    have hX := (hx.solid hF).eq_of_isAtom (.inr (by rw [hconcrete]; rfl))
    have hY := (hy.solid hF).eq_of_isAtom (.inr (by rw [hconcrete']; rfl))
    rw [hX] at hconcrete
    rw [hX, hY] at hsame
    exact ⟨y, .concrete hx.resolve hy.resolve hconcrete hsame⟩
  | union hs _ hunion =>
    have hfirst := hF.firstOrder_solution ha hA
    exact absurd hunion ((hF.resolved hfirst hs).1.inner_ne_union _ _)
  | numeric hs ht hnumeric hnumeric' hwide =>
    obtain ⟨x, hx⟩ := hF.exists_exposed_of_resolve ha hA hs
    obtain ⟨y, hy⟩ := hF.exists_exposed_of_resolve hb hB ht
    have hX := (hx.solid hF).eq_of_isAtom (.inr (by rw [hnumeric]; rfl))
    have hY := (hy.solid hF).eq_of_isAtom (.inr (by rw [hnumeric']; rfl))
    rw [hX] at hnumeric
    rw [hY] at hnumeric'
    exact ⟨_, .numeric hx.resolve hy.resolve hnumeric hnumeric' hwide⟩
  | @compound A B s t vs hs ht hshell hlength hresult _ ih =>
    obtain ⟨x, hx⟩ := hF.exists_exposed_of_resolve ha hA hs
    obtain ⟨y, hy⟩ := hF.exists_exposed_of_resolve hb hB ht
    have hleft := (hx.solid hF).sameShell (.inr hshell)
    have hright := (hy.solid hF).sameShell (.inr hshell.symm)
    obtain ⟨hlengthA, hcomponentsA⟩ := forall₂_iff_getElem?.1 (hx.solid hF).components
    obtain ⟨hlengthB, hcomponentsB⟩ := forall₂_iff_getElem?.1 (hy.solid hF).components
    have hpointwise (i : Nat) (c d : Ty) (hc : x.inner.components[i]? = some c)
        (hd : y.inner.components[i]? = some d) : ∃ u, Meets R c d u := by
      obtain ⟨C, hC⟩ := exists_getElem? hlengthA hc
      obtain ⟨D, hD⟩ := exists_getElem? hlengthB hd
      obtain ⟨v, hv⟩ := exists_getElem? hresult hC
      exact ih i C D v hC hD hv (hx.firstOrder.inner.components (List.mem_of_getElem? hc))
        (hy.firstOrder.inner.components (List.mem_of_getElem? hd))
        (hcomponentsA i c C hc hC) (hcomponentsB i d D hd hD)
    obtain ⟨us, hus⟩ := exists_along (by omega) hpointwise
    exact ⟨_, .of_along hx.resolve hy.resolve (hleft.trans (hshell.trans hright.symm)) hus⟩

end Meets

/-! ## Simple types -/

/-- Whether a node of a type is of a simple kind: no union, trait, method, case label or
directive. -/
def Ty.hasSimpleKind : Ty → Bool
  | .parameter .. | .concrete .. | .reference .. | .typeAlias .. | .numeric .. => true
  | .parametric .. | .function .. | .tuple .. | .labeled .. => true
  | _ => false

/-- There are only simple kinds in the type. -/
def Ty.IsSimple (ty : Ty) : Prop :=
  ty.Everywhere fun t => t.hasSimpleKind = true

/-- Every entry of the registry is simple. -/
def Registry.IsSimple (R : Registry) : Prop :=
  ∀ name ty, R.get? name = some ty → ty.IsSimple

namespace Ty.IsSimple

theorem kind {ty : Ty} (h : ty.IsSimple) : ty.hasSimpleKind = true := by
  obtain ⟨hkind, -⟩ := h
  exact hkind

theorem child {ty t : Ty} (h : ty.IsSimple) (ht : t ∈ ty.children) : t.IsSimple := by
  obtain ⟨-, hchildren⟩ := h
  exact hchildren t ht

theorem labeled_iff {label : String} {ty : Ty} : (Ty.labeled label ty).IsSimple ↔ ty.IsSimple := by
  refine ⟨fun h => h.child (List.mem_singleton_self ty), fun h => .node rfl fun t ht => ?_⟩
  rw [List.mem_singleton.1 ht]
  exact h

theorem withAttributes {ty : Ty} (h : ty.IsSimple) (attributes : Attributes) :
    (ty.withAttributes attributes).IsSimple := by
  induction ty with
  | labeled label ty ih => exact labeled_iff.2 (ih (labeled_iff.1 h))
  | parametric | function | tuple => exact .node rfl fun t ht => h.child ht
  | parameter | concrete | reference | typeAlias | numeric => exact .leaf rfl rfl
  | _ => cases h.kind

/-- A walk from a simple type stays among them. -/
theorem walk {C O : Catalog} {chain : List String} {ty t : Ty} (hty : ty.IsSimple)
    (hR : R.toCatalog.Layered) (hentries : R.IsSimple) (h : C.Walk chain ty O t)
    (hC : C.Under R.toCatalog) : t.IsSimple := by
  refine (h.keeps hR (fun name target _ hget => hentries name target hget) (fun _ _ _ => ?_)
    (fun attributes t ht => ht.withAttributes attributes)
    (fun _ _ ht => ⟨labeled_iff.1 ht, fun _ hu => labeled_iff.2 hu⟩)
    (fun _ _ _ ht => ?_) hC hty).1
  · exact .leaf rfl rfl
  · cases ht.kind

/-- Solving a simple type gives no trait, nor a trait applied to parameters. -/
theorem headOrSelf_ne_trait (hR : R.toCatalog.Layered) (hentries : R.IsSimple) {n : Nat}
    {s : Expansion} {ty S : Ty} (hs : s.catalog.Under R.toCatalog)
    (hw : s.catalog.weight < s.walk) (hin : s.inUnion = false) (hty : ty.IsSimple)
    (h : solveWithin n s ty = .ok S) (trait : Trait) : S.headOrSelf ≠ .trait trait := by
  induction n using Nat.strongRecOn generalizing s ty S with
  | ind n ih =>
    cases n with
    | zero => cases h
    | succ n =>
      have htarget {name : String} (hname : ty.target? = some name) :
          S.headOrSelf ≠ .trait trait := by
        rw [solveWithin_target hname, Expansion.keepsName, hin] at h
        obtain ⟨kept, hkept, h⟩ := Outcome.bind_eq_ok.1 h
        cases hkept
        obtain ⟨⟨q, t⟩, hexpand, h⟩ := Outcome.bind_eq_ok.1 h
        obtain ⟨-, hwalk, hq⟩ := Expansion.expand_eq_ok (Outcome.liftM_eq_ok.1 hexpand)
        have hlayered := hR.of_under hs
        have hunder := hwalk.under hlayered
        have hle := hlayered.weight_le_of_under hunder
        rw [hq] at h
        exact ih n (Nat.lt_succ_self n) (s := ⟨q.catalog, s.walk, s.expanding ++ [name], s.inUnion⟩)
          (hunder.trans hs) (by simp only; omega) hin (hty.walk hR hentries hwalk hs) h
      cases ty with
      | reference name => exact htarget rfl
      | typeAlias name attributes => exact htarget rfl
      | parametric head params attributes =>
        rw [solveWithin] at h
        obtain ⟨H, hH, h⟩ := Outcome.bind_eq_ok.1 h
        obtain ⟨us, -, h⟩ := Outcome.bind_eq_ok.1 h
        cases h
        -- The head is the head of a solution, or a solution that is no parametric type.
        obtain ⟨n, rfl⟩ : ∃ m, n = m + 1 := by
          cases n with
          | zero => cases hH
          | succ m => exact ⟨m, rfl⟩
        rw [solveHeadWithin_eq n (hR.of_under hs) hw] at hH
        obtain ⟨U, hU, hH⟩ := Outcome.bind_eq_ok.1 hH
        cases hH
        exact ih n (by omega) (S := U) hs hw hin (hty.child List.mem_cons_self) hU
      | function | tuple | labeled =>
        rw [solveWithin] at h
        obtain ⟨_, -, h⟩ := Outcome.bind_eq_ok.1 h
        cases h
        intro hfalse
        cases hfalse
      | parameter | concrete | numeric =>
        cases h
        intro hfalse
        cases hfalse
      | _ => cases hty.kind

/-- **Simple types are first-order** in a registry of simple types, and have no unions. -/
theorem firstOrder {ty : Ty} (h : ty.IsSimple) (hR : R.toCatalog.Layered)
    (hentries : R.IsSimple) : FirstOrder R (fun _ => True) false ty := by
  induction ty with
  | parameter name origin => exact .parameter name origin
  | concrete name attributes => exact .concrete name attributes
  | numeric kind attributes => exact .numeric kind attributes
  | reference name => exact .name rfl trivial
  | typeAlias name attributes => exact .name rfl trivial
  | labeled label ty ih => exact .labeled (ih (labeled_iff.1 h))
  | tuple elements attributes ih => exact .tuple fun t ht => ih t ht (h.child ht)
  | function arguments scope attributes ih => exact .function fun t ht => ih t ht (h.child ht)
  | parametric head params attributes _ ih =>
    refine .parametric (fun trait htrait => ?_)
      fun t ht => ih t ht (h.child (List.mem_cons_of_mem head ht))
    obtain ⟨U, hU, hhead⟩ := Registry.solvedHead_eq_ok.1 htrait
    obtain ⟨n, hn⟩ := Registry.exists_solveWithin hR hU
    exact headOrSelf_ne_trait hR hentries (s := R.start) (.refl _) (Nat.lt_succ_self _) rfl
      (h.child List.mem_cons_self) hn trait hhead.symm
  | _ => cases h.kind

end Ty.IsSimple

/-- **Unification does not see names.** In a registry of simple types that is built in layers,
whatever the location and the checker are: simple types unify exactly if their solutions do, and the
solution of what they unify to is what the solutions unify to, attributes aside. -/
theorem unify_dealiased {D : Built} (hD : BuiltInLayers D) (hentries : D.value.IsSimple)
    (location : Location) (implements : Checker) {T₁ T₂ S₁ S₂ : Ty} (hT₁ : T₁.IsSimple)
    (hT₂ : T₂.IsSimple) (hS₁ : D.value.solve T₁ = .ok S₁) (hS₂ : D.value.solve T₂ = .ok S₂) :
    ((∃ U, D.value.unify location T₁ T₂ implements = .ok U) ↔
      ∃ V, D.value.unify location S₁ S₂ implements = .ok V) ∧
    ∀ U V, D.value.unify location T₁ T₂ implements = .ok U →
      D.value.unify location S₁ S₂ implements = .ok V →
      ∃ W, D.value.solve U = .ok W ∧ W.same V = true := by
  have hR := hD.layered
  have hF : Fragment D.value (fun _ => True) false :=
    ⟨hR, fun name ty _ hget => (hentries name ty hget).firstOrder hR hentries⟩
  have hfirst₁ := hT₁.firstOrder hR hentries
  have hfirst₂ := hT₂.firstOrder hR hentries
  have hunify (u : Ty) : D.value.unify location T₁ T₂ implements = .ok u
      ↔ Meets D.value T₁ T₂ u :=
    Setting.unify_eq_ok_iff (s := ⟨D.value, implements, location⟩) hF hfirst₁ hfirst₂ hS₁
  have hunify' (v : Ty) : D.value.unify location S₁ S₂ implements = .ok v
      ↔ Meets D.value S₁ S₂ v :=
    Setting.unify_eq_ok_iff (s := ⟨D.value, implements, location⟩) hF
      (hF.firstOrder_solution hfirst₁ hS₁) (hF.firstOrder_solution hfirst₂ hS₂)
      (Registry.solve_solution hR hS₁)
  refine ⟨⟨?_, ?_⟩, ?_⟩
  · rintro ⟨U, hU⟩
    obtain ⟨V, -, hV, -⟩ := ((hunify U).1 hU).solved hF hfirst₁ hfirst₂ hS₁ hS₂
    exact ⟨V, (hunify' V).2 hV⟩
  · rintro ⟨V, hV⟩
    obtain ⟨U, hU⟩ := ((hunify' V).1 hV).of_solved hF hfirst₁ hfirst₂ hS₁ hS₂
    exact ⟨U, (hunify U).2 hU⟩
  · intro U V hU hV
    obtain ⟨V', W, hV', hW, hsame⟩ := ((hunify U).1 hU).solved hF hfirst₁ hfirst₂ hS₁ hS₂
    rw [(hunify' V').2 hV'] at hV
    cases hV
    exact ⟨W, hW, hsame⟩

theorem ledger_isSimple : ledger.value.IsSimple := by
  have hlist {head element : Ty} (hhead : head.IsSimple) (helement : element.IsSimple) :
      (Ty.parametric head [element] ∅).IsSimple := by
    refine .node rfl fun t ht => ?_
    simp only [Ty.children, List.mem_cons, List.not_mem_nil, or_false] at ht
    rcases ht with rfl | rfl
    · exact hhead
    · exact helement
  intro name ty hget
  have hmem := ledger_entries hget
  simp only [List.mem_cons, List.not_mem_nil, or_false] at hmem
  rcases hmem with rfl | rfl | rfl | rfl | rfl
  · exact .leaf rfl rfl
  · exact hlist (.leaf rfl rfl) (Ty.IsSimple.labeled_iff.2 (.leaf rfl rfl))
  · exact .leaf rfl rfl
  · exact .leaf rfl rfl
  · exact hlist (.leaf rfl rfl) (.leaf rfl rfl)

/-- A column takes a list of `Int`; so does its solution, and with the same result. -/
theorem unify_dealiased_ledger :
    ledger.value.unify default (.reference "Column") (ledgerList (.reference "Int"))
        (fun _ _ => false) = .ok (ledgerList (.numeric .long ∅)) ∧
      (∃ V, ledger.value.unify default (solvedList (.labeled "cell" (.numeric .long ∅)))
        (solvedList (.numeric .int ∅)) (fun _ _ => false) = .ok V) ∧
      ∃ W, ledger.value.solve (ledgerList (.numeric .long ∅)) = .ok W ∧
        W.same (solvedList (.numeric .long ∅)) = true := by
  obtain ⟨-, -, hcolumn, hints, hU, -, hV⟩ := ledger_facts
  have hsimple : (ledgerList (.reference "Int")).IsSimple := by
    refine .node rfl fun t ht => ?_
    simp only [ledgerList, Ty.children, List.mem_cons, List.not_mem_nil, or_false] at ht
    rcases ht with rfl | rfl <;> exact .leaf rfl rfl
  obtain ⟨hiff, hresult⟩ := unify_dealiased ledger_builtInLayers ledger_isSimple default
    (fun _ _ => false) (.leaf rfl rfl) hsimple hcolumn hints
  exact ⟨hU, hiff.1 ⟨_, hU⟩, hresult _ _ hU hV⟩

end TypeEngine

import TypeEngine.Proofs.Dealiasing
import TypeEngine.Proofs.Erasure
import TypeEngine.Proofs.Filling

/-!
# Matching twice

A parameter that occurs many times is bound to what all the types at its places unify to, and on the
way its binding may have grown. Matching the same pattern with the same type once more asks for the
same bindings again, each narrow type of the first time against the widest. Nothing comes of it: all
requests succeed, the same keys are bound, and every binding has the solution it had, attributes
aside (`extract_idempotent`).

Three facts carry the proof.

* The script of a match does not depend on what is bound, and as long as it ends well not on the
  location either (`Setting.script_eq_of_ok`).
* After the first match the binding of a key covers every type that was requested for the key
  (`Serves`), so it takes them all again.
* What a type without variables and labels unifies with another such type to is the type itself,
  once names are solved (`Meets.same_of_rigid`). Labels would not stay: a number type under a label
  gives the number type.
-/

namespace TypeEngine

variable {R : Registry} {known : String → Prop}

/-! ## Types without labels -/

/-- No part of the type has a label. Heads and the cases of unions do not count. -/
inductive Ty.Unlabeled : Ty → Prop
  | node {ty : Ty} : (∀ label inner, ty ≠ .labeled label inner) →
      (∀ c ∈ ty.components, Unlabeled c) → Unlabeled ty

namespace Ty

theorem Unlabeled.leaf {ty : Ty} (hlabel : ∀ label inner, ty ≠ .labeled label inner)
    (hnone : ty.components = []) : ty.Unlabeled :=
  .node hlabel fun c hc => by simp [hnone] at hc

theorem components_withAttributes (attributes : Attributes) (ty : Ty) :
    ∀ c ∈ (ty.withAttributes attributes).components, c ∈ ty.components := by
  intro c hc
  cases ty with
  | labeled | annotated | impl => simp [withAttributes, components] at hc
  | _ => exact hc

theorem Unlabeled.withAttributes {ty : Ty} (h : ty.Unlabeled) (attributes : Attributes) :
    (ty.withAttributes attributes).Unlabeled := by
  obtain ⟨hlabel, hcomponents⟩ := h
  refine .node (fun label inner heq => ?_) fun c hc =>
    hcomponents c (components_withAttributes attributes ty c hc)
  cases ty with
  | labeled label inner => exact hlabel label inner rfl
  | _ => cases heq

end Ty

/-- What a type without labels stands for has no labels if the types of its names have none. -/
theorem Fragment.unlabeled_resolved {unions : Bool} (hF : Fragment R known unions)
    (hstored : ∀ name ty, known name → R.get? name = some ty → ty.Unlabeled) {a t : Ty}
    (ha : FirstOrder R known unions a) (hlabel : a.Unlabeled) (ht : R.resolve a = .ok t) :
    t.Unlabeled := by
  obtain ⟨O, hwalk⟩ := Registry.resolve_eq_ok_iff.1 ht
  refine (hwalk.keeps (P := fun ty => FirstOrder R known unions ty ∧ ty.Unlabeled) hF.layered
    ?_ ?_ ?_ ?_ ?_ (.refl _) ⟨ha, hlabel⟩).1.2
  · rintro name target ⟨href, -⟩ hget
    have hknown := href.known_of_target rfl
    exact ⟨hF.stored name target hknown hget, hstored name target hknown hget⟩
  · rintro name attributes ⟨halias, -⟩
    exact ⟨.name rfl (halias.known_of_target rfl), .leaf (by simp) rfl⟩
  · rintro attributes u ⟨hu, hlabel⟩
    exact ⟨hu.withAttributes attributes, hlabel.withAttributes attributes⟩
  · rintro label u ⟨-, ⟨hlabel, -⟩⟩
    exact absurd rfl (hlabel label u)
  · rintro label union attributes ⟨hfirst, -⟩
    cases hfirst with
    | name hname => cases hname

/-! ## Rigid types -/

/-- Whether the type is a concrete type, a number type or a compound type. -/
def Ty.isRigidKind : Ty → Bool
  | .concrete .. | .numeric .. | .parametric .. | .function .. | .tuple .. => true
  | _ => false

/-- The type is made of concrete types and number types by tuples, functions and heads: there are no
variables, names or labels in it. -/
inductive Ty.Rigid : Ty → Prop
  | node {ty : Ty} : ty.isRigidKind = true → (∀ c ∈ ty.components, Rigid c) → Rigid ty

namespace Ty

theorem isRigidKind_bare (ty : Ty) : ty.bare.isRigidKind = ty.isRigidKind := by
  cases ty <;> simp [isRigidKind]

theorem components_bare (ty : Ty) : ty.bare.components = ty.components.map bare := by
  cases ty <;> simp [components]

namespace Rigid

variable {ty : Ty}

theorem kind (h : ty.Rigid) : ty.isRigidKind = true := by
  obtain ⟨hkind, -⟩ := h
  exact hkind

theorem inner_eq (h : ty.Rigid) : ty.inner = ty := by
  have hkind := h.kind
  cases ty <;> first | rfl | cases hkind

theorem isParameter_eq (h : ty.Rigid) : ty.isParameter = false := by
  have hkind := h.kind
  cases ty <;> first | rfl | cases hkind

theorem resolve (h : ty.Rigid) (R : Registry) : R.resolve ty = .ok ty := by
  have hkind := h.kind
  refine Registry.resolve_of_settled ?_
  cases ty <;> first | rfl | cases hkind

/-- A type that is the same as a rigid type, attributes aside, is rigid. -/
theorem of_same {u : Ty} (h : ty.Rigid) (hsame : u.same ty = true) : u.Rigid := by
  induction h generalizing u with
  | @node ty hkind _ ih =>
    have hbare := Ty.same_iff.1 hsame
    refine .node ?_ fun c hc => ?_
    · rw [← isRigidKind_bare, hbare, isRigidKind_bare]
      exact hkind
    · have hmem : c.bare ∈ ty.components.map bare := by
        rw [← components_bare, ← hbare, components_bare]
        exact List.mem_map_of_mem hc
      obtain ⟨d, hd, heq⟩ := List.mem_map.1 hmem
      exact ih d hd (Ty.same_iff.2 heq.symm)

end Rigid

end Ty

theorem Registry.Solid.isRigidKind {x X : Ty} (h : R.Solid x X)
    (hunion : ∀ cases attributes, x ≠ .union cases attributes) (hX : X.isParameter = false) :
    X.isRigidKind = true := by
  cases h with
  | atom hatom => cases x <;> simp_all [Ty.isAtom, Ty.isRigidKind, Ty.isParameter]
  | union cases cases' attributes => exact absurd rfl (hunion cases attributes)
  | compound hshell => cases hshell <;> rfl

/-- **The solution of a type without labels is rigid** if there are no variables in it. -/
theorem Fragment.rigid_solution (hF : Fragment R known false)
    (hstored : ∀ name ty, known name → R.get? name = some ty → ty.Unlabeled) {a S : Ty}
    (ha : FirstOrder R known false a) (hlabel : a.Unlabeled) (hS : R.solve a = .ok S)
    (hclosed : S.IsClosed) : S.Rigid := by
  refine hF.induct (P := fun a => a.Unlabeled → ∀ S, R.solve a = .ok S → S.IsClosed → S.Rigid)
    (fun a t _ ha hexposed ih hlabel S hS hclosed => ?_) ha hS hlabel S hS hclosed
  have hx := hF.exposed ha hS hexposed.resolve
  obtain ⟨hnone, hcomponents⟩ := hF.unlabeled_resolved hstored ha hlabel hx.resolve
  -- There is no label around what the type stands for, so there is none around the solution.
  have hinner : t.inner = t := by
    cases hx.firstOrder with
    | labeled => exact absurd rfl (hnone _ _)
    | name hname => obtain rfl | ⟨_, rfl⟩ := Ty.eq_of_target hname <;> rfl
    | _ => rfl
  have hsolid := hx.solid hF
  have hSinner : S.inner = S := by
    have hsolve := hx.solve_inner hF
    rw [hinner, hx.solve] at hsolve
    exact (Outcome.ok.inj hsolve).symm
  have hparameter := hclosed.isParameter_inner
  rw [hinner] at hsolid ih
  rw [hSinner] at hsolid hparameter
  refine .node (hsolid.isRigidKind (fun cases attributes hunion => ?_) hparameter) fun C hC => ?_
  · exact hx.firstOrder.inner_ne_union cases attributes (hinner.trans hunion)
  · obtain ⟨c, hc, hsolve⟩ := exists_of_mem_forall₂ hsolid.components.flip hC
    exact ih c hc (hcomponents c hc) C hsolve (hclosed.components hC)

theorem Ty.same_rebuild_self {x y : Ty} (hshell : R.SameShell x y) (w : Ty) :
    (x.rebuild x.components w).same x = true := by
  rw [Ty.same_iff]
  cases hshell <;> simp [Ty.rebuild, Ty.components]

/-- **Rigid types unify to the expected one.** -/
theorem Meets.same_of_rigid {A B v : Ty} (h : Meets R A B v) (hA : A.Rigid) (hB : B.Rigid) :
    v.same A = true := by
  induction h with
  | parameter hs _ hx =>
    rw [hA.resolve] at hs
    cases hs
    rw [hA.inner_eq, hA.isParameter_eq] at hx
    cases hx
  | absorbed _ ht _ hy =>
    rw [hB.resolve] at ht
    cases ht
    rw [hB.inner_eq, hB.isParameter_eq] at hy
    cases hy
  | concrete hs ht _ hsame =>
    rw [hA.resolve] at hs
    rw [hB.resolve] at ht
    cases hs
    cases ht
    rw [hA.inner_eq, hB.inner_eq] at hsame
    exact hsame
  | union hs | numeric hs =>
    rw [hA.resolve] at hs
    cases hs
    rw [hA.inner_eq]
    exact Ty.same_refl _
  | @compound A B s t us hs ht hshell hlength hresult _ ih =>
    rw [hA.resolve] at hs
    rw [hB.resolve] at ht
    cases hs
    cases ht
    rw [hA.inner_eq, hB.inner_eq] at *
    obtain ⟨-, hleft⟩ := hA
    obtain ⟨-, hright⟩ := hB
    have hus : List.Forall₂ (fun u c => u.same c = true) us A.components := by
      refine forall₂_iff_getElem?.2 ⟨hresult.symm, fun i u c hu hc => ?_⟩
      obtain ⟨d, hd⟩ := exists_getElem? hlength hc
      exact ih i c d u hc hd hu (hleft c (List.mem_of_getElem? hc))
        (hright d (List.mem_of_getElem? hd))
    exact Ty.same_trans (Ty.same_rebuild hshell hus _ B) (Ty.same_rebuild_self hshell B)

/-! ## Firm types -/

/-- The type is first-order, and its solution `S` is rigid. -/
structure Firm (R : Registry) (known : String → Prop) (ty S : Ty) : Prop where
  firstOrder : FirstOrder R known false ty
  solve : R.solve ty = .ok S
  rigid : S.Rigid

/-- What firm types unify to is firm, and has the solution of the expected type. -/
theorem Meets.firm (hF : Fragment R known false) {a b u A B : Ty} (h : Meets R a b u)
    (ha : Firm R known a A) (hb : Firm R known b B) : ∃ U, Firm R known u U ∧ U.same A = true := by
  obtain ⟨v, U, hmeets, hU, hsame⟩ := h.solved hF ha.firstOrder hb.firstOrder ha.solve hb.solve
  have hUA := Ty.same_trans hsame (hmeets.same_of_rigid ha.rigid hb.rigid)
  exact ⟨U, ⟨h.firstOrder hF ha.firstOrder hb.firstOrder, hU, ha.rigid.of_same hUA⟩, hUA⟩

/-- The components of what a firm type stands for are firm. -/
theorem Firm.component (hF : Fragment R known false) {ty S t c : Ty} (h : Firm R known ty S)
    (ht : R.resolve ty = .ok t) (hc : c ∈ t.inner.components) : ∃ C, Firm R known c C := by
  have hx := hF.exposed h.firstOrder h.solve ht
  obtain ⟨C, hC, hsolve⟩ := exists_of_mem_forall₂ (hx.solid hF).components hc
  rw [h.rigid.inner_eq] at hC
  obtain ⟨-, hrigid⟩ := h.rigid
  exact ⟨C, hx.firstOrder.inner.components hc, hsolve, hrigid C hC⟩

/-! ## Scripts -/

theorem Script.mem_inOrder {scripts : List Script} {r : String × Ty}
    (h : r ∈ (inOrder scripts).requests) : ∃ script ∈ scripts, r ∈ script.requests := by
  induction scripts with
  | nil => cases h
  | cons first rest ih =>
    rw [inOrder] at h
    split at h
    · rcases List.mem_append.1 h with h | h
      · exact ⟨first, List.mem_cons_self, h⟩
      · obtain ⟨script, hmem, hr⟩ := ih h
        exact ⟨script, List.mem_cons_of_mem first hmem, hr⟩
    · exact ⟨first, List.mem_cons_self, h⟩

/-- Without unions and labels in front, the subjects of a first-order type are its components. -/
theorem FirstOrder.subjects_eq {ty : Ty} (h : FirstOrder R known false ty)
    (hstop : ty.stopsWalk = true) : ty.subjects = ty.components := by
  cases h with
  | union _ _ hfalse => cases hfalse
  | name hname => obtain rfl | ⟨_, rfl⟩ := Ty.eq_of_target hname <;> rfl
  | labeled => cases hstop
  | _ => rfl

namespace Setting

variable {s : Setting}

/-- A compound pattern without traits asks for what its components ask for. -/
theorem firm_of_mem_scriptCompound (hF : Fragment s.types known false) {go : Ty → Ty → Script}
    {pattern ty S : Ty} (hpattern : FirstOrder s.types known false pattern)
    (hstop : pattern.stopsWalk = true) (hty : Firm s.types known ty S)
    (hgo : ∀ p ∈ pattern.components, ∀ t T, Firm s.types known t T →
      ∀ r ∈ (go p t).requests, ∃ T, Firm s.types known r.2 T)
    {r : String × Ty} (hr : r ∈ (s.scriptCompound go pattern ty).requests) :
    ∃ T, Firm s.types known r.2 T := by
  unfold scriptCompound at hr
  cases hplan : s.plan pattern ty with
  | error e =>
    rw [hplan] at hr
    cases hr
  | outOfFuel =>
    rw [hplan] at hr
    cases hr
  | ok chosen =>
    rw [hplan] at hr
    obtain ⟨t, ht, ⟨rfl, -⟩ | ⟨trait, actual, rfl, htrait⟩ | ⟨pairs, trait?, rfl, -, hpairs⟩⟩ :=
      plan_eq_ok hplan
    · cases hr
    · cases boundTrait_eq_none hpattern htrait
    · obtain ⟨hleft, hright⟩ := argumentPairs_eq_some hpairs
      have hx := hF.exposed hty.firstOrder hty.solve ht
      rw [hpattern.subjects_eq hstop] at hleft
      rw [hx.firstOrder.inner.subjects_eq hx.stopsWalk] at hright
      obtain ⟨script, hscript, hr⟩ := Script.mem_inOrder hr
      obtain ⟨p, hp, rfl⟩ := List.mem_map.1 hscript
      have hpattern' : p.1 ∈ pattern.components := hleft ▸ List.mem_map_of_mem hp
      have hactual : p.2 ∈ t.inner.components := hright ▸ List.mem_map_of_mem hp
      obtain ⟨T, hT⟩ := hty.component hF ht hactual
      exact hgo p.1 hpattern' p.2 T hT r hr

theorem scriptWithin_of_target {pattern t : Ty} {name : String}
    (hname : pattern.target? = some name) (ht : s.types.resolve pattern = .ok t) (n : Nat)
    (ty : Ty) : s.scriptWithin (n + 1) pattern ty = s.scriptWithin n t ty := by
  obtain rfl | ⟨_, rfl⟩ := Ty.eq_of_target hname <;> rw [scriptWithin, ht]

theorem scriptWithin_of_target_error {pattern : Ty} {name : String} {e : TypeError}
    (hname : pattern.target? = some name) (he : s.types.resolve pattern = .error e) (n : Nat)
    (ty : Ty) : s.scriptWithin (n + 1) pattern ty = .answer (.error e) := by
  obtain rfl | ⟨_, rfl⟩ := Ty.eq_of_target hname <;> rw [scriptWithin, he]

/-- **Matching with a firm type asks for firm types only.** -/
theorem firm_of_mem_scriptWithin (hF : Fragment s.types known false) {n : Nat} {pattern ty S : Ty}
    (hpattern : FirstOrder s.types known false pattern) (hty : Firm s.types known ty S)
    {r : String × Ty} (hr : r ∈ (s.scriptWithin n pattern ty).requests) :
    ∃ T, Firm s.types known r.2 T := by
  induction n generalizing pattern ty S r with
  | zero => cases hr
  | succ n ih =>
    have hcompound (hstop : pattern.stopsWalk = true)
        (hr : r ∈ (s.scriptCompound (s.scriptWithin n) pattern ty).requests) :
        ∃ T, Firm s.types known r.2 T :=
      firm_of_mem_scriptCompound hF hpattern hstop hty
        (fun p hp t T hT r hr => ih (hpattern.components hp) hT hr) hr
    cases hpattern with
    | parameter =>
      rw [List.mem_singleton.1 hr]
      exact ⟨S, hty⟩
    | concrete | numeric => cases hr
    | union _ _ hfalse => cases hfalse
    | labeled hinner => exact ih hinner hty hr
    | tuple | function | parametric => exact hcompound rfl hr
    | name hname hknown =>
      have hfirst : FirstOrder s.types known false pattern := .name hname hknown
      cases hresolve : s.types.resolve pattern with
      | error e =>
        rw [scriptWithin_of_target_error hname hresolve] at hr
        cases hr
      | ok resolved =>
        rw [scriptWithin_of_target hname hresolve] at hr
        exact ih (hF.resolved hfirst hresolve).1 hty hr

/-! ## Another location -/

theorem plan_of_location {location : Location} {pattern ty : Ty} {chosen : Plan}
    (h : s.plan pattern ty = .ok chosen) :
    Setting.plan ⟨s.types, s.implements, location⟩ pattern ty = .ok chosen := by
  have hstructure {actual : Ty} (h : plan.byStructure s pattern ty actual = .ok chosen) :
      plan.byStructure ⟨s.types, s.implements, location⟩ pattern ty actual = .ok chosen := by
    obtain ⟨pairs, rfl, hpairs⟩ := planByStructure_eq_ok h
    exact Outcome.bind_eq_ok.2 ⟨some pairs, hpairs, rfl⟩
  unfold plan at h ⊢
  obtain ⟨t, ht, h⟩ := Outcome.bind_eq_ok.1 h
  refine Outcome.bind_eq_ok.2 ⟨t, ht, ?_⟩
  dsimp only at h ⊢
  split_ifs at h ⊢
  · exact h
  · obtain ⟨trait?, htrait, h⟩ := Outcome.bind_eq_ok.1 h
    refine Outcome.bind_eq_ok.2 ⟨trait?, htrait, ?_⟩
    cases trait? with
    | none => exact hstructure h
    | some trait =>
      obtain ⟨applies, happlies, h⟩ := Outcome.bind_eq_ok.1 h
      refine Outcome.bind_eq_ok.2 ⟨applies, happlies, ?_⟩
      split_ifs at h ⊢
      · exact hstructure h
      · exact h
      · cases h

theorem scriptCompound_of_location {location : Location} {go go' : Ty → Ty → Script}
    {pattern ty : Ty} {matched : Bool}
    (hgo : ∀ p t matched, (go p t).ending = .ok matched → go' p t = go p t)
    (h : (s.scriptCompound go pattern ty).ending = .ok matched) :
    Setting.scriptCompound ⟨s.types, s.implements, location⟩ go' pattern ty
      = s.scriptCompound go pattern ty := by
  unfold scriptCompound at h ⊢
  cases hplan : s.plan pattern ty with
  | error e =>
    rw [hplan] at h
    cases h
  | outOfFuel =>
    rw [hplan] at h
    cases h
  | ok chosen =>
    rw [plan_of_location hplan]
    rw [hplan] at h
    cases chosen with
    | skip => rfl
    | witness => rfl
    | pairs pairs =>
      refine congrArg Script.inOrder (List.map_congr_left fun p hp => ?_)
      obtain ⟨⟨matched', hend⟩, -⟩ := Script.inOrder_eq_ok h (List.mem_map_of_mem hp)
      exact hgo p.1 p.2 matched' hend

theorem scriptWithin_of_location {location : Location} {n : Nat} {pattern ty : Ty} {matched : Bool}
    (h : (s.scriptWithin n pattern ty).ending = .ok matched) :
    Setting.scriptWithin ⟨s.types, s.implements, location⟩ n pattern ty
      = s.scriptWithin n pattern ty := by
  induction n generalizing pattern ty matched with
  | zero => rfl
  | succ n ih =>
    unfold scriptWithin at h ⊢
    cases pattern with
    | reference | typeAlias | constructor =>
      dsimp only at h ⊢
      generalize s.types.resolve _ = resolved at h ⊢
      cases resolved with
      | ok resolved => exact ih h
      | error e => rfl
    | labeled | annotated => exact ih h
    | parametric | function | tuple | union | intersection =>
      exact scriptCompound_of_location (fun p t matched hend => ih hend) h
    | impl t base =>
      dsimp only [scriptImpl] at h ⊢
      cases hresolve : s.types.resolve ty with
      | error e => rfl
      | ok resolved =>
        have hproves : Setting.provesTrait ⟨s.types, s.implements, location⟩ t resolved.inner
            = s.provesTrait t resolved.inner := rfl
        rw [hresolve] at h
        dsimp only at h ⊢
        rw [hproves]
        split_ifs at h ⊢
        · rfl
        · rfl
        · cases h
    | fixedTrait fixed =>
      dsimp only [scriptFixedTrait] at h ⊢
      cases hresolve : s.types.resolve ty with
      | error e => rfl
      | ok resolved =>
        rw [hresolve] at h
        dsimp only at h ⊢
        split_ifs at h ⊢
        · rfl
        · cases h
    | parameter | concrete | trait | method | numeric => rfl

/-- A script that ends well is the same at every location. -/
theorem script_eq_of_ok {pattern ty : Ty} {matched : Bool}
    (h : (s.script pattern ty).ending = .ok matched) (location : Location) :
    Setting.script ⟨s.types, s.implements, location⟩ pattern ty = s.script pattern ty :=
  scriptWithin_of_location h

end Setting

/-! ## Bindings that serve requests -/

/-- The bindings serve the requests: each key is bound to a type that covers all types requested for
it. All bindings are firm, and there is no error. -/
structure Serves (R : Registry) (known : String → Prop) (requests : List (String × Ty))
    (σ : Bindings) : Prop where
  errors : σ.errors = ∅
  firm : ∀ key B, σ.mappings.get? key = some B → ∃ S, Firm R known B S
  covers : ∀ key ty, (key, ty) ∈ requests →
    ∃ B, σ.mappings.get? key = some B ∧ Covers R B ty

/-- Both bind the same keys, and to types with the same solution, attributes aside. -/
def Bindings.SameSolutions (R : Registry) (σ σ' : Bindings) : Prop :=
  ∀ key, (σ.mappings.get? key = none ∧ σ'.mappings.get? key = none) ∨
    ∃ B B' S S', σ.mappings.get? key = some B ∧ σ'.mappings.get? key = some B' ∧
      R.solve B = .ok S ∧ R.solve B' = .ok S' ∧ S'.same S = true

theorem Bindings.SameSolutions.trans {σ σ' σ'' : Bindings} (h : σ.SameSolutions R σ')
    (h' : σ'.SameSolutions R σ'') : σ.SameSolutions R σ'' := by
  intro key
  rcases h key with ⟨hnone, hnone'⟩ | ⟨B, B', S, S', hB, hB', hS, hS', hsame⟩
  · rcases h' key with ⟨-, hnone''⟩ | ⟨_, _, _, _, hsome, -⟩
    · exact .inl ⟨hnone, hnone''⟩
    · rw [hnone'] at hsome
      cases hsome
  · rcases h' key with ⟨hnone, -⟩ | ⟨C, C', T, T', hC, hC', hT, hT', hsame'⟩
    · rw [hB'] at hnone
      cases hnone
    · rw [hB'] at hC
      cases hC
      rw [hS'] at hT
      cases hT
      exact .inr ⟨B, C', S, T', hB, hC', hS, hT', Ty.same_trans hsame' hsame⟩

namespace Serves

variable {requests : List (String × Ty)} {σ : Bindings} {key : String} {ty B u S U : Ty}

/-- Binding a key to a firm type that covers what the key was bound to, and what is requested. -/
theorem bind (h : Serves R known requests σ) (hu : Firm R known u U)
    (hold : ∀ B, σ.mappings.get? key = some B → Covers R u B) (hnew : Covers R u ty) :
    Serves R known ((key, ty) :: requests) (σ.bind key u) := by
  have hget (k : String) : (σ.bind key u).mappings.get? k
      = if k = key then some u else σ.mappings.get? k := by
    rw [Bindings.bind, Table.get?_insert]
  refine ⟨h.errors, fun k B hB => ?_, fun k t ht => ?_⟩
  · rw [hget] at hB
    split_ifs at hB
    · cases hB
      exact ⟨U, hu⟩
    · exact h.firm k B hB
  · rw [hget]
    by_cases hk : k = key
    · subst hk
      refine ⟨u, if_pos rfl, ?_⟩
      rcases List.mem_cons.1 ht with hfirst | ht
      · cases hfirst
        exact hnew
      · obtain ⟨B, hB, hcovers⟩ := h.covers k t ht
        exact (hold B hB).trans hcovers
    · rw [if_neg hk]
      rcases List.mem_cons.1 ht with hfirst | ht
      · cases hfirst
        exact absurd rfl hk
      · exact h.covers k t ht

theorem of_cons (h : Serves R known ((key, ty) :: requests) σ) : Serves R known requests σ :=
  ⟨h.errors, h.firm, fun k t ht => h.covers k t (List.mem_cons_of_mem _ ht)⟩

theorem sameSolutions_refl (h : Serves R known requests σ) : σ.SameSolutions R σ := by
  intro key
  cases hget : σ.mappings.get? key with
  | none => exact .inl ⟨rfl, rfl⟩
  | some C =>
    obtain ⟨T, hT⟩ := h.firm key C hget
    exact .inr ⟨C, C, T, T, rfl, rfl, hT.solve, hT.solve, Ty.same_refl T⟩

/-- Binding a key to another type with the same solution. -/
theorem sameSolutions_bind (h : Serves R known requests σ) (hB : σ.mappings.get? key = some B)
    (hS : R.solve B = .ok S) (hU : R.solve u = .ok U) (hsame : U.same S = true) :
    σ.SameSolutions R (σ.bind key u) := by
  intro k
  rw [Bindings.bind, Table.get?_insert]
  by_cases hk : k = key
  · subst hk
    exact .inr ⟨B, u, S, U, hB, if_pos rfl, hS, hU, hsame⟩
  · rw [if_neg hk]
    exact h.sameSolutions_refl k

end Serves

namespace Setting

variable {s : Setting} {requests done : List (String × Ty)} {σ σ' : Bindings}

/-- **One request of the first match:** the bindings serve it as well. -/
theorem serves_of_addMapping (hF : Fragment s.types known false) {key : String} {ty S : Ty}
    {matched : Bool} (hσ : Serves s.types known done σ) (hty : Firm s.types known ty S)
    (h : s.addMapping key ty σ = (.ok matched, σ')) :
    Serves s.types known ((key, ty) :: done) σ' := by
  have hself := hF.covers_self hty.firstOrder hty.solve
  cases hkey : σ.mappings.get? key with
  | none =>
    rw [addMapping_of_unbound hkey] at h
    cases h
    refine hσ.bind hty (fun B hB => ?_) hself
    rw [hkey] at hB
    cases hB
  | some existing =>
    obtain ⟨E, hE⟩ := hσ.firm key existing hkey
    obtain ⟨u, rfl, hu⟩ := addMapping_eq_ok hkey h
    have hold (hcovers : Covers s.types u existing) (B : Ty)
        (hB : σ.mappings.get? key = some B) : Covers s.types u B := by
      rw [hkey] at hB
      cases hB
      exact hcovers
    rcases hu with hu | hu
    · have hmeets := (unify_eq_ok_iff hF hE.firstOrder hty.firstOrder hE.solve).1 hu
      obtain ⟨U, hU, -⟩ := hmeets.firm hF hE hty
      obtain ⟨hleft, hright⟩ :=
        hmeets.covers hF hE.firstOrder hty.firstOrder hE.solve hty.solve
      exact hσ.bind hU (hold hleft) hright
    · have hmeets := (unify_eq_ok_iff hF hty.firstOrder hE.firstOrder hty.solve).1 hu
      obtain ⟨U, hU, -⟩ := hmeets.firm hF hty hE
      obtain ⟨hleft, hright⟩ :=
        hmeets.covers hF hty.firstOrder hE.firstOrder hty.solve hE.solve
      exact hσ.bind hU (hold hright) hleft

/-- **The first match:** in the end the bindings serve all requests. -/
theorem serves_of_perform (hF : Fragment s.types known false) {ending : Outcome Bool}
    {matched : Bool} (hrequests : ∀ r ∈ requests, ∃ S, Firm s.types known r.2 S)
    (hσ : Serves s.types known done σ) (h : s.perform ending requests σ = (.ok matched, σ')) :
    Serves s.types known (requests.reverse ++ done) σ' := by
  induction requests generalizing σ done with
  | nil =>
    cases h
    exact hσ
  | cons request requests ih =>
    obtain ⟨key, ty⟩ := request
    obtain ⟨S, hS⟩ := hrequests (key, ty) List.mem_cons_self
    rw [perform] at h
    rcases s.addMapping_cases key ty σ with ⟨u, hbind⟩ | ⟨_, e, -, hbind⟩ | hbind
    · rw [hbind] at h
      have hnext := ih (fun r hr => hrequests r (List.mem_cons_of_mem _ hr))
        (serves_of_addMapping hF hσ hS hbind) h
      simpa using hnext
    · rw [hbind] at h
      cases h
    · rw [hbind] at h
      cases h

/-- **One request once more:** it succeeds, and the binding keeps its solution. -/
theorem addMapping_again (hF : Fragment s.types known false) {key : String} {ty S : Ty}
    (hσ : Serves s.types known requests σ) (hmem : (key, ty) ∈ requests)
    (hty : Firm s.types known ty S) :
    ∃ σ', s.addMapping key ty σ = (.ok true, σ') ∧ Serves s.types known requests σ' ∧
      σ.SameSolutions s.types σ' := by
  obtain ⟨B, hB, hcovers⟩ := hσ.covers key ty hmem
  obtain ⟨E, hE⟩ := hσ.firm key B hB
  obtain ⟨u, hmeets⟩ := hcovers.meets
  obtain ⟨U, hU, hsame⟩ := hmeets.firm hF hE hty
  obtain ⟨hleft, hright⟩ := hmeets.covers hF hE.firstOrder hty.firstOrder hE.solve hty.solve
  have hunify := (unify_eq_ok_iff hF hE.firstOrder hty.firstOrder hE.solve).2 hmeets
  refine ⟨σ.bind key u, ?_, ?_, hσ.sameSolutions_bind hB hE.solve hU.solve hsame⟩
  · rw [addMapping, hB]
    dsimp only
    rw [hunify]
    rfl
  · refine (hσ.bind hU (fun B' hB' => ?_) hright).of_cons
    rw [hB] at hB'
    cases hB'
    exact hleft

/-- **The second match:** what was requested before can be requested again. -/
theorem perform_again (hF : Fragment s.types known false) {ending : Outcome Bool} {matched : Bool}
    (hending : ending = .ok matched) {all : List (String × Ty)}
    (hrequests : ∀ r ∈ requests, r ∈ all ∧ ∃ S, Firm s.types known r.2 S)
    (hσ : Serves s.types known all σ) :
    ∃ σ', s.perform ending requests σ = (.ok matched, σ') ∧ Serves s.types known all σ' ∧
      σ.SameSolutions s.types σ' := by
  induction requests generalizing σ with
  | nil =>
    rw [hending]
    exact ⟨σ, rfl, hσ, hσ.sameSolutions_refl⟩
  | cons request requests ih =>
    obtain ⟨key, ty⟩ := request
    obtain ⟨hmem, S, hS⟩ := hrequests (key, ty) List.mem_cons_self
    obtain ⟨σ₁, hfirst, hserves, hsame⟩ := addMapping_again hF hσ hmem hS
    obtain ⟨σ₂, hrest, hserves', hsame'⟩ :=
      ih (fun r hr => hrequests r (List.mem_cons_of_mem _ hr)) hserves
    refine ⟨σ₂, ?_, hserves', hsame.trans hsame'⟩
    rw [perform, hfirst]
    exact hrest

end Setting

/-- **Matching twice is matching once.** In a registry that is built in layers, let a pattern and a
type be first-order without unions and labels, and let the solution of the type have no variable. If
the pattern matches the type on fresh bindings, it matches once more on the bindings that result, at
any location. The answer is the same, the same keys are bound, there is no error, and every binding
has the solution it had, attributes aside. -/
theorem extract_idempotent {D : Built} (hD : BuiltInLayers D) {known : String → Prop}
    (hknown : ∀ name ty, known name → D.value.get? name = some ty →
      FirstOrder D.value known false ty ∧ ty.Unlabeled)
    (implements : Checker) (location location' : Location) {P T S : Ty}
    (hP : FirstOrder D.value known false P) (hT : FirstOrder D.value known false T)
    (hlabel : T.Unlabeled) (hS : D.value.solve T = .ok S) (hclosed : S.IsClosed) {matched : Bool}
    {σ : Bindings}
    (h : Setting.extract ⟨D.value, implements, location⟩ P T ∅ = (.ok matched, σ)) :
    ∃ σ', Setting.extract ⟨D.value, implements, location'⟩ P T σ = (.ok matched, σ') ∧
      σ'.errors = ∅ ∧ σ.SameSolutions D.value σ' := by
  have hF : Fragment D.value known false :=
    ⟨hD.layered, fun name ty hname hget => (hknown name ty hname hget).1⟩
  have hfirm : Firm D.value known T S := ⟨hT, hS, hF.rigid_solution
    (fun name ty hname hget => (hknown name ty hname hget).2) hT hlabel hS hclosed⟩
  rw [Setting.extract_eq_follow, Setting.follow] at h
  have hending := Setting.ending_of_perform _ h
  have hrequests (r : String × Ty)
      (hr : r ∈ (Setting.script ⟨D.value, implements, location⟩ P T).requests) :
      ∃ U, Firm D.value known r.2 U :=
    Setting.firm_of_mem_scriptWithin (s := ⟨D.value, implements, location⟩) hF hP hfirm hr
  have hfresh : Serves D.value known [] ∅ :=
    ⟨rfl, fun _ _ hB => (by cases hB), fun _ _ hr => (by cases hr)⟩
  have hserves := Setting.serves_of_perform (s := ⟨D.value, implements, location⟩) hF hrequests
    hfresh h
  obtain ⟨σ', hagain, hserves', hsame⟩ := Setting.perform_again
    (s := ⟨D.value, implements, location'⟩) hF hending
    (fun r hr => ⟨by simpa using hr, hrequests r hr⟩) hserves
  refine ⟨σ', ?_, hserves'.errors, hsame⟩
  rw [Setting.extract_eq_follow, Setting.follow,
    Setting.script_eq_of_ok (s := ⟨D.value, implements, location⟩) hending location']
  exact hagain

/-- A value, a list of values of its type, and another value. -/
def bookingPattern : Ty :=
  .tuple [.parameter "a" .written, ledgerList (.parameter "a" .written), .parameter "b" .written] ∅

/-- An `Int`, amounts, which are wider, and an `Int`. -/
def bookingType : Ty :=
  .tuple [.reference "Int", ledgerList (.reference "Amount"), .reference "Int"] ∅

def bookingBindings : Bindings :=
  ⟨.ofList [("a", .numeric .long ∅), ("b", .reference "Int")], ∅⟩

theorem booking_facts :
    ledger.value.get? "Int" = some (.numeric .int ∅) ∧
      ledger.value.get? "Amount" = some (.typeAlias "Long" ∅) ∧
      ledger.value.get? "Long" = some (.numeric .long ∅) ∧
      ledger.value.solve bookingType
        = .ok (.tuple [.numeric .int ∅, solvedList (.numeric .long ∅), .numeric .int ∅] ∅) ∧
      Setting.extract ⟨ledger.value, fun _ _ => false, default⟩ bookingPattern bookingType ∅
        = (.ok true, bookingBindings) := by
  decide +kernel

/-- The first match widens the binding of `a` from `Int` to the type of amounts. The second one asks
for `Int` again, and the binding keeps its solution. -/
theorem extract_idempotent_ledger :
    Setting.extract ⟨ledger.value, fun _ _ => false, default⟩ bookingPattern bookingType ∅
        = (.ok true, bookingBindings) ∧
      ∃ σ', Setting.extract ⟨ledger.value, fun _ _ => false, default⟩ bookingPattern bookingType
          bookingBindings = (.ok true, σ') ∧
        σ'.errors = ∅ ∧ bookingBindings.SameSolutions ledger.value σ' := by
  obtain ⟨hint, hamount, hlong, hsolve, hextract⟩ := booking_facts
  have hknown (name : String) (ty : Ty) (hname : name = "Int" ∨ name = "Amount" ∨ name = "Long")
      (hget : ledger.value.get? name = some ty) :
      FirstOrder ledger.value (fun name => name = "Int" ∨ name = "Amount" ∨ name = "Long") false
        ty ∧ ty.Unlabeled := by
    rcases hname with rfl | rfl | rfl
    · rw [hint] at hget
      cases hget
      exact ⟨.numeric _ _, .leaf (by simp) rfl⟩
    · rw [hamount] at hget
      cases hget
      exact ⟨.name rfl (.inr (.inr rfl)), .leaf (by simp) rfl⟩
    · rw [hlong] at hget
      cases hget
      exact ⟨.numeric _ _, .leaf (by simp) rfl⟩
  have hlist {element : Ty} (helement : element.Unlabeled) : (ledgerList element).Unlabeled :=
    .node (by simp [ledgerList]) fun c hc => by
      rw [List.mem_singleton.1 hc]
      exact helement
  refine ⟨hextract, extract_idempotent ledger_builtInLayers hknown _ _ default ?_ ?_ ?_ hsolve ?_
    hextract⟩
  · refine .tuple fun t ht => ?_
    simp only [List.mem_cons, List.not_mem_nil, or_false] at ht
    rcases ht with rfl | rfl | rfl
    · exact .parameter _ _
    · exact ledger_list (.inl rfl) (.parameter _ _)
    · exact .parameter _ _
  · refine .tuple fun t ht => ?_
    simp only [List.mem_cons, List.not_mem_nil, or_false] at ht
    rcases ht with rfl | rfl | rfl
    · exact .name rfl (.inl rfl)
    · exact ledger_list (.inl rfl) (.name rfl (.inr (.inl rfl)))
    · exact .name rfl (.inl rfl)
  · refine .node (by simp [bookingType]) fun t ht => ?_
    simp only [bookingType, Ty.components, List.mem_cons, List.not_mem_nil, or_false] at ht
    rcases ht with rfl | rfl | rfl
    · exact .leaf (by simp) rfl
    · exact hlist (.leaf (by simp) rfl)
    · exact .leaf (by simp) rfl
  · refine .node rfl fun t ht => ?_
    simp only [Ty.children, List.mem_cons, List.not_mem_nil, or_false] at ht
    rcases ht with rfl | rfl | rfl
    · exact .leaf rfl rfl
    · refine .node rfl fun c hc => ?_
      simp only [solvedList, Ty.children, List.mem_cons, List.not_mem_nil, or_false] at hc
      rcases hc with rfl | rfl <;> exact .leaf rfl rfl
    · exact .leaf rfl rfl

end TypeEngine

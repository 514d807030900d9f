import TypeEngine.Proofs.DirectiveErasure

/-!
# Ordinary types

Types without traits, whose unions and type constructors are plain (`Registry.Ordinary`). If a type
comes to ordinary types only and can be solved, it unrolls (`Registry.exists_unrolls`).

An ordinary type that is expected may be replaced by another that says the same: its attributes do
not matter, and a name is as good as the entry that it names (`Setting.compatible_entry`).
-/

namespace TypeEngine

/-! ## Ordinary types -/

theorem Ty.lookup?_of_isUnion {ty : Ty} (h : ty.isUnion = true) : ty.lookup? = none := by
  cases ty <;> first | rfl | cases h

namespace Registry

/-- What is asked of the types that unification meets. There are no traits, a case label belongs to
a declared union, there is no directive inside a union, and the head of a parametric type is a
declared type constructor. If `exposed`, there is no name under a directive. -/
def Ordinary (R : Registry) (exposed : Bool) : Ty → Prop
  | .union cases attributes => (Ty.union cases attributes).plain = .union cases attributes
  | .parametric head _ _ => ∃ family, R.HeadOf family head
  | .constructor _ union _ => ∃ ty, R.get? union = some ty ∧ ty.inner.isUnion = true
  | .annotated _ ty => exposed = true → ty.inner.lookup? = none
  | .intersection .. | .trait _ | .method _ | .impl .. | .fixedTrait _ => False
  | _ => True

variable {R : Registry} {exposed : Bool} {ty : Ty}

theorem ordinary_shallow (R : Registry) (exposed : Bool) : Shallow (R.Ordinary exposed) where
  withAttributes {ty} attributes h := by
    cases ty with
    | union cases attributes' =>
      have hcases : plainCases cases = cases := (Ty.union.inj h).1
      show Ty.union (plainCases cases) attributes = _
      rw [hcases]
    | annotated directives ty =>
      intro hexposed
      rw [Ty.lookup?_inner_withAttributes]
      exact h hexposed
    | _ => exact h
  labeled _ _ := trivial
  reference _ := trivial

theorem Ordinary.isProper (h : R.Ordinary exposed ty) (hname : ty.lookup? = none)
    (hinner : ty.inner = ty) : ty.isProper = true := by
  cases ty with
  | labeled label t | annotated directives t =>
    -- A wrapper is not what lies inside of it.
    have hle := t.weight_inner_le
    have hlt := congrArg Ty.weight hinner
    simp only [Ty.inner, Ty.weight] at hlt
    omega
  | reference | typeAlias | constructor => cases hname
  | intersection | trait | method | impl | fixedTrait => exact h.elim
  | _ => rfl

theorem Ordinary.ne_impl (h : R.Ordinary exposed ty) (trait : Trait) (implementation : Ty) :
    ty ≠ .impl trait implementation := by
  rintro rfl
  exact h

/-- What a type stands for has no name under its labels and directives. -/
theorem lookup?_of_walk (hR : R.toCatalog.Layered) {C O : Catalog} {chain : List String} {n : Nat}
    {t : Ty} (hwalk : C.Walk chain ty O t) (hC : C.Under R.toCatalog)
    (h : C.Unrolls (R.Ordinary true) n ty) : t.inner.lookup? = none := by
  induction hwalk generalizing n with
  | @stop C chain ty hstop =>
    cases ty with
    | annotated directives ty => exact h.self rfl
    | reference | typeAlias | labeled | constructor => cases hstop
    | _ => rfl
  | reference _ hf _ ih =>
    obtain ⟨k, _, _, -, hf', ht⟩ := h.exists_entry rfl
    rw [hf] at hf'
    cases hf'
    exact ih (((hR.of_under hC).under_of_find? hf).trans hC) ht
  | typeAlias _ ih =>
    rw [Ty.addAttributes, Ty.lookup?_inner_withAttributes]
    exact ih hC (h.reference (R.ordinary_shallow true))
  | labeled _ ih =>
    cases n with
    | zero => cases h
    | succ n => exact ih hC (h.part (List.mem_singleton_self _))
  | constructor hf =>
    obtain ⟨u, hu, hunion⟩ := h.self
    rw [Catalog.get?, hR.find?_of_under hC hf] at hu
    cases hu
    exact Ty.lookup?_of_isUnion hunion

/-! ## What solves unrolls -/

/-- The type is ordinary, and a name is known where it is met. -/
structure OrdinaryAt (R : Registry) (exposed : Bool) (C : Catalog) (ty : Ty) : Prop where
  ordinary : R.Ordinary exposed ty
  known : ∀ name, ty.lookup? = some name → ∃ found, C.find? name = some found

theorem ordinaryAt_shallow (R : Registry) (exposed : Bool) (C : Catalog) :
    Shallow (R.OrdinaryAt exposed C) where
  withAttributes {ty} attributes h := by
    refine ⟨(R.ordinary_shallow exposed).withAttributes attributes h.ordinary, ?_⟩
    have hknown := h.known
    cases ty <;> exact hknown
  labeled _ _ := ⟨trivial, fun _ hname => by cases hname⟩
  reference h := ⟨trivial, h.known⟩

theorem exists_unrolls_of_isUnion {P : Ty → Prop} {C : Catalog} (h : C.Throughout (fun _ => P) ty)
    (hunion : ty.inner.isUnion = true) : ∃ n, C.Unrolls P n ty := by
  induction ty with
  | labeled label ty ih | annotated directives ty ih =>
    refine Catalog.Unrolls.exists_node rfl h.self fun t ht => ?_
    rw [List.mem_singleton.1 ht]
    exact ih (h.part (List.mem_singleton_self ty)) hunion
  | union => exact Catalog.Unrolls.exists_node rfl h.self fun t ht => by cases ht
  | _ => cases hunion

/-- **A type that can be solved unrolls**, if all that it comes to is ordinary. -/
theorem exists_unrolls (hR : R.toCatalog.Layered) {n : Nat} {s : Expansion} {S : Ty}
    (hs : s.catalog.Under R.toCatalog) (hin : s.inUnion = false)
    (hty : s.catalog.Throughout (R.OrdinaryAt exposed) ty) (h : solveWithin n s ty = .ok S) :
    ∃ m, s.catalog.Unrolls (R.Ordinary exposed) m ty := by
  induction n generalizing s ty S with
  | zero => cases h
  | succ n ih =>
    have hall : s.catalog.Throughout (fun _ => R.Ordinary exposed) ty :=
      hty.imp fun _ _ hu => hu.ordinary
    have hparts (hname : ty.lookup? = none)
        (hsolve : ∀ t ∈ ty.parts, ∃ u, solveWithin n s t = .ok u) :
        ∃ m, s.catalog.Unrolls (R.Ordinary exposed) m ty := by
      refine Catalog.Unrolls.exists_node hname hall.self fun t ht => ?_
      obtain ⟨u, hu⟩ := hsolve t ht
      exact ih hs hin (hty.part ht) hu
    have hmapM {ts us : List Ty} (h : ts.mapM (solveWithin n s) = .ok us) (t : Ty) (ht : t ∈ ts) :
        ∃ u, solveWithin n s t = .ok u := by
      obtain ⟨u, -, hu⟩ := exists_of_mem_forall₂ (Outcome.mapM_eq_ok.1 h) ht
      exact ⟨u, hu⟩
    have htarget {name : String} (hname : ty.target? = some name) :
        ∃ m, s.catalog.Unrolls (R.Ordinary exposed) m ty := by
      rw [solveWithin_target hname, Expansion.keepsName, hin] at h
      obtain ⟨kept, hkept, h⟩ := Outcome.bind_eq_ok.1 h
      cases hkept
      obtain ⟨⟨q, t⟩, hexpand, h⟩ := Outcome.bind_eq_ok.1 h
      obtain ⟨-, hwalk, hq⟩ := Expansion.expand_eq_ok (Outcome.liftM_eq_ok.1 hexpand)
      have hunder := (hwalk.under (hR.of_under hs)).trans hs
      have hqin : q.inUnion = false := by
        rw [hq]
        exact hin
      obtain ⟨m, hm⟩ := ih hunder hqin (hty.walk (R.ordinaryAt_shallow exposed) hwalk) h
      exact hm.of_walk (R.ordinary_shallow exposed) hwalk hall
    cases ty with
    | reference | typeAlias => exact htarget rfl
    | constructor label union attributes =>
      obtain ⟨⟨O, e⟩, hf⟩ := hty.self.known union rfl
      obtain ⟨t, ht, hunion⟩ := hty.self.ordinary
      rw [Catalog.get?, hR.find?_of_under hs hf] at ht
      cases ht
      obtain ⟨m, hm⟩ := exists_unrolls_of_isUnion (hall.entry rfl hf) hunion
      exact ⟨m + 1, .name rfl hall.self hf hm⟩
    | parametric head params attributes =>
      rw [solveWithin] at h
      obtain ⟨H, -, h⟩ := Outcome.bind_eq_ok.1 h
      obtain ⟨us, hus, -⟩ := Outcome.bind_eq_ok.1 h
      exact hparts rfl (hmapM hus)
    | function | tuple =>
      rw [solveWithin] at h
      obtain ⟨us, hus, -⟩ := Outcome.bind_eq_ok.1 h
      exact hparts rfl (hmapM hus)
    | labeled | annotated =>
      rw [solveWithin] at h
      obtain ⟨u, hu, -⟩ := Outcome.bind_eq_ok.1 h
      exact hparts rfl fun t ht => ⟨u, by rw [List.mem_singleton.1 ht, hu]⟩
    | intersection | trait | method | impl | fixedTrait => exact hall.self.elim
    | _ => exact hparts rfl fun t ht => by cases ht

/-- The actual type of a unification, with what it stands for. -/
structure Shows (R : Registry) (b t : Ty) : Prop where
  resolve : R.resolve b = .ok t
  lookup? : t.inner.lookup? = none
  ordinary : R.Ordinary true t.inner

theorem exists_shows (hR : R.toCatalog.Layered) {n : Nat}
    (h : R.toCatalog.Unrolls (R.Ordinary true) n ty) :
    ∃ t, R.Shows ty t ∧ R.toCatalog.Unrolls (R.Ordinary true) n t.inner := by
  have hP := R.ordinary_shallow true
  obtain ⟨t, ht⟩ := h.exists_resolve hP hR
  obtain ⟨O, hwalk⟩ := resolve_eq_ok_iff.1 ht
  have hinner := (h.resolved hP hR ht).inner
  exact ⟨t, ⟨ht, lookup?_of_walk hR hwalk (.refl _) h, hinner.self⟩, hinner⟩

end Registry

/-! ## The expected type -/

theorem Registry.SameShell.withAttributes {R : Registry} {x y : Ty} (h : R.SameShell x y)
    (attributes : Attributes) : R.SameShell (x.withAttributes attributes) y := by
  cases h with
  | function => exact .function
  | tuple => exact .tuple
  | parametric hx hy => exact .parametric hx hy

namespace Setting

variable {s : Setting} {a b t : Ty} {exposed : Bool}

theorem accepts_withAttributes {R : Registry} {related : Ty → Ty → Prop} {y : Ty}
    (ha : a.isProper = true) (attributes : Attributes) :
    Accepts R related (a.withAttributes attributes) b y ↔ Accepts R related a b y := by
  cases a with
  | parameter | numeric => rfl
  | concrete name attributes' => simp [Accepts, Ty.withAttributes, Ty.same_iff]
  | union cases attributes' => simp [Accepts, Ty.withAttributes, Ty.same_iff]
  | parametric _ _ attributes' | function _ _ attributes' | tuple _ attributes' =>
    refine or_congr_right (and_congr_left' ⟨fun h => ?_, fun h => h.withAttributes attributes⟩)
    exact h.withAttributes attributes'
  | _ => cases ha

theorem boundTrait_eq (hR : s.types.toCatalog.Layered) (h : s.types.Ordinary exposed a) :
    s.boundTrait a = .ok none := by
  cases a with
  | parametric head params attributes =>
    obtain ⟨family, hhead⟩ := h
    obtain ⟨attributes, hsolved⟩ := hhead.solvedHead hR
    show (s.types.solvedHead head >>= _) = _
    rw [hsolved]
    rfl
  | _ => rfl

theorem compatible_typeAlias {name : String} {attributes : Attributes} {r : Ty}
    (hr : s.types.resolve (.reference name) = .ok r)
    (hattributes : ∀ attributes, s.Compatible (r.withAttributes attributes) b ↔ s.Compatible r b) :
    s.Compatible (.typeAlias name attributes) b ↔ s.Compatible (.reference name) b := by
  obtain ⟨O, hwalk⟩ := Registry.resolve_eq_ok_iff.1 hr
  have halias : s.types.resolve (.typeAlias name attributes) = .ok (r.addAttributes attributes) :=
    Registry.resolve_eq_ok_iff.2 ⟨O, .typeAlias hwalk⟩
  rw [compatible_of_resolve halias, compatible_of_resolve hr]
  exact hattributes _

section Expected

variable (hR : s.types.toCatalog.Layered) (ht : s.types.resolve b = .ok t)
  (himpl : ∀ trait implementation, t.inner ≠ .impl trait implementation)
include hR ht himpl

/-- The attributes of the expected type do not matter. -/
theorem compatible_withAttributes {n : Nat}
    (h : s.types.toCatalog.Unrolls (s.types.Ordinary exposed) n a) (attributes : Attributes) :
    s.Compatible (a.withAttributes attributes) b ↔ s.Compatible a b := by
  have hP := s.types.ordinary_shallow exposed
  induction n generalizing a attributes with
  | zero => cases h
  | succ n ih =>
    have hself := h.self
    have hproper (ha : a.isProper = true) (ha' : (a.withAttributes attributes).isProper = true) :
        s.Compatible (a.withAttributes attributes) b ↔ s.Compatible a b := by
      rw [compatible_iff_accepts ha (boundTrait_eq hR hself) ht himpl,
        compatible_iff_accepts ha' (boundTrait_eq hR (hP.withAttributes attributes hself)) ht himpl]
      exact accepts_withAttributes ha attributes
    cases a with
    | reference name => rfl
    | typeAlias name attributes' =>
      -- Both are compatible if what the name stands for is.
      obtain ⟨r, hr⟩ := (h.reference hP).exists_resolve hP hR
      have hopened := (h.reference hP).opened hP hR rfl hr
      show s.Compatible (.typeAlias name attributes) b ↔ _
      rw [compatible_typeAlias hr (ih hopened), compatible_typeAlias hr (ih hopened)]
    | constructor label union attributes' =>
      obtain ⟨r, hr⟩ := h.exists_resolve hP hR
      obtain ⟨O, hwalk⟩ := Registry.resolve_eq_ok_iff.1 hr
      have hother : s.types.resolve (.constructor label union attributes) = .ok r := by
        cases hwalk with
        | constructor hf => exact Registry.resolve_eq_ok_iff.2 ⟨O, .constructor hf⟩
        | stop hstop => cases hstop
      show s.Compatible (.constructor label union attributes) b ↔ _
      rw [compatible_of_resolve hr, compatible_of_resolve hother]
    | labeled label a =>
      show s.Compatible (.labeled label (a.withAttributes attributes)) b ↔ _
      rw [compatible_labeled, compatible_labeled]
      exact ih (h.part (List.mem_singleton_self a)) attributes
    | annotated directives a =>
      show s.Compatible (.annotated directives (a.withAttributes attributes)) b ↔ _
      rw [compatible_annotated, compatible_annotated]
      exact ih (h.part (List.mem_singleton_self a)) attributes
    | intersection | trait | method | impl | fixedTrait => exact hself.elim
    | _ => exact hproper rfl rfl

/-- **A name is as compatible as the entry that it names.** -/
theorem compatible_entry {n : Nat} {O : Catalog} {e : Ty} {name : String}
    (h : s.types.toCatalog.Unrolls (s.types.Ordinary exposed) n a) (hname : a.lookup? = some name)
    (hf : s.types.find? name = some (O, e)) : s.Compatible a b ↔ s.Compatible e b := by
  have hP := s.types.ordinary_shallow exposed
  have hreference {r : Ty} (hr : s.types.resolve (.reference name) = .ok r) :
      s.Compatible (.reference name) b ↔ s.Compatible e b := by
    obtain ⟨Q, hwalk⟩ := Registry.resolve_eq_ok_iff.1 hr
    cases hwalk with
    | stop hstop => cases hstop
    | reference _ hf' hrest =>
      rw [hf] at hf'
      cases hf'
      -- The walk from the entry is the rest of the walk from the name.
      have hextends : s.types.toCatalog.Extends O := fun _ _ =>
        hR.find?_of_under (hR.under_of_find? hf)
      obtain ⟨Q', hentry⟩ := hextends.walk (hrest.of_chain (List.nil_subset _))
      rw [compatible_of_resolve hr]
      exact (compatible_of_resolve (Registry.resolve_eq_ok_iff.2 ⟨Q', hentry⟩)).symm
  cases a with
  | reference =>
    cases hname
    obtain ⟨r, hr⟩ := h.exists_resolve hP hR
    exact hreference hr
  | typeAlias =>
    cases hname
    obtain ⟨r, hr⟩ := (h.reference hP).exists_resolve hP hR
    rw [compatible_typeAlias hr, hreference hr]
    exact compatible_withAttributes hR ht himpl ((h.reference hP).resolved hP hR hr)
  | constructor label union attributes =>
    cases hname
    exact compatible_of_resolve (Registry.resolve_eq_ok_iff.2 ⟨O, .constructor hf⟩)
  | _ => cases hname

end Expected

end Setting

end TypeEngine

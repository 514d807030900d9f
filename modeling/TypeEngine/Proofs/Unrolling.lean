import TypeEngine.Proofs.Extensions

/-!
# Types that unroll

A type unrolls in a catalog if it comes to an end to go into its parts and to follow its names, each
in the catalog that declares it (`Unrolls`). How deep this goes is a number, and every name on the
way has a smaller one behind it. So no name can come again behind itself: in layers, a type that
unrolls can be resolved (`Unrolls.exists_resolve`), and unification of such types ends
(`Unrolls.grounded`).

What is met on the way satisfies a property `P`, which carries what else is asked of the types. If
it holds of all that a type comes to (`Throughout`), the type unrolls as soon as a walk along its
names ends at a type that does (`Unrolls.of_walk`).
-/

namespace TypeEngine

open Relation

theorem Ty.parts_of_lookup? {ty : Ty} {name : String} (h : ty.lookup? = some name) :
    ty.parts = [] := by
  cases ty <;> first | rfl | cases h

theorem Ty.withAttributes_restore (attributes : Attributes) (ty : Ty) :
    (ty.withAttributes attributes).withAttributes ty.attributes = ty := by
  induction ty with
  | labeled label ty ih | annotated directives ty ih | impl trait ty _ ih =>
    simp only [Ty.withAttributes, Ty.attributes, ih]
  | _ => rfl

/-- The property looks neither at attributes nor at labels, and all names are alike to it. -/
structure Shallow (P : Ty → Prop) : Prop where
  withAttributes : ∀ {ty : Ty} (attributes : Attributes), P ty → P (ty.withAttributes attributes)
  labeled : ∀ (label : String) (ty : Ty), P (.labeled label ty)
  reference : ∀ {name : String} {attributes : Attributes}, P (.typeAlias name attributes) →
    P (.reference name)

namespace Catalog

/-- `C.Unrolls P n ty`: in the catalog `C` the type unrolls in at most `n` steps behind each other,
and `P` holds of all that is met. -/
inductive Unrolls (P : Ty → Prop) : Catalog → Nat → Ty → Prop
  | node {C : Catalog} {n : Nat} {ty : Ty} : ty.lookup? = none → P ty →
      (∀ t ∈ ty.parts, Unrolls P C n t) → Unrolls P C (n + 1) ty
  | name {C O : Catalog} {n : Nat} {ty t : Ty} {name : String} : ty.lookup? = some name → P ty →
      C.find? name = some (O, t) → Unrolls P O n t → Unrolls P C (n + 1) ty

namespace Unrolls

variable {P : Ty → Prop} {R C O : Catalog} {n : Nat} {ty t : Ty} {chain : List String}
  {name : String}

theorem self (h : C.Unrolls P n ty) : P ty := by
  cases h with
  | node _ hself _ => exact hself
  | name _ hself _ _ => exact hself

theorem mono {m : Nat} (h : C.Unrolls P n ty) (hnm : n ≤ m) : C.Unrolls P m ty := by
  induction h generalizing m with
  | node hname hself _ ih =>
    obtain ⟨m, rfl⟩ : ∃ m', m = m' + 1 := ⟨m - 1, by omega⟩
    exact .node hname hself fun t ht => ih t ht (by omega)
  | name hname hself hf _ ih =>
    obtain ⟨m, rfl⟩ : ∃ m', m = m' + 1 := ⟨m - 1, by omega⟩
    exact .name hname hself hf (ih (by omega))

theorem part (h : C.Unrolls P (n + 1) ty) (ht : t ∈ ty.parts) : C.Unrolls P n t := by
  cases h with
  | node _ _ hparts => exact hparts t ht
  | name hname =>
    rw [Ty.parts_of_lookup? hname] at ht
    cases ht

theorem inner (h : C.Unrolls P n ty) : C.Unrolls P n ty.inner := by
  induction ty generalizing n with
  | labeled label ty ih | annotated directives ty ih =>
    cases n with
    | zero => cases h
    | succ n => exact (ih (h.part (List.mem_singleton_self ty))).mono (Nat.le_succ _)
  | _ => exact h

/-- The entry behind a name unrolls in fewer steps. -/
theorem entry (h : C.Unrolls P (n + 1) ty) (hname : ty.lookup? = some name)
    (hf : C.find? name = some (O, t)) : O.Unrolls P n t := by
  cases h with
  | node hnone =>
    rw [hname] at hnone
    cases hnone
  | name hname' _ hf' ht =>
    rw [hname] at hname'
    cases hname'
    rw [hf] at hf'
    cases hf'
    exact ht

theorem exists_entry (h : C.Unrolls P n ty) (hname : ty.lookup? = some name) :
    ∃ k O t, k < n ∧ C.find? name = some (O, t) ∧ O.Unrolls P k t := by
  cases h with
  | node hnone =>
    rw [hname] at hnone
    cases hnone
  | name hname' _ hf ht =>
    rw [hname] at hname'
    cases hname'
    exact ⟨_, _, _, Nat.lt_succ_self _, hf, ht⟩

theorem withAttributes (hP : Shallow P) (h : C.Unrolls P n ty) (attributes : Attributes) :
    C.Unrolls P n (ty.withAttributes attributes) := by
  induction h with
  | @node C n ty hname hself hparts ih =>
    have hself := hP.withAttributes attributes hself
    cases ty with
    | labeled label ty | annotated directives ty | impl trait ty =>
      refine .node rfl hself fun t ht => ?_
      rw [List.mem_singleton.1 ht]
      exact ih ty (List.mem_singleton_self ty)
    | reference | typeAlias | constructor => cases hname
    | _ => exact .node rfl hself hparts
  | @name C O n ty t name hname hself hf ht _ =>
    have hself := hP.withAttributes attributes hself
    cases ty with
    | reference | typeAlias | constructor =>
      cases hname
      exact .name rfl hself hf ht
    | _ => cases hname

theorem reference {attributes : Attributes} (hP : Shallow P)
    (h : C.Unrolls P n (.typeAlias name attributes)) : C.Unrolls P n (.reference name) := by
  have hself := hP.reference h.self
  cases h with
  | node hname => cases hname
  | name hname _ hf ht =>
    cases hname
    exact .name rfl hself hf ht

/-- What unrolls in a layer unrolls in every layer above it. -/
theorem of_under (hC : C.Layered) (hO : O.Under C) (h : O.Unrolls P n ty) : C.Unrolls P n ty := by
  induction h with
  | node hname hself _ ih => exact .node hname hself fun t ht => ih t ht hO
  | name hname hself hf ht _ => exact .name hname hself (hC.find?_of_under hO hf) ht

/-- Where a walk ends, the type unrolls as well. -/
theorem walk (hP : Shallow P) (hwalk : C.Walk chain ty O t) (h : C.Unrolls P n ty) :
    O.Unrolls P n t := by
  induction hwalk generalizing n with
  | stop => exact h
  | reference _ hf _ ih =>
    obtain ⟨k, _, _, hk, hf', ht⟩ := h.exists_entry rfl
    rw [hf] at hf'
    cases hf'
    exact (ih ht).mono hk.le
  | typeAlias _ ih => exact (ih (h.reference hP)).withAttributes hP _
  | labeled _ ih =>
    cases n with
    | zero => cases h
    | succ n =>
      refine .node rfl (hP.labeled _ _) fun u hu => ?_
      rw [List.mem_singleton.1 hu]
      exact ih (h.part (List.mem_singleton_self _))
  | constructor hf =>
    obtain ⟨k, _, _, hk, hf', ht⟩ := h.exists_entry rfl
    rw [hf] at hf'
    cases hf'
    exact ht.mono hk.le

/-- A walk from a type that unrolls comes to an end. The names on its chain need more steps than the
type at hand, so it meets none of them again. -/
theorem exists_walk (hP : Shallow P) (hR : R.Layered) (hC : C.Under R) (h : C.Unrolls P n ty)
    (hchain : ∀ other ∈ chain, ¬ R.Unrolls P n (.reference other)) :
    ∃ O t, C.Walk chain ty O t := by
  induction n generalizing C chain ty with
  | zero => cases h
  | succ n ih =>
    have hbefore : ∀ other ∈ chain, ¬ R.Unrolls P n (.reference other) :=
      fun other hmem hother => hchain other hmem (hother.mono (Nat.le_succ _))
    have hreference {name : String} (h : C.Unrolls P (n + 1) (.reference name)) :
        ∃ O t, C.Walk chain (.reference name) O t := by
      obtain ⟨_, O, t, -, hf, -⟩ := h.exists_entry rfl
      have ht := h.entry rfl hf
      by_cases hless : R.Unrolls P n (.reference name)
      · obtain ⟨k, _, _, hk, hf', ht'⟩ := hless.exists_entry rfl
        rw [hR.find?_of_under hC hf] at hf'
        cases hf'
        exact ih hC ((Unrolls.name rfl h.self hf ht').mono hk) hbefore
      · have hnew : ∀ other ∈ chain ++ [name], ¬ R.Unrolls P n (.reference other) := by
          intro other hmem
          rcases List.mem_append.1 hmem with hmem | hmem
          · exact hbefore other hmem
          · rw [List.mem_singleton.1 hmem]
            exact hless
        have hO := (hR.of_under hC).under_of_find? hf
        obtain ⟨O', t', hwalk⟩ := ih (hO.trans hC) ht hnew
        exact ⟨O', t', .reference (fun hmem => hchain name hmem (h.of_under hR hC)) hf hwalk⟩
    cases ty with
    | reference name => exact hreference h
    | typeAlias name attributes =>
      obtain ⟨O, t, hwalk⟩ := hreference (h.reference hP)
      exact ⟨O, _, .typeAlias hwalk⟩
    | labeled label ty =>
      obtain ⟨O, t, hwalk⟩ := ih hC (h.part (List.mem_singleton_self ty)) hbefore
      exact ⟨O, _, .labeled hwalk⟩
    | constructor label union attributes =>
      obtain ⟨_, O, t, -, hf, -⟩ := h.exists_entry rfl
      exact ⟨O, t, .constructor hf⟩
    | _ => exact ⟨C, _, .stop rfl⟩

/-! ## In a registry -/

variable {R : Registry}

theorem exists_resolve (hP : Shallow P) (hR : R.toCatalog.Layered)
    (h : R.toCatalog.Unrolls P n ty) : ∃ t, R.resolve ty = .ok t := by
  have hchain : ∀ other ∈ [], ¬ R.toCatalog.Unrolls P n (.reference other) := by simp
  obtain ⟨O, t, hwalk⟩ := h.exists_walk hP hR (.refl _) hchain
  exact ⟨t, Registry.resolve_eq_ok_iff.2 ⟨O, hwalk⟩⟩

theorem resolved (hP : Shallow P) (hR : R.toCatalog.Layered) (h : R.toCatalog.Unrolls P n ty)
    (ht : R.resolve ty = .ok t) : R.toCatalog.Unrolls P n t := by
  obtain ⟨O, hwalk⟩ := Registry.resolve_eq_ok_iff.1 ht
  exact (h.walk hP hwalk).of_under hR (hwalk.under hR)

/-- What a name stands for unrolls in fewer steps. -/
theorem opened (hP : Shallow P) (hR : R.toCatalog.Layered) (h : R.toCatalog.Unrolls P (n + 1) ty)
    (hname : ty.lookup? = some name) (ht : R.resolve ty = .ok t) : R.toCatalog.Unrolls P n t := by
  obtain ⟨O, hwalk⟩ := Registry.resolve_eq_ok_iff.1 ht
  refine Unrolls.of_under hR (hwalk.under hR) ?_
  cases hwalk with
  | stop hstop => cases ty <;> cases hname <;> cases hstop
  | reference _ hf hrest => exact (h.entry rfl hf).walk hP hrest
  | typeAlias hrest =>
    cases hrest with
    | stop hstop => cases hstop
    | reference _ hf hrest => exact ((h.entry rfl hf).walk hP hrest).withAttributes hP _
  | labeled => cases hname
  | constructor hf => exact h.entry rfl hf

theorem unfolds (hP : Shallow P) (hR : R.toCatalog.Layered) (h : R.toCatalog.Unrolls P (n + 1) ty)
    (ht : R.Unfolds ty t) : R.toCatalog.Unrolls P n t := by
  cases ht with
  | part ht => exact h.part ht
  | name hname ht => exact h.opened hP hR hname ht

theorem reaches (hP : Shallow P) (hR : R.toCatalog.Layered) (h : R.toCatalog.Unrolls P n ty)
    (ht : ReflTransGen R.Unfolds ty t) : R.toCatalog.Unrolls P n t := by
  induction ht with
  | refl => exact h
  | tail _ hstep ih =>
    cases n with
    | zero => cases h
    | succ n => exact (ih.unfolds hP hR hstep).mono (Nat.le_succ _)

/-- A name does not come again behind itself. -/
theorem lookup?_ne (hP : Shallow P) (hR : R.toCatalog.Layered) (h : R.toCatalog.Unrolls P n ty)
    (hname : ty.lookup? = some name) (ht : TransGen R.Unfolds ty t) : t.lookup? ≠ some name := by
  intro hagain
  induction n with
  | zero => cases h
  | succ n ih =>
    -- It would unroll in fewer steps there, and so it would here.
    obtain ⟨u, hstep, hrest⟩ := TransGen.head'_iff.1 ht
    have hthere := (h.unfolds hP hR hstep).reaches hP hR hrest
    obtain ⟨k, O, e, hk, hf, he⟩ := hthere.exists_entry hagain
    exact ih ((Unrolls.name hname h.self hf he).mono hk)

/-- **A type that unrolls is grounded.** -/
theorem grounded (hP : Shallow P) (hR : R.toCatalog.Layered) (h : R.toCatalog.Unrolls P n ty) :
    R.Grounded ty :=
  ⟨fun hreach hname ht => (h.reaches hP hR hreach).lookup?_ne hP hR hname ht,
    fun _ => Registry.solve_ne_outOfFuel hR _⟩

end Unrolls

/-! ## What unrolling comes to -/

/-- `C.ComesTo ty O u`: unrolling the type in `C` comes to `u`, in the catalog `O`. -/
inductive ComesTo : Catalog → Ty → Catalog → Ty → Prop
  | self (C : Catalog) (ty : Ty) : ComesTo C ty C ty
  | part {C O : Catalog} {ty t u : Ty} : t ∈ ty.parts → ComesTo C t O u → ComesTo C ty O u
  | name {C D O : Catalog} {ty t u : Ty} {name : String} : ty.lookup? = some name →
      C.find? name = some (D, t) → ComesTo D t O u → ComesTo C ty O u

variable {P : Ty → Prop} {C O : Catalog} {n : Nat} {ty t u : Ty} {chain : List String}
  {name : String}

theorem Unrolls.comesTo (h : C.Unrolls P n ty) (hu : C.ComesTo ty O u) : ∃ k, O.Unrolls P k u := by
  induction hu generalizing n with
  | self => exact ⟨n, h⟩
  | part ht _ ih =>
    cases n with
    | zero => cases h
    | succ n => exact ih (h.part ht)
  | name hname hf _ ih =>
    cases n with
    | zero => cases h
    | succ n => exact ih (h.entry hname hf)

/-- The property holds of all that unrolling the type comes to. -/
def Throughout (P : Catalog → Ty → Prop) (C : Catalog) (ty : Ty) : Prop :=
  ∀ O u, C.ComesTo ty O u → P O u

namespace Throughout

variable {P : Catalog → Ty → Prop}

theorem self (h : C.Throughout P ty) : P C ty :=
  h C ty (.self C ty)

theorem part (h : C.Throughout P ty) (ht : t ∈ ty.parts) : C.Throughout P t :=
  fun O u hu => h O u (.part ht hu)

theorem entry (h : C.Throughout P ty) (hname : ty.lookup? = some name)
    (hf : C.find? name = some (O, t)) : O.Throughout P t :=
  fun O u hu => h O u (.name hname hf hu)

theorem imp {Q : Catalog → Ty → Prop} (h : C.Throughout P ty) (hPQ : ∀ O u, P O u → Q O u) :
    C.Throughout Q ty :=
  fun O u hu => hPQ O u (h O u hu)

theorem withAttributes (hP : ∀ O, Shallow (P O)) (h : C.Throughout P ty) (attributes : Attributes) :
    C.Throughout P (ty.withAttributes attributes) := by
  have hself := (hP C).withAttributes attributes h.self
  induction ty with
  | labeled label ty ih | annotated directives ty ih | impl trait ty _ ih =>
    have hty := h.part (List.mem_singleton_self ty)
    intro O u hu
    cases hu with
    | self => exact hself
    | part ht hu =>
      rw [List.mem_singleton.1 ht] at hu
      exact ih hty ((hP C).withAttributes attributes hty.self) O u hu
    | name hname => cases hname
  | _ =>
    intro O u hu
    cases hu with
    | self => exact hself
    | part ht hu => exact h O u (.part ht hu)
    | name hname hf hu => exact h O u (.name hname hf hu)

theorem reference {attributes : Attributes} (hP : ∀ O, Shallow (P O))
    (h : C.Throughout P (.typeAlias name attributes)) : C.Throughout P (.reference name) := by
  intro O u hu
  cases hu with
  | self => exact (hP C).reference h.self
  | part ht => cases ht
  | name hname hf hu => exact h O u (.name hname hf hu)

theorem walk (hP : ∀ O, Shallow (P O)) (hwalk : C.Walk chain ty O t) (h : C.Throughout P ty) :
    O.Throughout P t := by
  induction hwalk with
  | stop => exact h
  | reference _ hf _ ih => exact ih (h.entry rfl hf)
  | typeAlias _ ih => exact (ih (h.reference hP)).withAttributes hP _
  | labeled _ ih =>
    have ht := ih (h.part (List.mem_singleton_self _))
    intro O u hu
    cases hu with
    | self => exact (hP _).labeled _ _
    | part hmem hu =>
      rw [List.mem_singleton.1 hmem] at hu
      exact ht O u hu
    | name hname => cases hname
  | constructor hf => exact h.entry rfl hf

end Throughout

namespace Unrolls

theorem exists_node (hname : ty.lookup? = none) (hself : P ty)
    (h : ∀ t ∈ ty.parts, ∃ n, C.Unrolls P n t) : ∃ n, C.Unrolls P n ty := by
  suffices hall : ∀ ts : List Ty, (∀ t ∈ ts, ∃ n, C.Unrolls P n t) →
      ∃ n, ∀ t ∈ ts, C.Unrolls P n t by
    obtain ⟨n, hn⟩ := hall ty.parts h
    exact ⟨n + 1, .node hname hself hn⟩
  intro ts hts
  induction ts with
  | nil => exact ⟨0, by simp⟩
  | cons t ts ih =>
    obtain ⟨n, hn⟩ := hts t List.mem_cons_self
    obtain ⟨m, hm⟩ := ih fun u hu => hts u (List.mem_cons_of_mem t hu)
    refine ⟨max n m, fun u hu => ?_⟩
    rcases List.mem_cons.1 hu with rfl | hu
    · exact hn.mono (Nat.le_max_left n m)
    · exact (hm u hu).mono (Nat.le_max_right n m)

/-- A type unrolls if a walk from it ends at a type that does. -/
theorem of_walk (hP : Shallow P) (hwalk : C.Walk chain ty O t)
    (hty : C.Throughout (fun _ => P) ty) (h : O.Unrolls P n t) : ∃ m, C.Unrolls P m ty := by
  induction hwalk generalizing n with
  | stop => exact ⟨n, h⟩
  | reference _ hf _ ih =>
    obtain ⟨m, hm⟩ := ih (hty.entry rfl hf) h
    exact ⟨m + 1, .name rfl hty.self hf hm⟩
  | @typeAlias C O chain name attributes t _ ih =>
    have ht := h.withAttributes hP t.attributes
    rw [Ty.addAttributes, Ty.withAttributes_restore] at ht
    obtain ⟨m, hm⟩ := ih (hty.reference fun _ => hP) ht
    obtain ⟨k, D, e, -, hf, he⟩ := hm.exists_entry rfl
    exact ⟨k + 1, .name rfl hty.self hf he⟩
  | labeled _ ih =>
    cases n with
    | zero => cases h
    | succ n =>
      have ht := h.part (List.mem_singleton_self _)
      obtain ⟨m, hm⟩ := ih (hty.part (List.mem_singleton_self _)) ht
      refine ⟨m + 1, .node rfl hty.self fun u hu => ?_⟩
      rw [List.mem_singleton.1 hu]
      exact hm
  | constructor hf => exact ⟨n + 1, .name rfl hty.self hf h⟩

end Unrolls

end Catalog

end TypeEngine

import Mathlib.Logic.Relation
import Mathlib.Tactic.Linarith
import Mathlib.Tactic.Ring
import TypeEngine.Proofs.Imports

/-!
# Unification of types that do not refer to themselves

Unification goes on with the parts of a type and with what its names stand for (`Unfolds`). If this
comes to an end after so many steps on both sides (`UnfoldsWithin`), then so does unification: each
call that it makes goes a step down on one side and not up on the other (`Setting.Calls.descends`).

A type is `Grounded` if no name that unfolding comes to comes again below itself, and if solving
ends at the heads of parametric types. All names are read in the registry at hand, as unification
reads them. In a type that comes from a module, a name then may stand for something else than in the
module, and the type can refer to itself here without doing so there.

For grounded types unfolding comes to an end, because names are counted. Below a name that was
opened, only other names can be opened, and a registry has only so many of them (`Catalog.visible`).
The budget of a type is what is left of them, each with the nodes behind it, and the nodes of the
type itself. So unification of two grounded types ends, in every registry
(`Setting.unify_ne_outOfFuel`). On the other side, unification that comes to wait for itself has no
end with any fuel (`Setting.unifyWithin_endless`).
-/

namespace TypeEngine

open Relation

/-! ## The names that a catalog knows -/

theorem eq_qualify_of_splitQualified {name key rest : String}
    (h : splitQualified name = some (key, rest)) : name = qualify key rest := by
  rw [splitQualified] at h
  cases hdrop : name.toList.dropWhile (· != '.') with
  | nil =>
    rw [hdrop] at h
    cases h
  | cons c cs =>
    rw [hdrop] at h
    cases h
    have hc : c = '.' := by
      have := List.head?_dropWhile_not (· != '.') name.toList
      rw [hdrop] at this
      simpa using this
    have hlist := List.takeWhile_append_dropWhile (p := (· != '.')) (l := name.toList)
    rw [hdrop, hc] at hlist
    apply String.toList_injective
    calc name.toList = _ := hlist.symm
      _ = (qualify _ _).toList := by simp [qualify]

namespace Catalog

mutual

/-- All names that are declared in reach, each as the catalog sees it. -/
def visible : Catalog → List String
  | ⟨parent, entries, imports⟩ =>
    entries.map (·.1) ++ (visibleBelow parent ++ visibleBeside imports)

def visibleBelow : Option Catalog → List String
  | none => []
  | some C => C.visible

def visibleBeside : List (String × Catalog) → List String
  | [] => []
  | (key, C) :: imports => C.visible.map (qualify key) ++ visibleBeside imports

end

theorem visible_eq (C : Catalog) :
    C.visible = C.entries.map (·.1) ++ (visibleBelow C.parent ++ visibleBeside C.imports) := by
  obtain ⟨parent, entries, imports⟩ := C
  rw [visible]

theorem length_visible (C : Catalog) : C.visible.length = C.stored.length := by
  refine @Catalog.rec (fun C => C.visible.length = C.stored.length)
    (fun parent => (visibleBelow parent).length = (storedBelow parent).length)
    (fun imports => (visibleBeside imports).length = (storedBeside imports).length)
    (fun p => p.2.visible.length = p.2.stored.length) ?_ rfl ?_ rfl ?_ ?_ C
  · intro parent entries imports hparent himports
    simp [visible, stored, hparent, himports]
  · intro C hC
    exact hC
  · intro p imports hp himports
    obtain ⟨key, C⟩ := p
    simp only [visibleBeside, storedBeside, List.length_append, List.length_map, himports]
    exact congrArg (· + _) hp
  · intro key C hC
    exact hC

theorem mem_visibleBeside {key name : String} {M : Catalog} {imports : List (String × Catalog)}
    (hM : (key, M) ∈ imports) (h : name ∈ M.visible) :
    qualify key name ∈ visibleBeside imports := by
  induction imports with
  | nil => cases hM
  | cons m imports ih =>
    obtain ⟨key', N⟩ := m
    rw [visibleBeside]
    rcases List.mem_cons.1 hM with hM | hM
    · cases hM
      exact List.mem_append_left _ (List.mem_map_of_mem h)
    · exact List.mem_append_right _ (ih hM)

theorem Sees.mem_visible {C O : Catalog} {name own : String} {ty : Ty}
    (h : C.Sees name O own ty) : name ∈ C.visible := by
  induction h with
  | @own C name ty hl =>
    rw [C.visible_eq]
    exact List.mem_append_left _ (List.mem_map.2 ⟨_, mem_of_lookup hl, rfl⟩)
  | @imported C M O name rest own ty _ hm _ ih =>
    rw [C.visible_eq]
    obtain ⟨⟨key, rest'⟩, hsplit, h⟩ := Option.bind_eq_some_iff.1 hm
    obtain ⟨N, hN, h⟩ := Option.map_eq_some_iff.1 h
    cases h
    rw [eq_qualify_of_splitQualified hsplit]
    exact List.mem_append_right _ (List.mem_append_right _
      (mem_visibleBeside (mem_of_lookup hN) ih))
  | @inherited C P O name own ty _ _ hP _ ih =>
    rw [C.visible_eq, hP]
    exact List.mem_append_right _ (List.mem_append_left _ ih)

/-- What a walk ends at is no larger than what the walk needs, and one declaration that a case
label leads to. -/
theorem Walk.weight_le_need {types : List Ty} {C O : Catalog} {chain : List String} {ty t : Ty}
    (h : C.Walk chain ty O t) (hty : Among types C ty) :
    t.weight ≤ walkNeed types chain ty + weightAll types := by
  induction h with
  | stop =>
    rw [walkNeed]
    omega
  | reference hnew hf _ ih =>
    obtain ⟨own, hsees⟩ := exists_sees hf
    have hlt := hty.need_lt rfl hnew hsees
    have := ih (hty.sees hsees).1
    omega
  | typeAlias _ ih =>
    rw [Ty.addAttributes, Ty.weight_withAttributes]
    exact ih ⟨hty.stored, hty.reference⟩
  | labeled _ ih =>
    have := ih ⟨hty.stored, hty.reference⟩
    rw [walkNeed_labeled, Ty.weight]
    omega
  | constructor hf =>
    obtain ⟨own, hsees⟩ := exists_sees hf
    exact Nat.le_add_left_of_le (weight_le_weightAll (hty.sees hsees).2)

end Catalog

theorem Registry.weight_le_of_name {R : Registry} {ty t : Ty} {name : String}
    (hname : ty.lookup? = some name) (h : R.resolve ty = .ok t) :
    t.weight ≤ (R.weight + 2) * (R.weight + 2) := by
  obtain ⟨O, hwalk⟩ := resolve_eq_ok_iff.1 h
  have hle := hwalk.weight_le_need (R.toCatalog.among_self ty)
  have hneed := walkNeed_le (ty :: R.stored) [] ty
  have hty : ty.weight = 1 := by cases ty <;> cases hname <;> rfl
  rw [weightAll, R.toCatalog.weightAll_stored, ← R.weight_eq, hty] at hle hneed
  calc t.weight ≤ 1 + (1 + R.weight) * (1 + R.weight + 1) + (1 + R.weight) := by omega
    _ = (R.weight + 2) * (R.weight + 2) := by ring

/-! ## Types that do not refer to themselves -/

namespace Registry

/-- `R.Unfolds ty t`: unification goes on from `ty` with `t`, a part of it or what it stands for. -/
inductive Unfolds (R : Registry) : Ty → Ty → Prop
  | part {ty t : Ty} : t ∈ ty.parts → Unfolds R ty t
  | name {ty t : Ty} {name : String} : ty.lookup? = some name → R.resolve ty = .ok t →
      Unfolds R ty t

/-- The type does not refer to itself in `R`: no name that unfolding it comes to comes again below
itself, and solving ends at every head that it comes to.

This is about the type as unification reads it. Names inside imported types are read in `R`, and not
in the module that declares them, so a type that does not refer to itself in its module need not be
grounded here. That solving ends at the heads is a condition of its own; it holds wherever `R` is
layered. -/
structure Grounded (R : Registry) (ty : Ty) : Prop where
  acyclic : ∀ {t t' : Ty} {name : String}, ReflTransGen R.Unfolds ty t → t.lookup? = some name →
    TransGen R.Unfolds t t' → t'.lookup? ≠ some name
  heads : ∀ {head : Ty} {params : List Ty} {attributes : Attributes},
    ReflTransGen R.Unfolds ty (.parametric head params attributes) → R.solve head ≠ .outOfFuel

/-- A grounded type below the names in `seen`: none of them comes again. -/
structure Below (R : Registry) (seen : List String) (ty : Ty) : Prop where
  grounded : R.Grounded ty
  fresh : ∀ {t : Ty} {name : String}, ReflTransGen R.Unfolds ty t → t.lookup? = some name →
    name ∉ seen

variable {R : Registry} {seen : List String} {ty t : Ty} {name : String}

theorem Grounded.below (h : R.Grounded ty) : R.Below [] ty :=
  ⟨h, fun _ _ => List.not_mem_nil⟩

namespace Below

theorem unfolds (h : R.Below seen ty) (ht : R.Unfolds ty t) : R.Below seen t := by
  refine ⟨⟨fun hreach => ?_, fun hreach => ?_⟩, fun hreach => ?_⟩
  · exact h.grounded.acyclic (.head ht hreach)
  · exact h.grounded.heads (.head ht hreach)
  · exact h.fresh (.head ht hreach)

/-- Behind a name, the name does not come again. -/
theorem opened (h : R.Below seen ty) (hname : ty.lookup? = some name)
    (ht : R.resolve ty = .ok t) : R.Below (seen ++ [name]) t := by
  have hstep : R.Unfolds ty t := .name hname ht
  refine ⟨(h.unfolds hstep).grounded, fun {u other} hu hother hmem => ?_⟩
  rcases List.mem_append.1 hmem with hmem | hmem
  · exact h.fresh (.head hstep hu) hother hmem
  · rw [List.mem_singleton.1 hmem] at hother
    exact h.grounded.acyclic .refl hname (.head' hstep hu) hother

theorem of_append {more : List String} (h : R.Below (seen ++ more) ty) : R.Below seen ty :=
  ⟨h.grounded, fun ht hname hmem => h.fresh ht hname (List.mem_append_left _ hmem)⟩

/-- A type that is no name is grounded if its parts are. -/
theorem node (hname : ty.lookup? = none)
    (hhead : ∀ {head : Ty} {params : List Ty} {attributes : Attributes},
      ty = .parametric head params attributes → R.solve head ≠ .outOfFuel)
    (hparts : ∀ t ∈ ty.parts, R.Below seen t) : R.Below seen ty := by
  have hreach {t : Ty} (ht : ReflTransGen R.Unfolds ty t) :
      t = ty ∨ ∃ u, R.Below seen u ∧ ReflTransGen R.Unfolds u t := by
    rcases ht.cases_head with rfl | ⟨u, hu, ht⟩
    · exact .inl rfl
    · cases hu with
      | part hmem => exact .inr ⟨u, hparts u hmem, ht⟩
      | name hlookup =>
        rw [hname] at hlookup
        cases hlookup
  refine ⟨⟨fun ht hlookup => ?_, fun ht => ?_⟩, fun ht hlookup => ?_⟩
  · rcases hreach ht with rfl | ⟨u, hu, ht⟩
    · rw [hname] at hlookup
      cases hlookup
    · exact hu.grounded.acyclic ht hlookup
  · rcases hreach ht with heq | ⟨u, hu, ht⟩
    · exact hhead heq.symm
    · exact hu.grounded.heads ht
  · rcases hreach ht with rfl | ⟨u, hu, ht⟩
    · rw [hname] at hlookup
      cases hlookup
    · exact hu.fresh ht hlookup

/-- A name is grounded if it does not come again in what it stands for. -/
theorem named (hname : ty.lookup? = some name) (hfresh : name ∉ seen) (ht : R.resolve ty = .ok t)
    (h : R.Below (seen ++ [name]) t) : R.Below seen ty := by
  have hstep {u : Ty} (hu : R.Unfolds ty u) : u = t := by
    cases hu with
    | part hmem => cases ty <;> cases hname <;> cases hmem
    | name _ hu =>
      rw [ht] at hu
      cases hu
      rfl
  have hreach {u : Ty} (hu : ReflTransGen R.Unfolds ty u) :
      u = ty ∨ ReflTransGen R.Unfolds t u := by
    rcases hu.cases_head with rfl | ⟨v, hv, hu⟩
    · exact .inl rfl
    · rw [hstep hv] at hu
      exact .inr hu
  refine ⟨⟨fun {u u' other} hu hother hu' => ?_, fun hu => ?_⟩, fun hu hother => ?_⟩
  · rcases hreach hu with rfl | hu
    · -- The name itself does not come again behind it.
      rw [hname] at hother
      cases hother
      intro hagain
      obtain ⟨v, hv, hu'⟩ := TransGen.head'_iff.1 hu'
      rw [hstep hv] at hu'
      exact h.fresh hu' hagain (by simp)
    · exact h.grounded.acyclic hu hother hu'
  · rcases hreach hu with heq | hu
    · rw [← heq] at hname
      cases hname
    · exact h.grounded.heads hu
  · rcases hreach hu with rfl | hu
    · rw [hname] at hother
      cases hother
      exact hfresh
    · exact h.of_append.fresh hu hother

end Below

end Registry

/-! ## Unfolding to the end -/

namespace Ty

theorem parts_subset_children (ty : Ty) : ty.parts ⊆ ty.children := by
  cases ty <;> simp [parts, children]

theorem weight_lt_of_mem_parts {ty t : Ty} (h : t ∈ ty.parts) : t.weight < ty.weight :=
  weight_lt_of_mem_children (ty.parts_subset_children h)

end Ty

namespace Registry

/-- Unfolding the type comes to an end in less than `n` steps, whichever way it goes, and solving
ends at the heads that it comes to. -/
def UnfoldsWithin (R : Registry) : Nat → Ty → Prop
  | 0, _ => False
  | n + 1, ty => (∀ {head : Ty} {params : List Ty} {attributes : Attributes},
      ty = .parametric head params attributes → R.solve head ≠ .outOfFuel) ∧
    ∀ t, R.Unfolds ty t → R.UnfoldsWithin n t

variable {R : Registry} {seen : List String} {ty t : Ty} {name : String} {n m : Nat}

namespace UnfoldsWithin

theorem pos (h : R.UnfoldsWithin n ty) : 0 < n := by
  cases n with
  | zero => exact h.elim
  | succ n => exact n.succ_pos

theorem head {head : Ty} {params : List Ty} {attributes : Attributes}
    (h : R.UnfoldsWithin n (.parametric head params attributes)) : R.solve head ≠ .outOfFuel := by
  cases n with
  | zero => exact h.elim
  | succ n => exact h.1 rfl

theorem unfolds (h : R.UnfoldsWithin n ty) (ht : R.Unfolds ty t) : R.UnfoldsWithin (n - 1) t := by
  cases n with
  | zero => exact h.elim
  | succ n => exact h.2 t ht

theorem part (h : R.UnfoldsWithin n ty) (ht : t ∈ ty.parts) : R.UnfoldsWithin (n - 1) t :=
  h.unfolds (.part ht)

theorem mono (h : R.UnfoldsWithin n ty) (hnm : n ≤ m) : R.UnfoldsWithin m ty := by
  induction n generalizing m ty with
  | zero => exact h.elim
  | succ n ih =>
    obtain ⟨m, rfl⟩ : ∃ k, m = k + 1 := ⟨m - 1, by omega⟩
    exact ⟨h.1, fun t ht => ih (h.2 t ht) (by omega)⟩

theorem inner (h : R.UnfoldsWithin n ty) : R.UnfoldsWithin n ty.inner := by
  induction ty generalizing n with
  | labeled label ty ih | annotated directives ty ih =>
    exact (ih (h.part (List.mem_singleton_self ty))).mono (Nat.sub_le n 1)
  | _ => exact h

/-- What a type stands for comes to an end as soon. -/
theorem resolved (h : R.UnfoldsWithin n ty) (ht : R.resolve ty = .ok t) : R.UnfoldsWithin n t := by
  induction ty generalizing n t with
  | labeled label ty ih =>
    obtain ⟨u, hu, rfl⟩ := resolve_labeled.1 ht
    have hinner := ih (h.part (List.mem_singleton_self ty)) hu
    obtain ⟨n, rfl⟩ : ∃ k, n = k + 1 := ⟨n - 1, by have := h.pos; omega⟩
    refine ⟨fun hparametric => (by cases hparametric), fun v hv => ?_⟩
    cases hv with
    | part hmem =>
      rw [List.mem_singleton.1 hmem]
      exact hinner
    | name hname => cases hname
  | reference | typeAlias | constructor =>
    exact (h.unfolds (.name rfl ht)).mono (Nat.sub_le n 1)
  | _ =>
    rw [resolve_of_settled rfl] at ht
    cases ht
    exact h

theorem toFunction {method : Method} (h : R.UnfoldsWithin n (.method method)) :
    R.UnfoldsWithin n method.toFunction := by
  cases n with
  | zero => exact h.elim
  | succ n =>
    refine ⟨fun hparametric => (by cases hparametric), fun t ht => ?_⟩
    cases ht with
    | part hmem => exact h.part hmem
    | name hname => cases hname

end UnfoldsWithin

/-! ## Budgets -/

/-- The names that are visible and not in `seen`. -/
def unopened (R : Registry) (seen : List String) : List String :=
  R.visible.filter fun name => decide (name ∉ seen)

/-- The nodes that unfolding comes to at most, one after the other, in a type below the names in
`seen`: those of the type itself, and those behind each name that can still be opened. -/
def budget (R : Registry) (seen : List String) (ty : Ty) : Nat :=
  ty.weight + (R.unopened seen).length * ((R.weight + 2) * (R.weight + 2))

theorem mem_visible_of_resolve (hname : ty.lookup? = some name) (ht : R.resolve ty = .ok t) :
    name ∈ R.visible := by
  obtain ⟨O, hwalk⟩ := resolve_eq_ok_iff.1 ht
  have hfind : ∃ r, R.find? name = some r := by
    cases hwalk with
    | stop hty => cases ty <;> cases hname <;> cases hty
    | reference _ hf _ =>
      cases hname
      exact ⟨_, hf⟩
    | typeAlias hwalk =>
      cases hname
      cases hwalk with
      | stop hty => cases hty
      | reference _ hf _ => exact ⟨_, hf⟩
    | constructor hf =>
      cases hname
      exact ⟨_, hf⟩
    | labeled => cases hname
  obtain ⟨r, hf⟩ := hfind
  obtain ⟨own, hsees⟩ := Catalog.exists_sees hf
  exact hsees.mem_visible

/-- Opening a name spends it. -/
theorem budget_of_name (hname : ty.lookup? = some name) (ht : R.resolve ty = .ok t)
    (hfresh : name ∉ seen) : R.budget (seen ++ [name]) t < R.budget seen ty := by
  have hlt : (R.unopened (seen ++ [name])).length < (R.unopened seen).length :=
    length_filter_notMem_lt (mem_visible_of_resolve hname ht) hfresh
  have hweight := weight_le_of_name hname ht
  have hty := ty.weight_pos
  unfold budget
  generalize (R.weight + 2) * (R.weight + 2) = bound at hweight ⊢
  have hmul : ((R.unopened (seen ++ [name])).length + 1) * bound
      ≤ (R.unopened seen).length * bound := Nat.mul_le_mul_right _ hlt
  rw [Nat.succ_mul] at hmul
  omega

/-- **Unfolding comes to an end within the budget.** -/
theorem Below.unfoldsWithin (h : R.Below seen ty) (hn : R.budget seen ty ≤ n) :
    R.UnfoldsWithin n ty := by
  induction n generalizing seen ty with
  | zero =>
    have := ty.weight_pos
    unfold budget at hn
    omega
  | succ n ih =>
    refine ⟨?_, fun t ht => ?_⟩
    · rintro head params attributes rfl
      exact h.grounded.heads .refl
    · cases ht with
      | part hmem =>
        have := Ty.weight_lt_of_mem_parts hmem
        refine ih (h.unfolds (.part hmem)) ?_
        unfold budget at hn ⊢
        omega
      | name hname hr =>
        have := budget_of_name hname hr (h.fresh .refl hname)
        exact ih (h.opened hname hr) (by omega)

theorem length_unopened_le (R : Registry) (seen : List String) :
    (R.unopened seen).length ≤ R.weight :=
  calc (R.unopened seen).length ≤ R.visible.length := List.length_filter_le _ _
    _ = R.stored.length := R.toCatalog.length_visible
    _ ≤ weightAll R.stored := length_le_weightAll _
    _ = R.weight := by rw [R.toCatalog.weightAll_stored, R.weight_eq]

/-- The fuel of unification covers both budgets twice. -/
theorem budget_add_lt_pairFuel (R : Registry) (a b : Ty) :
    2 * (R.budget [] a + R.budget [] b) < R.pairFuel a b := by
  have hunopened := R.length_unopened_le []
  have hr : R.reach [a, b] = R.weight + (a.weight + b.weight) + 4 := by
    simp only [reach, weightAll]
    omega
  rw [pairFuel]
  unfold budget
  generalize R.reach [a, b] = r at hr ⊢
  generalize (R.unopened []).length = u at hunopened ⊢
  have hnames : u * ((R.weight + 2) * (R.weight + 2)) ≤ R.weight * (r * r) :=
    Nat.mul_le_mul hunopened (Nat.mul_le_mul (by omega) (by omega))
  have hweights : 2 * (a.weight + b.weight) + 1 ≤ r * r := by nlinarith
  have hr4 : 4 * R.weight + 1 ≤ r * r := by nlinarith
  calc _ < 4 * (R.weight * (r * r)) + r * r := by linarith
    _ = (4 * R.weight + 1) * (r * r) := by ring
    _ ≤ (r * r) * (r * r) := Nat.mul_le_mul_right _ hr4

end Registry

/-! ## The calls of unification -/

/-- A method is first turned into a function. -/
def Ty.detour : Ty → Nat
  | .method _ => 1
  | _ => 0

theorem Ty.detour_le (ty : Ty) : ty.detour ≤ 1 := by
  cases ty <;> simp [detour]

namespace Setting

variable {s : Setting}

/-- **Every call goes down.** A step on either side counts twice, so that the detour of a method
counts less. -/
theorem Calls.descends {a b c d : Ty} (h : s.Calls (a, b) (c, d)) {j k : Nat}
    (ha : s.types.UnfoldsWithin j a) (hb : s.types.UnfoldsWithin k b) :
    ∃ j' k', s.types.UnfoldsWithin j' c ∧ s.types.UnfoldsWithin k' d ∧
      2 * (j' + k') + c.detour < 2 * (j + k) + a.detour := by
  have hj := ha.pos
  have hk := hb.pos
  have hdetour := c.detour_le
  cases h with
  | name hname ht => exact ⟨j - 1, k, ha.unfolds (.name hname ht), hb, by omega⟩
  | labeled | annotated => exact ⟨j - 1, k, ha.part (List.mem_singleton_self c), hb, by omega⟩
  | component ht hc hd =>
    exact ⟨j - 1, k - 1, ha.part (a.components_subset_parts hc),
      (hb.resolved ht).inner.part (Ty.components_subset_parts _ hd), by omega⟩
  | method => exact ⟨j, k, ha.toFunction, hb, Nat.lt_succ_self _⟩
  | methods => exact ⟨j, k, ha.toFunction, hb.toFunction, Nat.lt_succ_self _⟩
  | implementation ht =>
    exact ⟨j - 1, k, ha.part (List.mem_singleton_self c), hb.resolved ht, by omega⟩
  | represented ht himpl =>
    have hinner := (hb.resolved ht).inner
    rw [himpl] at hinner
    refine ⟨j, k - 1, ha, hinner.part (List.mem_singleton_self d), ?_⟩
    show 2 * (j + (k - 1)) + 0 < 2 * (j + k) + 0
    omega

/-! ## Unification ends -/

theorem headEnds_of_unfoldsWithin {n : Nat} {ty : Ty} (h : s.types.UnfoldsWithin n ty) :
    s.HeadEnds ty := by
  rintro head params attributes rfl
  exact h.head

/-- **Unification ends where unfolding does,** with fuel for twice the steps. -/
theorem unifyWithin_ends_of_unfoldsWithin {n j k : Nat} {a b : Ty}
    (ha : s.types.UnfoldsWithin j a) (hb : s.types.UnfoldsWithin k b)
    (hn : 2 * (j + k) + a.detour ≤ n) : s.unifyWithin n a b ≠ .outOfFuel := by
  induction n generalizing j k a b with
  | zero =>
    have := ha.pos
    omega
  | succ n ih =>
    refine ends_of_calls (headEnds_of_unfoldsWithin ha)
      (fun t ht => headEnds_of_unfoldsWithin (hb.resolved ht).inner) fun c d hcalls => ?_
    obtain ⟨j', k', hc, hd, hlt⟩ := hcalls.descends ha hb
    exact ih hc hd (by omega)

/-- **Unification of grounded types ends,** in every registry. -/
theorem unify_ne_outOfFuel {a b : Ty} (ha : s.types.Grounded a) (hb : s.types.Grounded b) :
    s.unify a b ≠ .outOfFuel := by
  have hfuel := s.types.budget_add_lt_pairFuel a b
  have hdetour := a.detour_le
  exact unifyWithin_ends_of_unfoldsWithin (ha.below.unfoldsWithin (Nat.le_refl _))
    (hb.below.unfoldsWithin (Nat.le_refl _)) (by omega)

/-! ## Unification without an end -/

/-- `s.Waits (a, b) (c, d)`: the unification of `a` and `b` has no result before that of `c` and `d`
has one. -/
inductive Waits (s : Setting) : Ty × Ty → Ty × Ty → Prop
  | name {a b t : Ty} {name : String} : a.lookup? = some name → s.types.resolve a = .ok t →
      Waits s (a, b) (t, b)
  /-- Elements that never fail come before. -/
  | element {b t c d : Ty} {before before' after after' : List Ty}
      {attributes attributes' : Attributes} : s.types.resolve b = .ok t →
      t.inner = .tuple (before' ++ d :: after') attributes' → before'.length = before.length →
      after'.length = after.length →
      (∀ p ∈ before.zip before', ∀ n e, s.unifyWithin n p.1 p.2 ≠ .error e) →
      Waits s (.tuple (before ++ c :: after) attributes, b) (c, d)
  | implementation {trait : Trait} {c b t : Ty} : (Ty.impl trait c).same b = false →
      b.proof? trait = none → s.types.resolve b = .ok t → Waits s (.impl trait c, b) (c, t)

theorem Waits.first {b t c d : Ty} {after after' : List Ty} {attributes attributes' : Attributes}
    (ht : s.types.resolve b = .ok t) (hinner : t.inner = .tuple (d :: after') attributes')
    (hafter : after'.length = after.length) :
    s.Waits (.tuple (c :: after) attributes, b) (c, d) :=
  @element s b t c d [] [] after after' attributes attributes' ht hinner rfl hafter (by simp)

theorem Waits.second {b t a' b' c d : Ty} {attributes attributes' : Attributes}
    (ht : s.types.resolve b = .ok t) (hinner : t.inner = .tuple [b', d] attributes')
    (hspared : ∀ n e, s.unifyWithin n a' b' ≠ .error e) :
    s.Waits (.tuple [a', c] attributes, b) (c, d) :=
  @element s b t c d [a'] [b'] [] [] attributes attributes' ht hinner rfl rfl
    (by simpa using hspared)

theorem unifyAll_eq_outOfFuel {go : Ty → Ty → Outcome Ty} {a b c d : Ty}
    {before before' after after' : List Ty} (hbefore : before'.length = before.length)
    (hafter : after'.length = after.length)
    (hspared : ∀ p ∈ before.zip before', ∀ e, go p.1 p.2 ≠ .error e) (hcd : go c d = .outOfFuel) :
    s.unifyAll go a b (before ++ c :: after) (before' ++ d :: after') = .outOfFuel := by
  rw [unifyAll, if_pos (by simp [hbefore, hafter]), List.zip_append hbefore.symm,
    List.zip_cons_cons]
  refine Outcome.mapM_eq_outOfFuel (fun p hp e he => ?_) ?_
  · dsimp only at he
    cases hgo : go p.1 p.2 with
    | error e' => exact hspared p hp e' hgo
    | _ =>
      rw [hgo] at he
      cases he
  · dsimp only
    rw [hcd]
    rfl

theorem Waits.outOfFuel {a b c d : Ty} {n : Nat} (h : s.Waits (a, b) (c, d))
    (hcd : s.unifyWithin n c d = .outOfFuel) : s.unifyWithin (n + 1) a b = .outOfFuel := by
  cases h with
  | name hname ht => rw [unifyWithin_of_lookup hname ht, hcd]
  | element ht hinner hbefore hafter hspared =>
    rw [unifyWithin, unifyCompound, ht, Outcome.liftM_ok, Outcome.ok_bind, hinner]
    show (s.unifyAll _ _ _ _ _ >>= _) = _
    rw [unifyAll_eq_outOfFuel hbefore hafter (fun p hp => hspared p hp n) hcd,
      Outcome.outOfFuel_bind]
  | implementation hsame hproof ht =>
    rw [unifyWithin, unifyImpl_of_resolved hsame hproof, unifyImpl.unifyResolved, ht,
      Outcome.liftM_ok, Outcome.ok_bind, hcd]

/-- **Unification that comes to wait for itself has no end.** -/
theorem unifyWithin_endless {a b c d : Ty} (hreach : ReflTransGen s.Waits (a, b) (c, d))
    (hloop : TransGen s.Waits (c, d) (c, d)) (n : Nat) : s.unifyWithin n a b = .outOfFuel := by
  induction n generalizing a b with
  | zero => rfl
  | succ n ih =>
    obtain ⟨⟨a', b'⟩, hstep, hreach⟩ :
        ∃ next, s.Waits (a, b) next ∧ ReflTransGen s.Waits next (c, d) := by
      rcases hreach.cases_head with heq | h
      · rw [heq]
        exact TransGen.head'_iff.1 hloop
      · exact h
    exact hstep.outOfFuel (ih hreach)

end Setting

end TypeEngine

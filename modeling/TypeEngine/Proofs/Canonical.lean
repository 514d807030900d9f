import Mathlib.Data.List.Sort
import TypeEngine.Proofs.Building
import TypeEngine.Proofs.Walks
import TypeEngine.Solving

/-!
# Canonical forms

A canonical type has no second names and no wrappers of implemented traits, its parametric types
have heads that are no parametric types, and it has references only inside union cases, where they
stand for unions. The parts of a type that solving leaves alone may hold anything.

Solving gives canonical types (`canonical_of_solveWithin`) and leaves them as they are
(`Canonical.solveWithin_eq_self`). The first holds because solving passes only from a layer to the
layers below it, and a name that stands for a union there does so above as well. The second holds
because solving a canonical type expands no name: all it spends is one unit of fuel for each level
of the type, and two for the head of a parametric type (`Ty.depth`).

For registries that are built in layers the two make `solve_fixedPoint`: a solution is canonical and
its own solution.
-/

namespace TypeEngine

open Std

/-! ## Attributes as sets -/

theorem Attributes.ext {s t : Attributes} (h : ∀ a, a ∈ s ↔ a ∈ t) : s = t := by
  obtain ⟨l, hl⟩ := s
  obtain ⟨m, hm⟩ := t
  have : Irrefl fun a b : Attribute => Attribute.cmp a b = .lt := ⟨fun a hlt => by
    have heq : Attribute.cmp a a = .eq := ReflCmp.compare_self
    rw [heq] at hlt
    cases hlt⟩
  have : Antisymm fun a b : Attribute => Attribute.cmp a b = .lt := ⟨fun a b hab hba => by
    have hgt : Attribute.cmp a b = .gt := OrientedCmp.gt_of_lt hba
    rw [hab] at hgt
    cases hgt⟩
  cases List.Pairwise.eq_of_mem_iff hl hm h
  rfl

/-- Attributes that are already there add nothing. -/
theorem Attributes.union_eq_right {s t : Attributes} (h : ∀ a ∈ s, a ∈ t) : s.union t = t :=
  Attributes.ext fun a => by
    rw [mem_union]
    exact ⟨fun hm => hm.elim (h a) id, .inr⟩

/-! ## Shapes -/

namespace Ty

/-- The name that a reference or a second name refers to. -/
def target? : Ty → Option String
  | .reference name | .typeAlias name _ => some name
  | _ => none

/-- Whether the type is a parametric type. -/
def isParametric : Ty → Bool
  | .parametric .. => true
  | _ => false

theorem weight_of_target {ty : Ty} {name : String} (h : ty.target? = some name) :
    ty.weight = 1 := by
  cases ty <;> first | rfl | cases h

theorem isUnion_inner_withAttributes (a : Attributes) (ty : Ty) :
    (ty.withAttributes a).inner.isUnion = ty.inner.isUnion := by
  induction ty with
  | labeled label ty ih => exact ih
  | annotated directives ty ih => exact ih
  | _ => rfl

end Ty

mutual

/-- The fuel that solving spends on a type in which it expands no name. -/
def Ty.depth : Ty → Nat
  | .parametric head params _ => max (head.depth + 1) (depthAll params) + 1
  | .function arguments _ _ => depthAll arguments + 1
  | .tuple elements _ => depthAll elements + 1
  | .union cases _ => depthCases cases + 1
  | .impl _ implementation => implementation.depth + 1
  | .labeled _ ty => ty.depth + 1
  | .annotated _ ty => ty.depth + 1
  | .parameter .. | .concrete .. | .reference .. | .typeAlias .. | .intersection .. => 1
  | .trait .. | .method .. | .fixedTrait .. | .constructor .. | .numeric .. => 1

def depthAll : List Ty → Nat
  | [] => 0
  | t :: ts => max t.depth (depthAll ts)

def depthCases : List Case → Nat
  | [] => 0
  | ⟨_, params⟩ :: cs => max (depthAll params) (depthCases cs)

end

theorem depthAll_le {ts : List Ty} {n : Nat} : depthAll ts ≤ n ↔ ∀ t ∈ ts, t.depth ≤ n := by
  induction ts with
  | nil => simp [depthAll]
  | cons t ts ih => simp [depthAll, ih]

theorem depthCases_le {cs : List Case} {n : Nat} :
    depthCases cs ≤ n ↔ ∀ c ∈ cs, ∀ t ∈ c.params, t.depth ≤ n := by
  induction cs with
  | nil => simp [depthCases]
  | cons c cs ih =>
    obtain ⟨label, params⟩ := c
    simp [depthCases, ih, depthAll_le]

theorem Ty.depth_le_weight (ty : Ty) : ty.depth ≤ 2 * ty.weight := by
  have hall {ts : List Ty} (ih : ∀ t ∈ ts, t.depth ≤ 2 * t.weight) :
      depthAll ts ≤ 2 * weightAll ts :=
    depthAll_le.2 fun t ht => by
      have := ih t ht
      have := weight_le_weightAll ht
      omega
  induction ty with
  | parametric head params attributes ihHead ih =>
    have := hall ih
    rw [depth, weight]
    omega
  | function arguments scope attributes ih =>
    have := hall ih
    rw [depth, weight]
    omega
  | tuple elements attributes ih =>
    have := hall ih
    rw [depth, weight]
    omega
  | union cases attributes ih =>
    have : depthCases cases ≤ 2 * weightCases cases :=
      depthCases_le.2 fun c hc t ht => by
        have := ih c hc t ht
        have := weight_le_weightAll ht
        have := weight_le_weightCases hc
        omega
    rw [depth, weight]
    omega
  | impl trait implementation _ ih =>
    rw [depth, weight]
    omega
  | labeled label ty ih =>
    rw [depth, weight]
    omega
  | annotated directives ty ih =>
    rw [depth, weight]
    omega
  | _ => simp only [depth, weight]; omega

/-! ## Names of unions -/

/-- The name stands for a union, labels and directives aside. -/
def Catalog.StandsForUnion (C : Catalog) (name : String) : Prop :=
  ∃ O t, C.Walk [] (.reference name) O t ∧ t.inner.isUnion = true

theorem Catalog.StandsForUnion.of_under {B C : Catalog} {name : String}
    (h : B.StandsForUnion name) (hC : C.Layered) (hB : B.Under C) : C.StandsForUnion name := by
  obtain ⟨O, t, hwalk, hunion⟩ := h
  exact ⟨O, t, hwalk.of_under hC hB, hunion⟩

/-! ## Canonical types -/

/-- `Canonical U b ty`: the type is canonical, where `U` holds of the names that stand for unions
and `b` tells whether a union case encloses the type. -/
inductive Canonical (U : String → Prop) : Bool → Ty → Prop
  | parameter (b : Bool) (name : String) (origin : Origin) : Canonical U b (.parameter name origin)
  | concrete (b : Bool) (name : String) (attributes : Attributes) :
      Canonical U b (.concrete name attributes)
  | numeric (b : Bool) (kind : Numeric) (attributes : Attributes) :
      Canonical U b (.numeric kind attributes)
  | constructor (b : Bool) (label union : String) (attributes : Attributes) :
      Canonical U b (.constructor label union attributes)
  | intersection (b : Bool) (params : List Ty) (attributes : Attributes) :
      Canonical U b (.intersection params attributes)
  | trait (b : Bool) (trait : Trait) : Canonical U b (.trait trait)
  | method (b : Bool) (method : Method) : Canonical U b (.method method)
  | fixedTrait (b : Bool) (trait : Trait) : Canonical U b (.fixedTrait trait)
  /-- Only inside a union case, and only for a union, does a reference stay. -/
  | reference {name : String} : U name → Canonical U true (.reference name)
  | parametric {b : Bool} {head : Ty} {params : List Ty} {attributes : Attributes} :
      Canonical U b head → head.isParametric = false →
      (∀ a ∈ head.attributes, a ∈ attributes) → (∀ t ∈ params, Canonical U b t) →
      Canonical U b (.parametric head params attributes)
  | function {b : Bool} {arguments : List Ty} {scope : Scope} {attributes : Attributes} :
      (∀ t ∈ arguments, Canonical U b t) → Canonical U b (.function arguments scope attributes)
  | tuple {b : Bool} {elements : List Ty} {attributes : Attributes} :
      (∀ t ∈ elements, Canonical U b t) → Canonical U b (.tuple elements attributes)
  | union {b : Bool} {cases : List Case} {attributes : Attributes} :
      (∀ c ∈ cases, ∀ t ∈ c.params, Canonical U true t) → Canonical U b (.union cases attributes)
  | labeled {b : Bool} {label : String} {ty : Ty} :
      Canonical U b ty → Canonical U b (.labeled label ty)
  | annotated {b : Bool} {directives : List Directive} {ty : Ty} :
      Canonical U b ty → Canonical U b (.annotated directives ty)

theorem Canonical.mono {U V : String → Prop} (hUV : ∀ name, U name → V name) {b : Bool} {ty : Ty}
    (h : Canonical U b ty) : Canonical V b ty := by
  induction h with
  | parametric _ hpar hattr _ ihHead ih => exact .parametric ihHead hpar hattr ih
  | function _ ih => exact .function ih
  | tuple _ ih => exact .tuple ih
  | union _ ih => exact .union ih
  | labeled _ ih => exact .labeled ih
  | annotated _ ih => exact .annotated ih
  | reference hU => exact .reference (hUV _ hU)
  | _ => constructor

theorem Canonical.head {U : String → Prop} {b : Bool} {head : Ty} {params : List Ty}
    {attributes : Attributes} (h : Canonical U b (.parametric head params attributes)) :
    Canonical U b head ∧ head.isParametric = false := by
  cases h with
  | parametric hhead hpar _ _ => exact ⟨hhead, hpar⟩

/-! ## The steps of solving -/

theorem Catalog.Walk.of_target {C O : Catalog} {ty t : Ty} {name : String}
    (h : C.Walk [] ty O t) (hname : ty.target? = some name) :
    ∃ t', C.Walk [] (.reference name) O t' ∧ t'.inner.isUnion = t.inner.isUnion := by
  cases h with
  | reference hnew hf hrest =>
    cases hname
    exact ⟨t, .reference hnew hf hrest, rfl⟩
  | @typeAlias _ _ _ _ attributes t' hrest =>
    cases hname
    exact ⟨t', hrest, (Ty.isUnion_inner_withAttributes _ t').symm⟩
  | stop hty => cases ty <;> simp_all [Ty.stopsWalk, Ty.target?]
  | labeled | constructor => cases hname

theorem Catalog.Walk.find?_of_target {C O : Catalog} {ty t : Ty} {name : String}
    (h : C.Walk [] ty O t) (hname : ty.target? = some name) :
    ∃ P target, C.find? name = some (P, target) := by
  obtain ⟨t', hwalk, -⟩ := h.of_target hname
  cases hwalk with
  | reference _ hf _ => exact ⟨_, _, hf⟩
  | stop hty => cases hty

namespace Expansion

theorem keepsName_eq_true {s : Expansion} {ty : Ty} {name : String}
    (hname : ty.target? = some name) (h : s.keepsName ty = .ok true) :
    s.inUnion = true ∧ s.catalog.StandsForUnion name := by
  rw [keepsName] at h
  split_ifs at h with hin
  · obtain ⟨⟨O, t⟩, hr, hunion⟩ := except_bind_eq_ok.1 h
    obtain ⟨t', hwalk, heq⟩ := (Catalog.walk_of_resolveWithin hr).of_target hname
    exact ⟨hin, O, t', hwalk, heq.trans (Except.ok.inj hunion)⟩
  · cases h

theorem expand_eq_ok {s s' : Expansion} {ty t : Ty} {name : String}
    (h : s.expand name ty = .ok (s', t)) :
    name ∉ s.expanding ∧ s.catalog.Walk [] ty s'.catalog t ∧
      s' = ⟨s'.catalog, s.walk, s.expanding ++ [name], s.inUnion⟩ := by
  rw [expand] at h
  obtain ⟨expanding, henter, h⟩ := except_bind_eq_ok.1 h
  rw [enterAlias] at henter
  split_ifs at henter with hnew
  cases henter
  obtain ⟨⟨O, t⟩, hr, h⟩ := except_bind_eq_ok.1 h
  cases h
  exact ⟨hnew, Catalog.walk_of_resolveWithin hr, rfl⟩

end Expansion

theorem solveWithin_target {n : Nat} {s : Expansion} {ty : Ty} {name : String}
    (hname : ty.target? = some name) :
    solveWithin (n + 1) s ty
      = liftM (s.keepsName ty) >>= fun kept =>
          if kept then pure (.reference name)
          else liftM (s.expand name ty) >>= fun p => solveWithin n p.1 p.2 := by
  cases ty <;> first | cases hname; rw [solveWithin] | cases hname

/-! ## Solving gives canonical types -/

/-- **What solving gives is canonical,** and no deeper than the fuel that was spent on it. What it
gives for a head is no parametric type. -/
theorem canonical_of_solveWithin (n : Nat) :
    (∀ {s : Expansion} {ty S : Ty}, s.catalog.Layered → solveWithin n s ty = .ok S →
      Canonical s.catalog.StandsForUnion s.inUnion S ∧ S.depth ≤ n) ∧
    (∀ {s : Expansion} {head H : Ty}, s.catalog.Layered → solveHeadWithin n s head = .ok H →
      Canonical s.catalog.StandsForUnion s.inUnion H ∧ H.isParametric = false ∧
        H.depth + 1 ≤ n) := by
  induction n with
  | zero => exact ⟨fun {_ _ _} _ h => (nomatch h), fun {_ _ _} _ h => (nomatch h)⟩
  | succ n ih =>
    obtain ⟨ih, ihHead⟩ := ih
    refine ⟨fun {s ty S} hs h => ?_, fun {s head H} hs h => ?_⟩
    · -- A list of parts, solved at the same place.
      have hall {s : Expansion} (hs : s.catalog.Layered) {ts us : List Ty}
          (h : ts.mapM (solveWithin n s) = .ok us) :
          (∀ u ∈ us, Canonical s.catalog.StandsForUnion s.inUnion u) ∧ depthAll us ≤ n := by
        have hu (u : Ty) (hu : u ∈ us) :
            Canonical s.catalog.StandsForUnion s.inUnion u ∧ u.depth ≤ n := by
          obtain ⟨t, -, ht⟩ := Outcome.exists_of_mem_mapM h hu
          exact ih hs ht
        exact ⟨fun u hm => (hu u hm).1, depthAll_le.2 fun u hm => (hu u hm).2⟩
      -- A name, kept or expanded.
      have hname {name : String} (hname : ty.target? = some name) :
          Canonical s.catalog.StandsForUnion s.inUnion S ∧ S.depth ≤ n + 1 := by
        rw [solveWithin_target hname] at h
        obtain ⟨kept, hkept, h⟩ := Outcome.bind_eq_ok.1 h
        rw [Outcome.liftM_eq_ok] at hkept
        split_ifs at h with hk
        · cases h
          subst hk
          obtain ⟨hin, hunion⟩ := Expansion.keepsName_eq_true hname hkept
          rw [hin]
          exact ⟨.reference hunion, by simp [Ty.depth]⟩
        · obtain ⟨⟨s', t⟩, hexpand, h⟩ := Outcome.bind_eq_ok.1 h
          rw [Outcome.liftM_eq_ok] at hexpand
          obtain ⟨-, hwalk, hs'⟩ := Expansion.expand_eq_ok hexpand
          have hunder := hwalk.under hs
          obtain ⟨hcanon, hdepth⟩ := ih (hs.of_under hunder) h
          rw [hs'] at hcanon
          exact ⟨hcanon.mono fun _ hu => hu.of_under hs hunder, Nat.le_succ_of_le hdepth⟩
      cases ty with
      | reference name => exact hname rfl
      | typeAlias name attributes => exact hname rfl
      | parametric head params attributes =>
        rw [solveWithin] at h
        obtain ⟨H, hH, h⟩ := Outcome.bind_eq_ok.1 h
        obtain ⟨us, hus, h⟩ := Outcome.bind_eq_ok.1 h
        cases h
        obtain ⟨hcanon, hpar, hdepth⟩ := ihHead hs hH
        obtain ⟨hcanons, hdepths⟩ := hall hs hus
        refine ⟨.parametric hcanon hpar (fun a ha => ?_) hcanons, ?_⟩
        · exact Attributes.mem_union.2 (.inl ha)
        · rw [Ty.depth]
          omega
      | function arguments scope attributes =>
        rw [solveWithin] at h
        obtain ⟨us, hus, h⟩ := Outcome.bind_eq_ok.1 h
        cases h
        obtain ⟨hcanons, hdepths⟩ := hall hs hus
        exact ⟨.function hcanons, Nat.succ_le_succ hdepths⟩
      | tuple elements attributes =>
        rw [solveWithin] at h
        obtain ⟨us, hus, h⟩ := Outcome.bind_eq_ok.1 h
        cases h
        obtain ⟨hcanons, hdepths⟩ := hall hs hus
        exact ⟨.tuple hcanons, Nat.succ_le_succ hdepths⟩
      | union cases attributes =>
        rw [solveWithin] at h
        obtain ⟨ds, hds, h⟩ := Outcome.bind_eq_ok.1 h
        cases h
        have hcase (d : Case) (hd : d ∈ ds) :
            (∀ u ∈ d.params, Canonical s.catalog.StandsForUnion true u) ∧
              depthAll d.params ≤ n := by
          obtain ⟨c, -, hc⟩ := Outcome.exists_of_mem_mapM hds hd
          obtain ⟨us, hus, hc⟩ := Outcome.bind_eq_ok.1 hc
          cases hc
          exact @hall s.enterUnion hs _ _ hus
        refine ⟨.union fun d hd => (hcase d hd).1, Nat.succ_le_succ ?_⟩
        exact depthCases_le.2 fun d hd => depthAll_le.1 (hcase d hd).2
      | impl trait implementation =>
        rw [solveWithin] at h
        obtain ⟨hcanon, hdepth⟩ := ih hs h
        exact ⟨hcanon, Nat.le_succ_of_le hdepth⟩
      | labeled label ty =>
        rw [solveWithin] at h
        obtain ⟨u, hu, h⟩ := Outcome.bind_eq_ok.1 h
        cases h
        obtain ⟨hcanon, hdepth⟩ := ih hs hu
        exact ⟨.labeled hcanon, Nat.succ_le_succ hdepth⟩
      | annotated directives ty =>
        rw [solveWithin] at h
        obtain ⟨u, hu, h⟩ := Outcome.bind_eq_ok.1 h
        cases h
        obtain ⟨hcanon, hdepth⟩ := ih hs hu
        exact ⟨.annotated hcanon, Nat.succ_le_succ hdepth⟩
      | _ =>
        cases h
        exact ⟨by constructor, by simp [Ty.depth]⟩
    · rw [solveHeadWithin] at h
      obtain ⟨u, hu, h⟩ := Outcome.bind_eq_ok.1 h
      obtain ⟨hcanon, hdepth⟩ := ih hs hu
      cases u with
      | parametric solved params attributes =>
        simp only at h
        obtain ⟨hsolved, hpar⟩ := hcanon.head
        split_ifs at h with hsame
        · cases h
          rw [Ty.depth] at hdepth
          exact ⟨hsolved, hpar, by omega⟩
        · obtain ⟨hcanon, hpar, hle⟩ := ihHead hs h
          exact ⟨hcanon, hpar, by omega⟩
      | _ =>
        cases h
        exact ⟨hcanon, rfl, Nat.succ_le_succ hdepth⟩

/-! ## Solving leaves canonical types alone -/

/-- **A canonical type is its own solution,** once there is fuel for all its levels. -/
theorem Canonical.solveWithin_eq_self {C : Catalog} (hC : C.Layered) {b : Bool} {S : Ty}
    (h : Canonical C.StandsForUnion b S) {n : Nat} {s : Expansion} (hs : s.catalog = C)
    (hb : s.inUnion = b) (hw : C.weight < s.walk) (hn : S.depth ≤ n) :
    solveWithin n s S = .ok S := by
  induction h generalizing n s with
  | @reference name hU =>
    obtain ⟨n, rfl⟩ : ∃ m, n = m + 1 := ⟨n - 1, by rw [Ty.depth] at hn; omega⟩
    obtain ⟨O, t, hwalk, hunion⟩ := hU
    have hr := hwalk.resolveWithin_eq_ok hC (w := s.walk) (by rw [Ty.weight]; omega)
    have hkept : s.keepsName (.reference name) = .ok true := by
      rw [Expansion.keepsName, if_pos hb, hs, hr]
      exact congrArg Except.ok hunion
    rw [solveWithin_target rfl, hkept]
    rfl
  | @parametric b head params attributes _ hpar hattr _ ihHead ih =>
    rw [Ty.depth] at hn
    obtain ⟨n, rfl⟩ : ∃ m, n = m + 2 := ⟨n - 2, by omega⟩
    have hhead : solveHeadWithin (n + 1) s head = .ok head := by
      rw [solveHeadWithin, ihHead hs hb hw (by omega)]
      cases head <;> first | rfl | cases hpar
    have hparams : params.mapM (solveWithin (n + 1) s) = .ok params :=
      Outcome.mapM_eq_self fun t ht =>
        ih t ht hs hb hw (depthAll_le.1 (show depthAll params ≤ n + 1 by omega) t ht)
    rw [solveWithin, hhead, Outcome.ok_bind, hparams, Outcome.ok_bind,
      Attributes.union_eq_right hattr]
    rfl
  | @function b arguments scope attributes _ ih =>
    rw [Ty.depth] at hn
    obtain ⟨n, rfl⟩ : ∃ m, n = m + 1 := ⟨n - 1, by omega⟩
    have hall : arguments.mapM (solveWithin n s) = .ok arguments :=
      Outcome.mapM_eq_self fun t ht => ih t ht hs hb hw (depthAll_le.1 (by omega) t ht)
    rw [solveWithin, hall]
    rfl
  | @tuple b elements attributes _ ih =>
    rw [Ty.depth] at hn
    obtain ⟨n, rfl⟩ : ∃ m, n = m + 1 := ⟨n - 1, by omega⟩
    have hall : elements.mapM (solveWithin n s) = .ok elements :=
      Outcome.mapM_eq_self fun t ht => ih t ht hs hb hw (depthAll_le.1 (by omega) t ht)
    rw [solveWithin, hall]
    rfl
  | @union b cases attributes _ ih =>
    rw [Ty.depth] at hn
    obtain ⟨n, rfl⟩ : ∃ m, n = m + 1 := ⟨n - 1, by omega⟩
    have hdepth := depthCases_le.1 (show depthCases cases ≤ n by omega)
    rw [solveWithin, Outcome.mapM_eq_self fun c hc => ?_]
    · rfl
    · have hparams : c.params.mapM (solveWithin n s.enterUnion) = .ok c.params :=
        Outcome.mapM_eq_self fun t ht => ih c hc t ht hs rfl hw (hdepth c hc t ht)
      rw [hparams]
      rfl
  | @labeled b label ty _ ih =>
    rw [Ty.depth] at hn
    obtain ⟨n, rfl⟩ : ∃ m, n = m + 1 := ⟨n - 1, by omega⟩
    rw [solveWithin, ih hs hb hw (by omega)]
    rfl
  | @annotated b directives ty _ ih =>
    rw [Ty.depth] at hn
    obtain ⟨n, rfl⟩ : ∃ m, n = m + 1 := ⟨n - 1, by omega⟩
    rw [solveWithin, ih hs hb hw (by omega)]
    rfl
  | _ =>
    obtain ⟨n, rfl⟩ : ∃ m, n = m + 1 := ⟨n - 1, by rw [Ty.depth] at hn; omega⟩
    rfl

/-! ## Solving in a registry -/

namespace Registry

/-- The name resolves to a union, labels and directives aside. -/
def StandsForUnion (R : Registry) (name : String) : Prop :=
  ∃ t, R.resolve (.reference name) = .ok t ∧ t.inner.isUnion = true

theorem reach_le_walkFuel (R : Registry) (ty : Ty) :
    R.toCatalog.weight + ty.weight + 4 ≤ R.walkFuel ty := by
  have hreach : R.reach [ty] = R.toCatalog.weight + ty.weight + 4 := by
    rw [reach, R.weight_eq, weightAll, weightAll]
    omega
  rw [walkFuel, hreach]
  exact Nat.le_mul_self _

theorem depth_le_descentFuel (R : Registry) (ty : Ty) : ty.depth ≤ R.descentFuel ty := by
  have hreach : ty.weight + 4 ≤ R.reach [ty] := by
    rw [reach, weightAll, weightAll]
    omega
  have hdepth := ty.depth_le_weight
  have hwalk := R.reach_le_walkFuel ty
  calc ty.depth ≤ 4 * (ty.weight + 4) := by omega
    _ ≤ R.walkFuel ty * R.reach [ty] := Nat.mul_le_mul (by omega) hreach

theorem standsForUnion_of_catalog {R : Registry} (hR : R.toCatalog.Layered) {name : String}
    (h : R.toCatalog.StandsForUnion name) : R.StandsForUnion name := by
  obtain ⟨O, t, hwalk, hunion⟩ := h
  have hfuel := R.reach_le_walkFuel (.reference name)
  refine ⟨t, ?_, hunion⟩
  rw [resolve, resolveOwned, hwalk.resolveWithin_eq_ok hR (by omega)]
  rfl

end Registry

/-- **Solving is a fixed point.** A solution is canonical and its own solution, attributes
included. -/
theorem solve_fixedPoint {B : Built} (hB : BuiltInLayers B) {T S : Ty}
    (h : B.value.solve T = .ok S) :
    Canonical B.value.StandsForUnion false S ∧ B.value.solve S = .ok S := by
  have hC := hB.layered
  obtain ⟨hcanon, -⟩ := (canonical_of_solveWithin _).1 hC h
  refine ⟨hcanon.mono fun _ => Registry.standsForUnion_of_catalog hC, ?_⟩
  have hwalk : B.value.toCatalog.weight < B.value.walkFuel S := by
    have := B.value.reach_le_walkFuel S
    omega
  exact hcanon.solveWithin_eq_self hC rfl rfl hwalk (B.value.depth_le_descentFuel S)

/-- Trees over a registry of their own, and a second name for them above it. -/
def orchard : Built :=
  ((Builder.withParent (Builder.new.declareAll
    [.concrete "Int",
      .parametric "List" [.parameter "a"],
      .union "Tree" [⟨"Leaf", []⟩,
        ⟨"Node", [.reference "Int", .parametric "List" [.reference "Tree"]]⟩]]).2.build).declareAll
    [.type "Oak" (.ofList [.exported]) [] (.reference "Tree"),
      .type "Plot" ∅ [] (.tuple [.labeled "left" (.reference "Oak"), .reference "Int"])]).2.build

theorem orchard_builtInLayers : BuiltInLayers orchard :=
  .above (.root (lawful_registrations _)) (lawful_registrations _)

/-- The solved form of a plot of the orchard: in it, `Tree` stays a name inside its own case. -/
def solvedPlot : Ty :=
  .tuple [.labeled "left" (.union [⟨"Leaf", []⟩,
      ⟨"Node", [.concrete "Int" ∅, .parametric (.concrete "List" ∅) [.reference "Tree"] ∅]⟩]
      (.ofList [.exported])),
    .concrete "Int" ∅] ∅

theorem solve_fixedPoint_orchard :
    orchard.value.solve (.reference "Plot") = .ok solvedPlot ∧
      Canonical orchard.value.StandsForUnion false solvedPlot ∧
      orchard.value.solve solvedPlot = .ok solvedPlot := by
  have h : orchard.value.solve (.reference "Plot") = .ok solvedPlot := by decide +kernel
  exact ⟨h, solve_fixedPoint orchard_builtInLayers h⟩

end TypeEngine

import TypeEngine.Proofs.Compatibility
import TypeEngine.Proofs.Erasure
import TypeEngine.Proofs.Unrolling

/-!
# Erasing directives

`Ty.plain` takes the directives off a type at every depth, and `Registry.plain` off all stored
types. Attributes and labels stay as they are.

Resolving stops at directives. So erasing them may let a walk along names go on, but only if there
is a name under them: where a walk ends at a type with no name under its labels and directives, the
walk without directives ends at that type without directives (`Catalog.Walk.plain`).
-/

namespace TypeEngine

/-! ## Types -/

mutual

/-- The type without any directive. -/
def Ty.plain : Ty → Ty
  | .parameter name origin => .parameter name origin
  | .concrete name attributes => .concrete name attributes
  | .reference name => .reference name
  | .typeAlias name attributes => .typeAlias name attributes
  | .parametric head params attributes => .parametric head.plain (plainAll params) attributes
  | .function arguments scope attributes => .function (plainAll arguments) scope attributes
  | .tuple elements attributes => .tuple (plainAll elements) attributes
  | .union cases attributes => .union (plainCases cases) attributes
  | .intersection params attributes => .intersection (plainAll params) attributes
  | .trait trait => .trait (plainTrait trait)
  | .method method => .method (plainMethod method)
  | .impl trait implementation => .impl (plainTrait trait) implementation.plain
  | .fixedTrait trait => .fixedTrait (plainTrait trait)
  | .constructor label union attributes => .constructor label union attributes
  | .labeled label ty => .labeled label ty.plain
  | .annotated _ ty => ty.plain
  | .numeric kind attributes => .numeric kind attributes

def plainAll : List Ty → List Ty
  | [] => []
  | t :: ts => t.plain :: plainAll ts

def plainCases : List Case → List Case
  | [] => []
  | ⟨label, params⟩ :: cs => ⟨label, plainAll params⟩ :: plainCases cs

def plainMethod : Method → Method
  | ⟨traitName, name, arguments, hasDefault, attributes⟩ =>
    ⟨traitName, name, plainAll arguments, hasDefault, attributes⟩

def plainMethods : List Method → List Method
  | [] => []
  | m :: ms => plainMethod m :: plainMethods ms

def plainTrait : Trait → Trait
  | ⟨name, param, methods, attributes⟩ => ⟨name, param, plainMethods methods, attributes⟩

end

@[simp] theorem plainAll_eq (ts : List Ty) : plainAll ts = ts.map Ty.plain := by
  induction ts with
  | nil => rfl
  | cons t ts ih => rw [plainAll, ih, List.map_cons]

namespace Ty

theorem plain_withAttributes (attributes : Attributes) (ty : Ty) :
    (ty.withAttributes attributes).plain = ty.plain.withAttributes attributes := by
  induction ty with
  | impl trait implementation _ ih => rw [withAttributes, plain, plain, ih, withAttributes]
  | labeled label ty ih => rw [withAttributes, plain, plain, ih, withAttributes]
  | annotated directives ty ih => rw [withAttributes, plain, plain, ih]
  | trait trait | fixedTrait trait =>
    cases trait
    rfl
  | method method =>
    cases method
    rfl
  | _ => rfl

theorem attributes_plain (ty : Ty) : ty.plain.attributes = ty.attributes := by
  induction ty with
  | impl trait implementation _ ih => exact ih
  | labeled label ty ih => exact ih
  | annotated directives ty ih => exact ih
  | trait trait | fixedTrait trait =>
    cases trait
    rfl
  | method method =>
    cases method
    rfl
  | _ => rfl

theorem plain_addAttributes (attributes : Attributes) (ty : Ty) :
    (ty.addAttributes attributes).plain = ty.plain.addAttributes attributes := by
  rw [addAttributes, addAttributes, plain_withAttributes, attributes_plain]

theorem inner_plain (ty : Ty) : ty.plain.inner = ty.inner.plain := by
  induction ty with
  | labeled label ty ih => exact ih
  | annotated directives ty ih => exact ih
  | _ => rfl

theorem components_plain {ty : Ty} (h : ty.isProper = true) :
    ty.plain.components = ty.components.map plain := by
  cases ty <;> first | exact plainAll_eq _ | rfl | cases h

theorem lookup?_inner_withAttributes (attributes : Attributes) (ty : Ty) :
    (ty.withAttributes attributes).inner.lookup? = ty.inner.lookup? := by
  induction ty with
  | labeled label ty ih => exact ih
  | annotated directives ty ih => exact ih
  | _ => rfl

theorem lookup?_inner_plain (ty : Ty) : ty.inner.plain.lookup? = ty.inner.lookup? := by
  induction ty with
  | labeled label ty ih => exact ih
  | annotated directives ty ih => exact ih
  | _ => rfl

/-- Without directives and without names under the labels, there is nothing to resolve. -/
theorem isSettled_plain {ty : Ty} (h : ty.inner.lookup? = none) : ty.plain.isSettled = true := by
  induction ty with
  | labeled label ty ih => exact ih h
  | annotated directives ty ih => exact ih h
  | reference | typeAlias | constructor => cases h
  | _ => rfl

end Ty

/-! ## Catalogs -/

namespace Catalog

theorem Layered.mapTypes {C : Catalog} (h : C.Layered) (f : Ty → Ty) : (C.mapTypes f).Layered := by
  induction h with
  | base entries => exact .base _
  | above _ hnew ih =>
    refine .above ih fun p hp => ?_
    obtain ⟨q, hq, rfl⟩ := List.mem_map.1 hp
    rw [find?_mapTypes, hnew q hq]
    rfl

/-- The catalog with all directives of its types erased. -/
def plain (C : Catalog) : Catalog :=
  C.mapTypes Ty.plain

variable {C O : Catalog} {chain : List String} {ty t : Ty} {name : String}

theorem find?_plain (h : C.find? name = some (O, t)) :
    C.plain.find? name = some (O.plain, t.plain) := by
  rw [plain, find?_mapTypes, h]
  rfl

theorem Walk.self (h : ty.isSettled = true) : C.Walk chain ty C ty := by
  induction ty with
  | labeled label ty ih => exact .labeled (ih h)
  | _ => exact .stop h

/-- **A walk that leaves no name under directives is a walk without them.** -/
theorem Walk.plain (h : C.Walk chain ty O t) (ht : t.inner.lookup? = none) :
    C.plain.Walk chain ty.plain O.plain t.plain := by
  induction h with
  | stop => exact .self (Ty.isSettled_plain ht)
  | reference hnew hf _ ih => exact .reference hnew (find?_plain hf) (ih ht)
  | typeAlias _ ih =>
    rw [Ty.plain_addAttributes]
    rw [Ty.addAttributes, Ty.lookup?_inner_withAttributes] at ht
    exact .typeAlias (ih ht)
  | labeled _ ih => exact .labeled (ih ht)
  | constructor hf => exact .constructor (find?_plain hf)

end Catalog

/-! ## Registries -/

namespace Registry

/-- The registry with all directives of its types erased. -/
def plain (R : Registry) : Registry :=
  ⟨R.toCatalog.plain, R.toCatalog.plain.weight, rfl⟩

variable {R : Registry} {ty t : Ty}

theorem resolve_plain (h : R.resolve ty = .ok t) (ht : t.inner.lookup? = none) :
    R.plain.resolve ty.plain = .ok t.plain := by
  obtain ⟨O, hwalk⟩ := resolve_eq_ok_iff.1 h
  exact resolve_eq_ok_iff.2 ⟨O.plain, hwalk.plain ht⟩

/-! ## Type constructors -/

/-- The head is a declared type constructor of the family: the concrete type of that name, or a name
for that type applied to parameters. -/
inductive HeadOf (R : Registry) (family : String) : Ty → Prop
  | concrete (attributes : Attributes) : HeadOf R family (.concrete family attributes)
  | declared {head : Ty} {name : String} {params : List Ty} {attributes attributes' : Attributes} :
      head.target? = some name →
      R.resolve head = .ok (.parametric (.concrete family attributes) params attributes') →
      (∀ p ∈ params, p.isFixed = true) → HeadOf R family head

namespace HeadOf

variable {family : String} {head : Ty}

theorem exists_solve (hR : R.toCatalog.Layered) (h : R.HeadOf family head) :
    ∃ S attributes, R.solve head = .ok S ∧ S.headOrSelf = .concrete family attributes := by
  cases h with
  | concrete attributes => exact ⟨_, attributes, R.solve_concrete family attributes, rfl⟩
  | @declared _ name params attributes attributes' hname hresolve hparams =>
    obtain ⟨O, hwalk⟩ := resolve_eq_ok_iff.1 hresolve
    have hopen : R.start.catalog.resolveWithin R.start.walk [] head
        = .ok (O, .parametric (.concrete family attributes) params attributes') := by
      refine hwalk.resolveWithin_eq_ok hR ?_
      rw [Ty.weight_of_target hname]
      exact (Nat.add_comm _ _).le
    have hall (s : Expansion) : params.mapM (solveWithin 2 s) = .ok params := by
      refine Outcome.mapM_eq_ok.2 (List.forall₂_same.2 fun p hp => ?_)
      have hfixed := hparams p hp
      cases p <;> first | rfl | cases hfixed
    refine ⟨.parametric (.concrete family attributes) params (attributes.union attributes'),
      attributes, solve_of_solveWithin (n := 4) (s := R.start) hR (.refl _) rfl ?_, rfl⟩
    have hexpand : R.start.expand name head
        = .ok (⟨O, R.start.walk, [name], false⟩, .parametric (.concrete family attributes) params
          attributes') := by
      rw [Expansion.expand_eq, hopen]
      simp [start, Except.map]
    rw [solveWithin_target hname, show R.start.keepsName head = .ok false from rfl, hexpand]
    simp only [Outcome.liftM_ok, Outcome.ok_bind, Bool.false_eq_true, if_false]
    rw [solveWithin, hall]
    rfl

theorem solvedHead (hR : R.toCatalog.Layered) (h : R.HeadOf family head) :
    ∃ attributes, R.solvedHead head = .ok (.concrete family attributes) := by
  obtain ⟨S, attributes, hS, hhead⟩ := h.exists_solve hR
  exact ⟨attributes, solvedHead_eq_ok.2 ⟨S, hS, hhead.symm⟩⟩

theorem family_eq (hR : R.toCatalog.Layered) (h : R.HeadOf family head) :
    R.family head = .ok family := by
  obtain ⟨attributes, hhead⟩ := h.solvedHead hR
  rw [Registry.family, hhead]
  rfl

theorem plain (h : R.HeadOf family head) : R.plain.HeadOf family head.plain := by
  cases h with
  | concrete attributes => exact .concrete attributes
  | @declared _ name params attributes attributes' hname hresolve hparams =>
    have hname' : head.plain.target? = some name := by cases head <;> cases hname <;> rfl
    refine .declared hname' (resolve_plain hresolve rfl) ?_
    intro p hp
    rw [plainAll_eq] at hp
    obtain ⟨q, hq, rfl⟩ := List.mem_map.1 hp
    have hfixed := hparams q hq
    cases q <;> first | rfl | cases hfixed

end HeadOf

end Registry

end TypeEngine

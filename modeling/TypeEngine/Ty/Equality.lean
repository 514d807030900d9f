import TypeEngine.Ty.Basic

/-!
# Equality of types

Two types are the same when they differ in attributes only, at any depth. Erasing all attributes
makes that a plain equality: `a.same b` decides `a.bare = b.bare` (`same_iff`), so `same` is an
equivalence for free.

Both this relation and the exact equality of types come from one comparison, `sameUnder f`, which
looks at attributes through `f`: `f` forgets everything in the first case and nothing in the
second.
-/

namespace TypeEngine

variable (f : Attributes → Attributes)

/-! ## Mapping attributes -/

mutual

/-- Apply `f` to every attribute set inside a type. -/
def Ty.mapAttributes : Ty → Ty
  | .parameter name origin => .parameter name origin
  | .concrete name attributes => .concrete name (f attributes)
  | .reference name => .reference name
  | .typeAlias name attributes => .typeAlias name (f attributes)
  | .parametric head params attributes =>
    .parametric head.mapAttributes (mapAttributesAll params) (f attributes)
  | .function arguments scope attributes =>
    .function (mapAttributesAll arguments) scope (f attributes)
  | .tuple elements attributes => .tuple (mapAttributesAll elements) (f attributes)
  | .union cases attributes => .union (mapAttributesCases cases) (f attributes)
  | .intersection params attributes => .intersection (mapAttributesAll params) (f attributes)
  | .trait trait => .trait (mapAttributesTrait trait)
  | .method method => .method (mapAttributesMethod method)
  | .impl trait implementation => .impl (mapAttributesTrait trait) implementation.mapAttributes
  | .fixedTrait trait => .fixedTrait (mapAttributesTrait trait)
  | .constructor label union attributes => .constructor label union (f attributes)
  | .labeled label ty => .labeled label ty.mapAttributes
  | .annotated directives ty => .annotated directives ty.mapAttributes
  | .numeric kind attributes => .numeric kind (f attributes)

def mapAttributesAll : List Ty → List Ty
  | [] => []
  | t :: ts => t.mapAttributes :: mapAttributesAll ts

def mapAttributesCases : List Case → List Case
  | [] => []
  | ⟨label, params⟩ :: cs => ⟨label, mapAttributesAll params⟩ :: mapAttributesCases cs

def mapAttributesMethod : Method → Method
  | ⟨traitName, name, arguments, hasDefault, attributes⟩ =>
    ⟨traitName, name, mapAttributesAll arguments, hasDefault, f attributes⟩

def mapAttributesMethods : List Method → List Method
  | [] => []
  | m :: ms => mapAttributesMethod m :: mapAttributesMethods ms

def mapAttributesTrait : Trait → Trait
  | ⟨name, param, methods, attributes⟩ =>
    ⟨name, param, mapAttributesMethods methods, f attributes⟩

end

@[simp] theorem mapAttributesAll_eq (ts : List Ty) :
    mapAttributesAll f ts = ts.map (Ty.mapAttributes f) := by
  induction ts <;> simp_all [mapAttributesAll]

@[simp] theorem mapAttributesCases_eq (cs : List Case) :
    mapAttributesCases f cs = cs.map (·.map (Ty.mapAttributes f)) := by
  induction cs with
  | nil => rfl
  | cons c cs ih =>
    cases c
    simp [mapAttributesCases, CaseOf.map, ih]

@[simp] theorem mapAttributesMethod_eq (m : Method) :
    mapAttributesMethod f m = m.map (Ty.mapAttributes f) f := by
  cases m
  simp [mapAttributesMethod, MethodOf.map]

@[simp] theorem mapAttributesMethods_eq (ms : List Method) :
    mapAttributesMethods f ms = ms.map (·.map (Ty.mapAttributes f) f) := by
  induction ms <;> simp_all [mapAttributesMethods]

@[simp] theorem mapAttributesTrait_eq (t : Trait) :
    mapAttributesTrait f t = t.map (Ty.mapAttributes f) f := by
  cases t
  simp [mapAttributesTrait, TraitOf.map]

/-! ## Comparing types -/

mutual

/-- Whether two types agree when attributes are looked at through `f`. -/
def Ty.sameUnder : Ty → Ty → Bool
  | .parameter name origin, b =>
    match b with
    | .parameter name' origin' => name == name' && origin == origin'
    | _ => false
  | .concrete name attributes, b =>
    match b with
    | .concrete name' attributes' => name == name' && f attributes == f attributes'
    | _ => false
  | .reference name, b =>
    match b with
    | .reference name' => name == name'
    | _ => false
  | .typeAlias name attributes, b =>
    match b with
    | .typeAlias name' attributes' => name == name' && f attributes == f attributes'
    | _ => false
  | .parametric head params attributes, b =>
    match b with
    | .parametric head' params' attributes' =>
      head.sameUnder head' && sameUnderAll params params' && f attributes == f attributes'
    | _ => false
  | .function arguments scope attributes, b =>
    match b with
    | .function arguments' scope' attributes' =>
      sameUnderAll arguments arguments' && scope == scope' && f attributes == f attributes'
    | _ => false
  | .tuple elements attributes, b =>
    match b with
    | .tuple elements' attributes' =>
      sameUnderAll elements elements' && f attributes == f attributes'
    | _ => false
  | .union cases attributes, b =>
    match b with
    | .union cases' attributes' => sameUnderCases cases cases' && f attributes == f attributes'
    | _ => false
  | .intersection params attributes, b =>
    match b with
    | .intersection params' attributes' =>
      sameUnderAll params params' && f attributes == f attributes'
    | _ => false
  | .trait trait, b =>
    match b with
    | .trait trait' => sameUnderTrait trait trait'
    | _ => false
  | .method method, b =>
    match b with
    | .method method' => sameUnderMethod method method'
    | _ => false
  | .impl trait implementation, b =>
    match b with
    | .impl trait' implementation' =>
      sameUnderTrait trait trait' && implementation.sameUnder implementation'
    | _ => false
  | .fixedTrait trait, b =>
    match b with
    | .fixedTrait trait' => sameUnderTrait trait trait'
    | _ => false
  | .constructor label union attributes, b =>
    match b with
    | .constructor label' union' attributes' =>
      label == label' && union == union' && f attributes == f attributes'
    | _ => false
  | .labeled label ty, b =>
    match b with
    | .labeled label' ty' => label == label' && ty.sameUnder ty'
    | _ => false
  | .annotated directives ty, b =>
    match b with
    | .annotated directives' ty' => directives == directives' && ty.sameUnder ty'
    | _ => false
  | .numeric kind attributes, b =>
    match b with
    | .numeric kind' attributes' => kind == kind' && f attributes == f attributes'
    | _ => false

def sameUnderAll : List Ty → List Ty → Bool
  | [], us => us.isEmpty
  | t :: ts, us =>
    match us with
    | [] => false
    | u :: us => t.sameUnder u && sameUnderAll ts us

def sameUnderCases : List Case → List Case → Bool
  | [], ds => ds.isEmpty
  | ⟨label, params⟩ :: cs, ds =>
    match ds with
    | [] => false
    | d :: ds => label == d.label && sameUnderAll params d.params && sameUnderCases cs ds

def sameUnderMethod : Method → Method → Bool
  | ⟨traitName, name, arguments, hasDefault, attributes⟩, m =>
    traitName == m.traitName && name == m.name && sameUnderAll arguments m.arguments
      && hasDefault == m.hasDefault && f attributes == f m.attributes

def sameUnderMethods : List Method → List Method → Bool
  | [], ns => ns.isEmpty
  | m :: ms, ns =>
    match ns with
    | [] => false
    | n :: ns => sameUnderMethod m n && sameUnderMethods ms ns

def sameUnderTrait : Trait → Trait → Bool
  | ⟨name, param, methods, attributes⟩, t =>
    name == t.name && param == t.param && sameUnderMethods methods t.methods
      && f attributes == f t.attributes

end

theorem sameUnderAll_iff {ts us : List Ty}
    (h : ∀ t ∈ ts, ∀ u, t.sameUnder f u = true ↔ t.mapAttributes f = u.mapAttributes f) :
    sameUnderAll f ts us = true
      ↔ ts.map (Ty.mapAttributes f) = us.map (Ty.mapAttributes f) := by
  induction ts generalizing us with
  | nil => cases us <;> simp [sameUnderAll]
  | cons t ts ih => cases us <;> simp_all [sameUnderAll]

theorem sameUnderCases_iff {cs ds : List Case}
    (h : ∀ c ∈ cs, ∀ t ∈ c.params, ∀ u,
      t.sameUnder f u = true ↔ t.mapAttributes f = u.mapAttributes f) :
    sameUnderCases f cs ds = true
      ↔ cs.map (·.map (Ty.mapAttributes f)) = ds.map (·.map (Ty.mapAttributes f)) := by
  induction cs generalizing ds with
  | nil => cases ds <;> simp [sameUnderCases]
  | cons c cs ih =>
    obtain ⟨label, params⟩ := c
    have hc := h ⟨label, params⟩ (by simp)
    cases ds with
    | nil => simp [sameUnderCases]
    | cons d ds =>
      have hcs := @ih ds fun c hm => h c (by simp [hm])
      simp [sameUnderCases, sameUnderAll_iff f hc, hcs, and_assoc, CaseOf.map]

theorem sameUnderMethod_iff {m n : Method}
    (h : ∀ t ∈ m.arguments, ∀ u,
      t.sameUnder f u = true ↔ t.mapAttributes f = u.mapAttributes f) :
    sameUnderMethod f m n = true
      ↔ m.map (Ty.mapAttributes f) f = n.map (Ty.mapAttributes f) f := by
  cases m
  simp [sameUnderMethod, MethodOf.map, sameUnderAll_iff f h, and_assoc]

theorem sameUnderTrait_iff {s t : Trait}
    (h : ∀ m ∈ s.methods, ∀ a ∈ m.arguments, ∀ u,
      a.sameUnder f u = true ↔ a.mapAttributes f = u.mapAttributes f) :
    sameUnderTrait f s t = true
      ↔ s.map (Ty.mapAttributes f) f = t.map (Ty.mapAttributes f) f := by
  have methods (ms ns : List Method) (h : ∀ m ∈ ms, ∀ a ∈ m.arguments, ∀ u,
      a.sameUnder f u = true ↔ a.mapAttributes f = u.mapAttributes f) :
      sameUnderMethods f ms ns = true
        ↔ ms.map (·.map (Ty.mapAttributes f) f) = ns.map (·.map (Ty.mapAttributes f) f) := by
    induction ms generalizing ns with
    | nil => cases ns <;> simp [sameUnderMethods]
    | cons m ms ih =>
      have hm := h m (by simp)
      have hms := (ih · fun m hm => h m (by simp [hm]))
      cases ns <;> simp [sameUnderMethods, sameUnderMethod_iff f hm, hms]
  obtain ⟨name, param, ms, attributes⟩ := s
  simp [sameUnderTrait, TraitOf.map, methods ms t.methods h, and_assoc]

/-- **The comparison through `f` is equality after mapping by `f`.** -/
theorem Ty.sameUnder_iff (a b : Ty) :
    a.sameUnder f b = true ↔ a.mapAttributes f = b.mapAttributes f := by
  induction a generalizing b with
  | parametric head params attributes ihHead ih =>
    cases b <;> simp [sameUnder, mapAttributes, sameUnderAll_iff f ih, ihHead, and_assoc]
  | function arguments scope attributes ih =>
    cases b <;> simp [sameUnder, mapAttributes, sameUnderAll_iff f ih, and_assoc]
  | tuple elements attributes ih =>
    cases b <;> simp [sameUnder, mapAttributes, sameUnderAll_iff f ih]
  | union cases attributes ih =>
    cases b <;> simp [sameUnder, mapAttributes, sameUnderCases_iff f ih]
  | intersection params attributes ih =>
    cases b <;> simp [sameUnder, mapAttributes, sameUnderAll_iff f ih]
  | trait trait ih => cases b <;> simp [sameUnder, mapAttributes, sameUnderTrait_iff f ih]
  | method method ih => cases b <;> simp [sameUnder, mapAttributes, sameUnderMethod_iff f ih]
  | impl trait implementation ihTrait ih =>
    cases b <;> simp [sameUnder, mapAttributes, sameUnderTrait_iff f ihTrait, ih]
  | fixedTrait trait ih => cases b <;> simp [sameUnder, mapAttributes, sameUnderTrait_iff f ih]
  | _ => cases b <;> simp_all [sameUnder, mapAttributes, and_assoc]

/-! ## Exact equality -/

theorem map_eq_self {α : Type} {g : α → α} {l : List α} (h : ∀ a ∈ l, g a = a) : l.map g = l := by
  induction l <;> simp_all

theorem Ty.mapAttributes_id (a : Ty) : a.mapAttributes id = a := by
  have hTrait {t : Trait} (h : ∀ m ∈ t.methods, ∀ a ∈ m.arguments, a.mapAttributes id = a) :
      t.map (Ty.mapAttributes id) id = t := by
    have : t.methods.map (·.map (Ty.mapAttributes id) id) = t.methods :=
      map_eq_self fun m hm => by simp [MethodOf.map, map_eq_self (h m hm)]
    simp [TraitOf.map, this]
  induction a with
  | parametric head params attributes ihHead ih => simp [mapAttributes, ihHead, map_eq_self ih]
  | function arguments scope attributes ih => simp [mapAttributes, map_eq_self ih]
  | tuple elements attributes ih => simp [mapAttributes, map_eq_self ih]
  | union cases attributes ih =>
    have : cases.map (·.map (Ty.mapAttributes id)) = cases :=
      map_eq_self fun c hc => by simp [CaseOf.map, map_eq_self (ih c hc)]
    simp [mapAttributes, this]
  | intersection params attributes ih => simp [mapAttributes, map_eq_self ih]
  | trait trait ih => simp [mapAttributes, hTrait ih]
  | method method ih => simp [mapAttributes, MethodOf.map, map_eq_self ih]
  | impl trait implementation ihTrait ih => simp [mapAttributes, hTrait ihTrait, ih]
  | fixedTrait trait ih => simp [mapAttributes, hTrait ih]
  | _ => simp_all [mapAttributes]

instance : DecidableEq Ty := fun a b =>
  decidable_of_iff (a.sameUnder id b = true) (by
    rw [Ty.sameUnder_iff, Ty.mapAttributes_id, Ty.mapAttributes_id])

/-! ## Equality up to attributes -/

/-- The type without any attribute. -/
def Ty.bare (a : Ty) : Ty :=
  a.mapAttributes fun _ => ∅

/-- Whether two types differ in attributes only. -/
def Ty.same (a b : Ty) : Bool :=
  a.sameUnder (fun _ => ∅) b

/-- Whether two traits differ in attributes only. -/
def TraitOf.same (s t : Trait) : Bool :=
  sameUnderTrait (fun _ => ∅) s t

/-- **Types are the same when their bare forms are equal.** -/
theorem Ty.same_iff {a b : Ty} : a.same b = true ↔ a.bare = b.bare :=
  Ty.sameUnder_iff _ a b

@[simp] theorem Ty.same_refl (a : Ty) : a.same a = true :=
  Ty.same_iff.2 rfl

theorem Ty.same_comm (a b : Ty) : a.same b = b.same a :=
  Bool.eq_iff_iff.2 (by rw [Ty.same_iff, Ty.same_iff, eq_comm])

theorem Ty.same_trans {a b c : Ty} (hab : a.same b = true) (hbc : b.same c = true) :
    a.same c = true :=
  Ty.same_iff.2 ((Ty.same_iff.1 hab).trans (Ty.same_iff.1 hbc))

end TypeEngine

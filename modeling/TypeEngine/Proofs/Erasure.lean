import TypeEngine.Proofs.Rules

/-!
# Erasing attributes

`Ty.bare` erases the attributes of a type at every depth, and `Registry.bare` those of all stored
types. The engines never look at attributes: they merge and copy them, and decide by kinds, names,
texts and by equality up to attributes. So erasing them first and running then is the same as
running first and erasing the attributes of the result (`Registry.resolve_bare`,
`Registry.solve_bare`, `Registry.unify_bare`). Errors are not touched by the erasure, so they are
the same errors word for word.
-/

namespace TypeEngine

/-! ## Types -/

/-- The trait without any attribute. -/
def TraitOf.bare (t : Trait) : Trait :=
  t.map Ty.bare fun _ => ∅

@[simp] theorem TraitOf.name_bare (t : Trait) : t.bare.name = t.name := rfl

@[simp] theorem TraitOf.mappingKey_bare (t : Trait) : t.bare.mappingKey = t.mappingKey := rfl

/-- The method without any attribute. -/
def MethodOf.bare (m : Method) : Method :=
  m.map Ty.bare fun _ => ∅

@[simp] theorem MethodOf.arguments_bare (m : Method) : m.bare.arguments = m.arguments.map Ty.bare :=
  rfl

/-- The case without any attribute. -/
def CaseOf.bare (c : Case) : Case :=
  c.map Ty.bare

namespace Ty

@[simp] theorem bare_parameter (name : String) (origin : Origin) :
    (parameter name origin).bare = parameter name origin := rfl

@[simp] theorem bare_concrete (name : String) (attributes : Attributes) :
    (concrete name attributes).bare = concrete name ∅ := rfl

@[simp] theorem bare_reference (name : String) : (reference name).bare = reference name := rfl

@[simp] theorem bare_typeAlias (name : String) (attributes : Attributes) :
    (typeAlias name attributes).bare = typeAlias name ∅ := rfl

@[simp] theorem bare_parametric (head : Ty) (params : List Ty) (attributes : Attributes) :
    (parametric head params attributes).bare = parametric head.bare (params.map bare) ∅ :=
  mapAttributes_parametric _ head params attributes

@[simp] theorem bare_function (arguments : List Ty) (scope : Scope) (attributes : Attributes) :
    (function arguments scope attributes).bare = function (arguments.map bare) scope ∅ :=
  mapAttributes_function _ arguments scope attributes

@[simp] theorem bare_tuple (elements : List Ty) (attributes : Attributes) :
    (tuple elements attributes).bare = tuple (elements.map bare) ∅ :=
  mapAttributes_tuple _ elements attributes

@[simp] theorem bare_union (cases : List Case) (attributes : Attributes) :
    (union cases attributes).bare = union (cases.map CaseOf.bare) ∅ :=
  mapAttributes_union _ cases attributes

@[simp] theorem bare_intersection (params : List Ty) (attributes : Attributes) :
    (intersection params attributes).bare = intersection (params.map bare) ∅ :=
  mapAttributes_intersection _ params attributes

@[simp] theorem bare_trait (trait : Trait) : (Ty.trait trait).bare = .trait trait.bare :=
  mapAttributes_trait _ trait

@[simp] theorem bare_method (method : Method) : (Ty.method method).bare = .method method.bare :=
  mapAttributes_method _ method

@[simp] theorem bare_impl (trait : Trait) (implementation : Ty) :
    (impl trait implementation).bare = impl trait.bare implementation.bare :=
  mapAttributes_impl _ trait implementation

@[simp] theorem bare_fixedTrait (trait : Trait) :
    (fixedTrait trait).bare = fixedTrait trait.bare :=
  mapAttributes_fixedTrait _ trait

@[simp] theorem bare_constructor (label union : String) (attributes : Attributes) :
    (constructor label union attributes).bare = constructor label union ∅ := rfl

@[simp] theorem bare_labeled (label : String) (ty : Ty) :
    (labeled label ty).bare = labeled label ty.bare := rfl

@[simp] theorem bare_annotated (directives : List Directive) (ty : Ty) :
    (annotated directives ty).bare = annotated directives ty.bare := rfl

@[simp] theorem bare_numeric (kind : Numeric) (attributes : Attributes) :
    (numeric kind attributes).bare = numeric kind ∅ := rfl

/-- A second erasure finds nothing. -/
@[simp] theorem bare_bare (ty : Ty) : ty.bare.bare = ty.bare :=
  bare_mapAttributes _ ty

theorem same_eq_decide (a b : Ty) : a.same b = decide (a.bare = b.bare) :=
  Bool.eq_iff_iff.2 (by rw [same_iff, decide_eq_true_iff])

@[simp] theorem same_bare (a b : Ty) : a.bare.same b.bare = a.same b :=
  same_mapAttributes _ a b

@[simp] theorem inner_bare (ty : Ty) : ty.bare.inner = ty.inner.bare :=
  inner_mapAttributes _ ty

@[simp] theorem isParameter_bare (ty : Ty) : ty.bare.isParameter = ty.isParameter :=
  isParameter_mapAttributes _ ty

@[simp] theorem isUnion_bare (ty : Ty) : ty.bare.isUnion = ty.isUnion := by
  cases ty <;> simp [isUnion]

@[simp] theorem attributes_bare (ty : Ty) : ty.bare.attributes = ∅ := by
  induction ty with
  | impl trait implementation _ ih => simpa [attributes] using ih
  | labeled label ty ih => simpa [attributes] using ih
  | annotated directives ty ih => simpa [attributes] using ih
  | _ => simp [attributes] <;> rfl

theorem bare_withAttributes (attributes : Attributes) (ty : Ty) :
    (ty.withAttributes attributes).bare = ty.bare := by
  induction ty with
  | impl trait implementation _ ih => simp [withAttributes, ih]
  | labeled label ty ih => simp [withAttributes, ih]
  | annotated directives ty ih => simp [withAttributes, ih]
  | _ => simp [withAttributes] <;> rfl

theorem withAttributes_bare (ty : Ty) : ty.bare.withAttributes ∅ = ty.bare := by
  induction ty with
  | impl trait implementation _ ih => simp [withAttributes, ih]
  | labeled label ty ih => simp [withAttributes, ih]
  | annotated directives ty ih => simp [withAttributes, ih]
  | _ => simp [withAttributes] <;> rfl

/-- Adding no attributes to a bare type is all that is left of adding some. -/
theorem addAttributes_bare (attributes : Attributes) (ty : Ty) :
    ty.bare.addAttributes ∅ = (ty.addAttributes attributes).bare := by
  rw [addAttributes, addAttributes, attributes_bare, bare_withAttributes]
  exact withAttributes_bare ty

/-! ## Texts and weights -/

theorem enclose_bare (ty : Ty) (text : String) : ty.bare.enclose text = ty.enclose text := by
  cases ty <;> simp [enclose, isCompound]

end Ty

theorem displayCases_eq (cs : List Case) :
    displayCases cs
      = cs.map fun c => " ".intercalate (c.label :: c.params.map Ty.representation) := by
  induction cs with
  | nil => rfl
  | cons c cs ih => rw [displayCases, representAll_eq, ih, List.map_cons]

theorem displayMethod_eq (m : Method) :
    displayMethod m = displaySignature m.name (m.arguments.map Ty.representation) := by
  rw [displayMethod, representAll_eq]

theorem displayTrait_eq (t : Trait) :
    displayTrait t = displayTraitWith t.name t.param (t.methods.map displayMethod) := by
  have hmethods (ms : List Method) : displayMethods ms = ms.map displayMethod := by
    induction ms with
    | nil => rfl
    | cons m ms ih => rw [displayMethods, ih, List.map_cons]
  rw [displayTrait, hmethods]

namespace Ty

theorem display_parametric {head : Ty} (h : ∀ trait, head ≠ .trait trait) (params : List Ty)
    (attributes : Attributes) :
    (parametric head params attributes).display
      = head.representation ++ " " ++ " ".intercalate (params.map representation) := by
  cases head <;> simp_all [display, representation]

/-- Texts do not show attributes. -/
@[simp] theorem display_bare (ty : Ty) : ty.bare.display = ty.display := by
  have hrep {ty : Ty} (h : ty.bare.display = ty.display) :
      ty.bare.representation = ty.representation := by
    rw [representation, representation, enclose_bare, h]
  have hall {ts : List Ty} (h : ∀ t ∈ ts, t.bare.display = t.display) :
      (ts.map bare).map representation = ts.map representation := by
    rw [List.map_map]
    exact List.map_congr_left fun t ht => hrep (h t ht)
  have htrait {t : Trait} (h : ∀ m ∈ t.methods, ∀ a ∈ m.arguments, a.bare.display = a.display) :
      displayTrait t.bare = displayTrait t := by
    rw [displayTrait_eq, displayTrait_eq]
    congr 1
    rw [TraitOf.bare, TraitOf.map, List.map_map]
    refine List.map_congr_left fun m hm => ?_
    rw [Function.comp_apply, displayMethod_eq, displayMethod_eq]
    exact congrArg _ (hall (h m hm))
  induction ty with
  | parametric head params attributes ihHead ih =>
    rw [bare_parametric]
    by_cases hhead : ∃ trait, head = .trait trait
    · obtain ⟨trait, rfl⟩ := hhead
      rw [bare_trait, display, display, representAll_eq, representAll_eq, hall ih]
      rfl
    · rw [display_parametric (by cases head <;> simp_all),
        display_parametric (by simpa using hhead), hrep ihHead, hall ih]
  | function arguments scope attributes ih =>
    rw [bare_function, display, display, representAll_eq, representAll_eq, hall ih]
  | tuple elements attributes ih =>
    rw [bare_tuple, display, display, representAll_eq, representAll_eq, hall ih]
  | union cases attributes ih =>
    rw [bare_union, display, display, displayCases_eq, displayCases_eq, List.map_map]
    congr 1
    refine List.map_congr_left fun c hc => ?_
    rw [Function.comp_apply, CaseOf.bare, CaseOf.map, hall (ih c hc)]
  | intersection params attributes ih =>
    rw [bare_intersection, display, display, representAll_eq, representAll_eq, hall ih]
  | trait trait ih => rw [bare_trait, display, display, htrait ih]
  | method method ih =>
    rw [bare_method, display, display, displayMethod_eq, displayMethod_eq]
    exact congrArg _ (hall ih)
  | impl trait implementation _ ih => rw [bare_impl, display, display, enclose_bare, ih]
  | fixedTrait trait ih => rw [bare_fixedTrait, display, display, htrait ih]
  | labeled label ty ih => rw [bare_labeled, display, display, enclose_bare, ih]
  | annotated directives ty ih => rw [bare_annotated, display, display, enclose_bare, ih]
  | _ => rfl

@[simp] theorem representation_bare (ty : Ty) : ty.bare.representation = ty.representation := by
  rw [representation, representation, enclose_bare, display_bare]

theorem weightAll_map {f : Ty → Ty} {ts : List Ty} (h : ∀ t ∈ ts, (f t).weight = t.weight) :
    weightAll (ts.map f) = weightAll ts := by
  induction ts with
  | nil => rfl
  | cons t ts ih =>
    rw [List.map_cons, weightAll, weightAll, h t (by simp), ih fun u hu => h u (by simp [hu])]

theorem weight_bare (ty : Ty) : ty.bare.weight = ty.weight := by
  have hmethod {m : Method} (h : ∀ a ∈ m.arguments, a.bare.weight = a.weight) :
      weightMethod m.bare = weightMethod m := by
    rw [MethodOf.bare, MethodOf.map, weightMethod, weightMethod, weightAll_map h]
  have htrait {t : Trait} (h : ∀ m ∈ t.methods, ∀ a ∈ m.arguments, a.bare.weight = a.weight) :
      weightTrait t.bare = weightTrait t := by
    obtain ⟨name, param, ms, attributes⟩ := t
    rw [TraitOf.bare, TraitOf.map, weightTrait, weightTrait]
    induction ms with
    | nil => rfl
    | cons m ms ih =>
      rw [List.map_cons, weightMethods, weightMethods, ih fun n hn => h n (by simp [hn])]
      exact congrArg (· + _) (hmethod (h m (by simp)))
  induction ty with
  | parametric head params attributes ihHead ih =>
    rw [bare_parametric, weight, weight, ihHead, weightAll_map ih]
  | function arguments scope attributes ih => rw [bare_function, weight, weight, weightAll_map ih]
  | tuple elements attributes ih => rw [bare_tuple, weight, weight, weightAll_map ih]
  | union cases attributes ih =>
    rw [bare_union, weight, weight]
    congr 1
    induction cases with
    | nil => rfl
    | cons c cases ihCases =>
      rw [List.map_cons, weightCases, weightCases, ihCases fun d hd => ih d (by simp [hd])]
      exact congrArg (· + _) (weightAll_map (ih c (by simp)))
  | intersection params attributes ih =>
    rw [bare_intersection, weight, weight, weightAll_map ih]
  | trait trait ih => rw [bare_trait, weight, weight, htrait ih]
  | method method ih => rw [bare_method, weight, weight, hmethod ih]
  | impl trait implementation ihTrait ih =>
    rw [bare_impl, weight, weight, ih, htrait ihTrait]
  | fixedTrait trait ih => rw [bare_fixedTrait, weight, weight, htrait ih]
  | labeled label ty ih => rw [bare_labeled, weight, weight, ih]
  | annotated directives ty ih => rw [bare_annotated, weight, weight, ih]
  | _ => rfl

end Ty

/-! ## Catalogs -/

namespace Catalog

mutual

/-- The catalog with all its types, those of the parent and those of the imports replaced. -/
def mapTypes (f : Ty → Ty) : Catalog → Catalog
  | ⟨parent, entries, imports⟩ =>
    ⟨mapTypesBelow f parent, entries.map fun p => (p.1, f p.2), mapTypesBeside f imports⟩

def mapTypesBelow (f : Ty → Ty) : Option Catalog → Option Catalog
  | none => none
  | some C => some (C.mapTypes f)

def mapTypesBeside (f : Ty → Ty) : List (String × Catalog) → List (String × Catalog)
  | [] => []
  | (key, C) :: imports => (key, C.mapTypes f) :: mapTypesBeside f imports

end

variable {f : Ty → Ty} {C : Catalog}

theorem mapTypes_eq (f : Ty → Ty) (C : Catalog) :
    C.mapTypes f = ⟨C.parent.map (mapTypes f), C.entries.map fun p => (p.1, f p.2),
      C.imports.map fun p => (p.1, p.2.mapTypes f)⟩ := by
  obtain ⟨parent, entries, imports⟩ := C
  have himports : mapTypesBeside f imports = imports.map fun p => (p.1, p.2.mapTypes f) := by
    induction imports with
    | nil => rfl
    | cons m imports ih => rw [mapTypesBeside, ih, List.map_cons]
  rw [mapTypes, himports]
  cases parent <;> rfl

theorem lookup_map_snd {α β : Type} (g : α → β) (l : List (String × α)) (name : String) :
    (l.map fun p => (p.1, g p.2)).lookup name = (l.lookup name).map g := by
  induction l with
  | nil => rfl
  | cons p l ih =>
    rw [List.map_cons, lookup_cons, lookup_cons, ih]
    split_ifs <;> rfl

/-- A name means the entry that it meant before, with the type replaced. -/
theorem find?_mapTypes (f : Ty → Ty) (C : Catalog) (name : String) :
    (C.mapTypes f).find? name = (C.find? name).map fun r => (r.1.mapTypes f, f r.2) := by
  induction C using induct generalizing name with
  | step C ihParent ihImports =>
    have hmodule : (C.mapTypes f).moduleOf? name
        = (C.moduleOf? name).map fun r => (r.1.mapTypes f, r.2) := by
      rw [moduleOf?, moduleOf?, mapTypes_eq]
      cases splitQualified name with
      | none => rfl
      | some parts => simp [lookup_map_snd, Function.comp_def]
    rw [find?_eq, find?_eq C, hmodule]
    simp only [mapTypes_eq f C, lookup_map_snd]
    cases hown : C.entries.lookup name with
    | some ty => simp [mapTypes_eq f C]
    | none =>
      cases hmodule : C.moduleOf? name with
      | some r =>
        obtain ⟨key, hmem⟩ := mem_imports_of_moduleOf? hmodule
        exact ihImports _ hmem r.2
      | none =>
        cases hparent : C.parent with
        | none => rfl
        | some P => exact ihParent P hparent name

theorem stored_mapTypes (f : Ty → Ty) (C : Catalog) :
    (C.mapTypes f).stored = C.stored.map f := by
  refine @Catalog.rec (fun C => (C.mapTypes f).stored = C.stored.map f)
    (fun parent => storedBelow (mapTypesBelow f parent) = (storedBelow parent).map f)
    (fun imports => storedBeside (mapTypesBeside f imports) = (storedBeside imports).map f)
    (fun p => (p.2.mapTypes f).stored = p.2.stored.map f) ?_ rfl ?_ rfl ?_ ?_ C
  · intro parent entries imports hparent himports
    rw [mapTypes, stored, stored, hparent, himports]
    simp
  · intro C hC
    exact hC
  · intro p imports hp himports
    obtain ⟨key, C⟩ := p
    rw [mapTypesBeside, storedBeside, storedBeside, himports, hp, List.map_append]
  · intro key C hC
    exact hC

theorem weight_mapTypes (h : ∀ ty, (f ty).weight = ty.weight) (C : Catalog) :
    (C.mapTypes f).weight = C.weight := by
  rw [← weightAll_stored, ← weightAll_stored, stored_mapTypes, Ty.weightAll_map fun ty _ => h ty]

/-- The catalog with all attributes of its types erased. -/
def bare (C : Catalog) : Catalog :=
  C.mapTypes Ty.bare

theorem find?_bare (C : Catalog) (name : String) :
    C.bare.find? name = (C.find? name).map fun r => (r.1.bare, r.2.bare) :=
  find?_mapTypes Ty.bare C name

theorem get?_bare (C : Catalog) (name : String) : C.bare.get? name = (C.get? name).map Ty.bare := by
  rw [get?, get?, find?_bare]
  cases C.find? name <;> rfl

theorem get_bare (C : Catalog) (name : String) : C.bare.get name = Ty.bare <$> C.get name := by
  rw [get, get, get?_bare]
  cases C.get? name <;> rfl

/-- **Resolving does not see attributes.** -/
theorem resolveWithin_bare (n : Nat) (C : Catalog) (chain : List String) (ty : Ty) :
    C.bare.resolveWithin n chain ty.bare
      = (fun r => (r.1.bare, r.2.bare)) <$> C.resolveWithin n chain ty := by
  induction n generalizing C chain ty with
  | zero => simp [resolveWithin]
  | succ n ih =>
    have hreference (name : String) : C.bare.resolveWithin (n + 1) chain (.reference name)
        = (fun r => (r.1.bare, r.2.bare)) <$> C.resolveWithin (n + 1) chain (.reference name) := by
      rw [resolveWithin_reference, resolveWithin_reference, find?_bare]
      split_ifs
      · rfl
      · cases C.find? name with
        | none => rfl
        | some r => exact ih r.1 (chain ++ [name]) r.2
    cases ty with
    | reference name => exact hreference name
    | typeAlias name attributes =>
      rw [Ty.bare_typeAlias, resolveWithin_typeAlias, resolveWithin_typeAlias, hreference]
      cases C.resolveWithin (n + 1) chain (.reference name) with
      | error e => rfl
      | ok r =>
        exact congrArg (fun t => Except.ok (r.1.bare, t)) (Ty.addAttributes_bare attributes r.2)
    | labeled label ty =>
      rw [Ty.bare_labeled, resolveWithin_labeled, resolveWithin_labeled, ih]
      cases C.resolveWithin n chain ty <;> rfl
    | constructor label union attributes =>
      rw [Ty.bare_constructor, resolveWithin, resolveWithin, getOwned, getOwned, find?_bare]
      cases C.find? union <;> rfl
    | _ => simp [resolveWithin]

end Catalog

namespace Registry

variable (R : Registry)

/-- The registry with all attributes of its types erased. -/
def bare : Registry :=
  ⟨R.toCatalog.bare, R.weight, by
    rw [R.weight_eq, Catalog.bare, Catalog.weight_mapTypes Ty.weight_bare]⟩

theorem reach_bare (types : List Ty) : R.bare.reach (types.map Ty.bare) = R.reach types := by
  rw [reach, reach, Ty.weightAll_map fun ty _ => ty.weight_bare]
  rfl

theorem walkFuel_bare (ty : Ty) : R.bare.walkFuel ty.bare = R.walkFuel ty :=
  congrArg (fun r => r * r) (R.reach_bare [ty])

theorem descentFuel_bare (ty : Ty) : R.bare.descentFuel ty.bare = R.descentFuel ty :=
  congrArg (fun r => r * r * r) (R.reach_bare [ty])

theorem pairFuel_bare (a b : Ty) : R.bare.pairFuel a.bare b.bare = R.pairFuel a b :=
  congrArg (fun r => (r * r) * (r * r)) (R.reach_bare [a, b])

theorem resolve_bare (ty : Ty) : R.bare.resolve ty.bare = Ty.bare <$> R.resolve ty := by
  rw [resolve, resolve, resolveOwned, resolveOwned, walkFuel_bare, bare,
    Catalog.resolveWithin_bare]
  cases R.resolveWithin (R.walkFuel ty) [] ty <;> rfl

end Registry

/-! ## Solving -/

namespace Outcome

variable {α β γ δ : Type}

@[simp] theorem map_ok (f : α → β) (a : α) : f <$> Outcome.ok a = .ok (f a) := rfl

@[simp] theorem map_error (f : α → β) (e : TypeError) :
    f <$> (Outcome.error e : Outcome α) = .error e := rfl

@[simp] theorem map_outOfFuel (f : α → β) : f <$> (outOfFuel : Outcome α) = .outOfFuel := rfl

theorem liftM_map (f : α → β) (x : Except TypeError α) :
    (liftM (f <$> x) : Outcome β) = f <$> liftM x := by
  cases x <;> rfl

/-- Steps that commute with a map commute with it in sequence. -/
theorem map_bind_map {x : Outcome α} {f : α → Outcome γ} {g : β → Outcome δ} {h : α → β}
    {k : γ → δ} (hfg : ∀ a, x = .ok a → g (h a) = k <$> f a) :
    (h <$> x >>= g) = k <$> (x >>= f) := by
  cases x with
  | ok a => exact hfg a rfl
  | _ => rfl

theorem mapM_map {f : α → Outcome γ} {g : β → Outcome δ} {h : α → β} {k : γ → δ} {l : List α}
    (hfg : ∀ a ∈ l, g (h a) = k <$> f a) : (l.map h).mapM g = List.map k <$> l.mapM f := by
  induction l with
  | nil => rfl
  | cons a l ih =>
    rw [List.map_cons, List.mapM_cons, List.mapM_cons, hfg a (by simp),
      ih fun b hb => hfg b (by simp [hb])]
    exact map_bind_map fun c _ => map_bind_map fun cs _ => rfl

end Outcome

namespace Expansion

/-- The same place in the catalog with all attributes erased. -/
def bare (s : Expansion) : Expansion :=
  ⟨s.catalog.bare, s.walk, s.expanding, s.inUnion⟩

theorem keepsName_bare (s : Expansion) (ty : Ty) : s.bare.keepsName ty.bare = s.keepsName ty := by
  rw [keepsName, keepsName, bare]
  dsimp only
  rw [Catalog.resolveWithin_bare]
  split_ifs
  · cases s.catalog.resolveWithin s.walk [] ty with
    | error e => rfl
    | ok r => simp [bind, Except.bind, Functor.map, Except.map]
  · rfl

theorem expand_bare (s : Expansion) (name : String) (ty : Ty) :
    s.bare.expand name ty.bare = (fun p => (p.1.bare, p.2.bare)) <$> s.expand name ty := by
  rw [expand, expand, bare]
  dsimp only
  rw [Catalog.resolveWithin_bare]
  cases enterAlias s.expanding name with
  | error e => rfl
  | ok chain => cases s.catalog.resolveWithin s.walk [] ty <;> rfl

end Expansion

theorem Ty.target?_bare (ty : Ty) : ty.bare.target? = ty.target? := by
  cases ty <;> simp [target?]

/-- **Solving does not see attributes.** -/
theorem solveWithin_bare (n : Nat) :
    (∀ (s : Expansion) (ty : Ty), solveWithin n s.bare ty.bare = Ty.bare <$> solveWithin n s ty) ∧
    (∀ (s : Expansion) (head : Ty),
      solveHeadWithin n s.bare head.bare = Ty.bare <$> solveHeadWithin n s head) := by
  induction n with
  | zero => exact ⟨fun _ _ => rfl, fun _ _ => rfl⟩
  | succ n ih =>
    obtain ⟨ih, ihHead⟩ := ih
    refine ⟨fun s ty => ?_, fun s head => ?_⟩
    · have hall (s : Expansion) (ts : List Ty) : (ts.map Ty.bare).mapM (solveWithin n s.bare)
          = List.map Ty.bare <$> ts.mapM (solveWithin n s) :=
        Outcome.mapM_map fun t _ => ih s t
      have hname {name : String} (hname : ty.target? = some name) :
          solveWithin (n + 1) s.bare ty.bare = Ty.bare <$> solveWithin (n + 1) s ty := by
        rw [solveWithin_target hname, solveWithin_target (by rw [Ty.target?_bare, hname]),
          s.keepsName_bare, s.expand_bare, Outcome.liftM_map]
        cases s.keepsName ty with
        | error e => rfl
        | ok kept =>
          cases kept with
          | true => rfl
          | false => exact Outcome.map_bind_map fun p _ => ih p.1 p.2
      cases ty with
      | reference name => exact hname rfl
      | typeAlias name attributes => exact hname rfl
      | parametric head params attributes =>
        rw [Ty.bare_parametric, solveWithin, solveWithin, ihHead, hall]
        refine Outcome.map_bind_map fun H _ => Outcome.map_bind_map fun us _ => ?_
        simp
        rfl
      | function arguments scope attributes =>
        rw [Ty.bare_function, solveWithin, solveWithin, hall]
        exact Outcome.map_bind_map fun us _ => by simp
      | tuple elements attributes =>
        rw [Ty.bare_tuple, solveWithin, solveWithin, hall]
        exact Outcome.map_bind_map fun us _ => by simp
      | union cases attributes =>
        rw [Ty.bare_union, solveWithin, solveWithin, Outcome.mapM_map (k := CaseOf.bare)]
        · exact Outcome.map_bind_map fun ds _ => by simp
        · intro c _
          exact Eq.trans (congrArg (· >>= _) (hall s.enterUnion c.params))
            (Outcome.map_bind_map fun us _ => rfl)
      | impl trait implementation =>
        rw [Ty.bare_impl, solveWithin, solveWithin, ih]
      | labeled label ty =>
        rw [Ty.bare_labeled, solveWithin, solveWithin, ih]
        exact Outcome.map_bind_map fun u _ => rfl
      | annotated directives ty =>
        rw [Ty.bare_annotated, solveWithin, solveWithin, ih]
        exact Outcome.map_bind_map fun u _ => rfl
      | _ => simp [solveWithin]
    · rw [solveHeadWithin, solveHeadWithin, ih]
      refine Outcome.map_bind_map fun u _ => ?_
      cases u with
      | parametric solved params attributes =>
        simp only [Ty.bare_parametric, Ty.same_bare]
        split_ifs
        · rfl
        · exact ihHead s solved
      | _ => simp

namespace Registry

variable (R : Registry)

theorem solve_bare (ty : Ty) : R.bare.solve ty.bare = Ty.bare <$> R.solve ty := by
  rw [solve, solve, descentFuel_bare, walkFuel_bare]
  exact (solveWithin_bare _).1 ⟨R.toCatalog, R.walkFuel ty, [], false⟩ ty

theorem solvedHead_bare (head : Ty) :
    R.bare.solvedHead head.bare = Ty.bare <$> R.solvedHead head := by
  rw [solvedHead, solvedHead, solve_bare]
  refine Outcome.map_bind_map fun u _ => ?_
  cases u <;> simp

theorem family_bare (head : Ty) : R.bare.family head.bare = R.family head := by
  rw [family, family, solvedHead_bare]
  cases R.solvedHead head with
  | ok u =>
    cases u with
    | concrete name attributes => rfl
    | trait trait => simp
    | _ => exact congrArg Outcome.ok (Ty.representation_bare _)
  | _ => rfl

end Registry

/-! ## Unification -/

@[simp] theorem TypeError.incompatible_bare (location : Location) (a b : Ty) :
    incompatible location a.bare b.bare = incompatible location a b := by
  rw [incompatible, incompatible, Ty.representation_bare, Ty.representation_bare]

/-- The checker gives equal answers on equal traits and types. -/
def Respectful (implements : Checker) : Prop :=
  ∀ {t t' : Trait} {ty ty' : Ty}, t.same t' = true → ty.same ty' = true →
    implements t ty = implements t' ty'

theorem Respectful.bare {implements : Checker} (h : Respectful implements) (t : Trait) (ty : Ty) :
    implements t.bare ty.bare = implements t ty := by
  have ht : t.bare.same t = true := by
    rw [← Ty.same_trait, ← Ty.bare_trait, Ty.same_iff, Ty.bare_bare]
  exact h ht (Ty.same_iff.2 ty.bare_bare)

theorem ChangesAttributes.bare : ChangesAttributes Ty.bare TraitOf.bare :=
  .of fun _ _ => rfl

namespace Setting

/-- The setting with all attributes of the stored types erased. -/
def bare (s : Setting) : Setting :=
  ⟨s.types.bare, s.implements, s.location⟩

variable {s : Setting} {go go' : Ty → Ty → Outcome Ty}

theorem clash_bare {α β : Type} (f : α → β) (a b : Ty) :
    s.bare.clash a.bare b.bare = f <$> (s.clash a b : Outcome α) := by
  rw [clash, clash, TypeError.incompatible_bare]
  rfl

theorem bare_ite {α β : Type} {f : α → β} {p : Prop} [Decidable p] {x y : Outcome α}
    {x' y' : Outcome β} (hx : x' = f <$> x) (hy : y' = f <$> y) :
    (if p then x' else y') = f <$> (if p then x else y) := by
  split_ifs
  · exact hx
  · exact hy

/-- What is done with the type that another one stands for. -/
theorem resolve_bind_bare {α β : Type} {h : α → β} (b : Ty) {f : Ty → Outcome α}
    {f' : Ty → Outcome β} (hf : ∀ t, s.types.resolve b = .ok t → f' t.bare = h <$> f t) :
    (liftM (s.bare.types.resolve b.bare) >>= f') = h <$> (liftM (s.types.resolve b) >>= f) := by
  rw [bare, Registry.resolve_bare, Outcome.liftM_map]
  exact Outcome.map_bind_map fun t ht => hf t (Outcome.liftM_eq_ok.1 ht)

theorem unifyAll_bare (hgo : ∀ a b, go' a.bare b.bare = Ty.bare <$> go a b) (a b : Ty)
    (left right : List Ty) :
    s.bare.unifyAll go' a.bare b.bare (left.map Ty.bare) (right.map Ty.bare)
      = List.map Ty.bare <$> s.unifyAll go a b left right := by
  rw [unifyAll, unifyAll, List.length_map, List.length_map]
  refine bare_ite ?_ (clash_bare _ a b)
  rw [List.zip_map]
  refine Outcome.mapM_map fun p _ => ?_
  dsimp only [Prod.map]
  rw [hgo, TypeError.incompatible_bare]
  cases go p.1 p.2 <;> rfl

theorem boundTrait_bare (a : Ty) :
    s.bare.boundTrait a.bare = Option.map TraitOf.bare <$> s.boundTrait a := by
  cases a with
  | parametric head params attributes =>
    rw [Ty.bare_parametric, boundTrait, boundTrait, bare, Registry.solvedHead_bare]
    refine Outcome.map_bind_map fun u _ => ?_
    cases u <;> simp
  | _ => rfl

theorem hasTraitNamed_bare (hs : Respectful s.implements) (right param : Ty) :
    s.bare.hasTraitNamed right.bare param.bare = s.hasTraitNamed right param := by
  cases param with
  | reference name =>
    rw [Ty.bare_reference, hasTraitNamed, hasTraitNamed, bare]
    dsimp only
    rw [show s.types.bare.get? name = (s.types.get? name).map Ty.bare from
      Catalog.get?_bare s.types.toCatalog name]
    cases s.types.get? name with
    | none => rfl
    | some ty =>
      simp only [Option.map_some, Ty.inner_bare]
      cases ty.inner with
      | trait trait => simpa using hs.bare trait right
      | _ => rfl
  | _ => rfl

/-- The steps of a rule do not see attributes, if its calls do not. -/
theorem eq_of_paired (hs : Respectful s.implements)
    (hgo : ∀ a b, go' a.bare b.bare = Ty.bare <$> go a b) {a b : Ty} {x y : Outcome Ty}
    (h : Paired s s.bare Ty.bare TraitOf.bare go go' a b b.bare x y) : y = Ty.bare <$> x := by
  have hasks (trait : Trait) (ty : Ty) :
      s.bare.implements trait.bare ty.bare = s.implements trait ty := hs.bare trait ty
  induction h with
  | answer => rfl
  | clash => exact clash_bare _ a b
  | expected _ ih => exact resolve_bind_bare a ih
  | actual _ ih => exact resolve_bind_bare b ih
  | bound _ ih =>
    rw [boundTrait_bare]
    exact Outcome.map_bind_map fun trait? _ => ih trait?
  | @family head _ _ _ _ ih =>
    rw [show s.bare.types.family head.bare = _ from s.types.family_bare head]
    cases s.types.family head with
    | ok name => exact ih name
    | _ => rfl
  | ask =>
    rw [hasks]
    exact bare_ite rfl (clash_bare _ a b)
  | traits ty =>
    simp only [List.all_map, Function.comp_def, hasTraitNamed_bare hs]
    exact bare_ite rfl (clash_bare _ a b)
  | components _ hmake =>
    rw [unifyAll_bare hgo]
    exact Outcome.map_bind_map fun us _ => congrArg Outcome.ok (hmake us)
  | through => exact hgo _ _
  | methods => exact hgo _ _
  | represented =>
    rw [hgo]
    exact Outcome.map_bind_map fun _ _ => rfl
  | @attempt trait c t _ _ _ _ _ ih =>
    rw [hgo]
    cases go c t with
    | ok u => exact congrArg Outcome.ok (Ty.bare_impl trait u).symm
    | error e => exact ih
    | outOfFuel => rfl

/-- **Unification does not see attributes.** -/
theorem unifyWithin_bare (hs : Respectful s.implements) (n : Nat) (a b : Ty) :
    s.bare.unifyWithin n a.bare b.bare = Ty.bare <$> s.unifyWithin n a b := by
  induction n generalizing a b with
  | zero => rfl
  | succ n ih => exact eq_of_paired hs ih (paired .bare (.image b) n n a)

theorem unify_bare (hs : Respectful s.implements) (a b : Ty) :
    s.bare.unify a.bare b.bare = Ty.bare <$> s.unify a b := by
  rw [unify, unify, bare, Registry.pairFuel_bare]
  exact unifyWithin_bare hs _ a b

end Setting

end TypeEngine

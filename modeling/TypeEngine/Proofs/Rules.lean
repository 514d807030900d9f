import TypeEngine.Proofs.Trails
import TypeEngine.Unification

/-!
# What the rules of unification do

There is one rule for each kind of expected type. A rule asks for what the two types stand for, for
the family of a head and for traits. It calls unification on other pairs of types (`Setting.Calls`),
and some rules leave the answer to such a call (`Registry.HandsOver`).

`Setting.Paired` follows one rule in two settings at once, from question to question and from call
to call. The two runs of every rule are paired, whatever the settings are (`Setting.paired`). This
is the only place where the rules are taken apart by their steps: how two runs compare, whether a
run ends and what it reports is shown by induction on `Paired`, with one case for each kind of step.

The second run may be on types with other attributes (`Ty.mapAttributes`), because no rule looks at
attributes. It may also have another name in place of the actual type (`Counterpart`).
-/

namespace TypeEngine

/-! ## Other attributes -/

namespace Ty

variable (g : Attributes → Attributes)

@[simp] theorem mapAttributes_parametric (head : Ty) (params : List Ty) (attributes : Attributes) :
    (parametric head params attributes).mapAttributes g
      = parametric (head.mapAttributes g) (params.map (mapAttributes g)) (g attributes) := by
  rw [mapAttributes, mapAttributesAll_eq]

@[simp] theorem mapAttributes_function (arguments : List Ty) (scope : Scope)
    (attributes : Attributes) :
    (function arguments scope attributes).mapAttributes g
      = function (arguments.map (mapAttributes g)) scope (g attributes) := by
  rw [mapAttributes, mapAttributesAll_eq]

@[simp] theorem mapAttributes_tuple (elements : List Ty) (attributes : Attributes) :
    (tuple elements attributes).mapAttributes g
      = tuple (elements.map (mapAttributes g)) (g attributes) := by
  rw [mapAttributes, mapAttributesAll_eq]

@[simp] theorem mapAttributes_union (cases : List Case) (attributes : Attributes) :
    (union cases attributes).mapAttributes g
      = union (cases.map (·.map (mapAttributes g))) (g attributes) := by
  rw [mapAttributes, mapAttributesCases_eq]

@[simp] theorem mapAttributes_intersection (params : List Ty) (attributes : Attributes) :
    (intersection params attributes).mapAttributes g
      = intersection (params.map (mapAttributes g)) (g attributes) := by
  rw [mapAttributes, mapAttributesAll_eq]

@[simp] theorem mapAttributes_trait (trait : Trait) :
    (Ty.trait trait).mapAttributes g = .trait (trait.map (mapAttributes g) g) := by
  rw [mapAttributes, mapAttributesTrait_eq]

@[simp] theorem mapAttributes_method (method : Method) :
    (Ty.method method).mapAttributes g = .method (method.map (mapAttributes g) g) := by
  rw [mapAttributes, mapAttributesMethod_eq]

@[simp] theorem mapAttributes_impl (trait : Trait) (implementation : Ty) :
    (impl trait implementation).mapAttributes g
      = impl (trait.map (mapAttributes g) g) (implementation.mapAttributes g) := by
  rw [mapAttributes, mapAttributesTrait_eq]

@[simp] theorem mapAttributes_fixedTrait (trait : Trait) :
    (fixedTrait trait).mapAttributes g = fixedTrait (trait.map (mapAttributes g) g) := by
  rw [mapAttributes, mapAttributesTrait_eq]

theorem mapAttributes_mapAttributes (g' : Attributes → Attributes) (ty : Ty) :
    (ty.mapAttributes g).mapAttributes g' = ty.mapAttributes (g' ∘ g) := by
  induction ty with
  | parametric head params attributes ihHead ih => simpa using ⟨ihHead, ih⟩
  | function arguments scope attributes ih => simpa using ih
  | tuple elements attributes ih => simpa using ih
  | union cases attributes ih => simpa [CaseOf.map] using ih
  | intersection params attributes ih => simpa using ih
  | trait trait ih => simpa [TraitOf.map, MethodOf.map] using ih
  | method method ih => simpa [MethodOf.map] using ih
  | impl trait implementation ihTrait ih => simpa [TraitOf.map, MethodOf.map, ih] using ihTrait
  | fixedTrait trait ih => simpa [TraitOf.map, MethodOf.map] using ih
  | labeled label ty ih => simpa [mapAttributes] using ih
  | annotated directives ty ih => simpa [mapAttributes] using ih
  | _ => rfl

@[simp] theorem bare_mapAttributes (ty : Ty) : (ty.mapAttributes g).bare = ty.bare :=
  mapAttributes_mapAttributes g (fun _ => ∅) ty

@[simp] theorem same_mapAttributes (a b : Ty) :
    (a.mapAttributes g).same (b.mapAttributes g) = a.same b :=
  Bool.eq_iff_iff.2 (by rw [same_iff, same_iff, bare_mapAttributes, bare_mapAttributes])

@[simp] theorem inner_mapAttributes (ty : Ty) :
    (ty.mapAttributes g).inner = ty.inner.mapAttributes g := by
  induction ty with
  | labeled label ty ih => exact ih
  | annotated directives ty ih => exact ih
  | _ => simp only [mapAttributes, inner]

@[simp] theorem isParameter_mapAttributes (ty : Ty) :
    (ty.mapAttributes g).isParameter = ty.isParameter := by
  cases ty <;> rfl

theorem toFunction_mapAttributes (m : Method) :
    (m.map (mapAttributes g) g).toFunction = m.toFunction.mapAttributes g := by
  rw [MethodOf.toFunction, MethodOf.toFunction, mapAttributes_function]
  rfl

theorem same_trait (t u : Trait) : (Ty.trait t).same (.trait u) = t.same u := by
  rw [same, sameUnder, TraitOf.same]

end Ty

/-- The maps change attributes only, and commute with the union of attributes. -/
inductive ChangesAttributes : (Ty → Ty) → (Trait → Trait) → Prop
  | of {g : Attributes → Attributes} : (∀ x y : Attributes, g (x.union y) = (g x).union (g y)) →
      ChangesAttributes (Ty.mapAttributes g) (TraitOf.map (Ty.mapAttributes g) g)

theorem ChangesAttributes.refl : ChangesAttributes id id := by
  have hty : Ty.mapAttributes id = id := funext Ty.mapAttributes_id
  have htrait : TraitOf.map (Ty.mapAttributes id) id = id := by
    funext t
    have h := Ty.mapAttributes_id (.trait t)
    rw [Ty.mapAttributes_trait] at h
    exact Ty.trait.inj h
  have h := ChangesAttributes.of (g := id) fun _ _ => rfl
  rwa [htrait, hty] at h

namespace ChangesAttributes

variable {f : Ty → Ty} {h : Trait → Trait}

theorem inner (hf : ChangesAttributes f h) (t : Ty) : (f t).inner = f t.inner := by
  obtain ⟨-⟩ := hf
  exact Ty.inner_mapAttributes _ t

theorem isParameter (hf : ChangesAttributes f h) (t : Ty) :
    (f t).isParameter = t.isParameter := by
  obtain ⟨-⟩ := hf
  exact Ty.isParameter_mapAttributes _ t

theorem same (hf : ChangesAttributes f h) (a b : Ty) : (f a).same (f b) = a.same b := by
  obtain ⟨-⟩ := hf
  exact Ty.same_mapAttributes _ a b

theorem target? (hf : ChangesAttributes f h) (t : Ty) : (f t).target? = t.target? := by
  obtain ⟨-⟩ := hf
  cases t <;> rfl

theorem impl (hf : ChangesAttributes f h) (trait : Trait) (t : Ty) :
    f (.impl trait t) = .impl (h trait) (f t) := by
  obtain ⟨-⟩ := hf
  exact Ty.mapAttributes_impl _ trait t

theorem trait (hf : ChangesAttributes f h) (trait : Trait) :
    f (.trait trait) = .trait (h trait) := by
  obtain ⟨-⟩ := hf
  exact Ty.mapAttributes_trait _ trait

theorem name (hf : ChangesAttributes f h) (trait : Trait) : (h trait).name = trait.name := by
  obtain ⟨-⟩ := hf
  rfl

theorem sameTrait (hf : ChangesAttributes f h) (t u : Trait) : (h t).same (h u) = t.same u := by
  rw [← Ty.same_trait, ← Ty.same_trait, ← hf.trait, ← hf.trait, hf.same]

theorem fixedTrait (hf : ChangesAttributes f h) (trait : Trait) :
    f (.fixedTrait trait) = .fixedTrait (h trait) := by
  obtain ⟨-⟩ := hf
  exact Ty.mapAttributes_fixedTrait _ trait

end ChangesAttributes

/-- `b'` is the image of `b`, or both are references. -/
inductive Counterpart (f : Ty → Ty) : Ty → Ty → Prop
  | image (b : Ty) : Counterpart f b (f b)
  | names (name name' : String) : Counterpart f (.reference name) (.reference name')

/-! ## The calls of a rule -/

namespace Ty

/-- The types that a compound type is unified by. -/
def components : Ty → List Ty
  | .parametric _ params _ => params
  | .function arguments _ _ => arguments
  | .tuple elements _ => elements
  | _ => []

/-- A method as the function it stands for. -/
def asFunction : Ty → Ty
  | .method m => m.toFunction
  | ty => ty

end Ty

/-- `s.Calls (a, b) (c, d)`: the unification of `a` and `b` may ask for that of `c` and `d`. -/
inductive Setting.Calls (s : Setting) : Ty × Ty → Ty × Ty → Prop
  | name {a b t : Ty} {name : String} : a.lookup? = some name → s.types.resolve a = .ok t →
      Calls s (a, b) (t, b)
  | labeled {label : String} {t b : Ty} : Calls s (.labeled label t, b) (t, b)
  | annotated {directives : List Directive} {t b : Ty} : Calls s (.annotated directives t, b) (t, b)
  | component {a b t c d : Ty} : s.types.resolve b = .ok t → c ∈ a.components →
      d ∈ t.inner.components → Calls s (a, b) (c, d)
  | method {m : Method} {b : Ty} : Calls s (.method m, b) (m.toFunction, b)
  | methods {m m' : Method} : Calls s (.method m, .method m') (m.toFunction, m'.toFunction)
  | implementation {trait : Trait} {t b u : Ty} : s.types.resolve b = .ok u →
      Calls s (.impl trait t, b) (t, u)
  | represented {kind : Numeric} {attributes : Attributes} {trait : Trait} {b t u : Ty} :
      s.types.resolve b = .ok t → t.inner = .impl trait u →
      Calls s (.numeric kind attributes, b) (.numeric kind attributes, u)

/-- `R.HandsOver (a, b) (c, d)`: the unification of `a` and `b` is left to that of `c` and `d`, and
fails as that does. -/
inductive Registry.HandsOver (R : Registry) : Ty × Ty → Ty × Ty → Prop
  | name {a b t : Ty} {name : String} : a.lookup? = some name → R.resolve a = .ok t →
      HandsOver R (a, b) (t, b)
  | labeled {label : String} {t b : Ty} : HandsOver R (.labeled label t, b) (t, b)
  | annotated {directives : List Directive} {t b : Ty} :
      HandsOver R (.annotated directives t, b) (t, b)
  | method {m : Method} {b : Ty} : (Ty.method m).same b = false →
      HandsOver R (.method m, b) (m.toFunction, b.asFunction)
  | represented {kind : Numeric} {attributes : Attributes} {trait : Trait} {b t u : Ty} :
      R.resolve b = .ok t → t.inner = .impl trait u →
      HandsOver R (.numeric kind attributes, b) (.numeric kind attributes, u)

theorem Registry.HandsOver.calls {s : Setting} {a b c d : Ty}
    (h : s.types.HandsOver (a, b) (c, d)) : s.Calls (a, b) (c, d) := by
  cases h with
  | name hname ht => exact .name hname ht
  | labeled => exact .labeled
  | annotated => exact .annotated
  | method =>
    cases b with
    | method m' => exact .methods
    | _ => exact .method
  | represented ht himpl => exact .represented ht himpl

/-! ## A rule in two settings -/

namespace Setting

/-- The head is that of the expected type, or of what the actual type stands for. -/
inductive ComparesHead (s : Setting) (a b head : Ty) : Prop
  | expected {params : List Ty} {attributes : Attributes} :
      a = .parametric head params attributes → ComparesHead s a b head
  | actual {t : Ty} {params : List Ty} {attributes : Attributes} : s.types.resolve b = .ok t →
      t.inner = .parametric head params attributes → ComparesHead s a b head

/-- `Paired s s' f h go go' a b b' x y`: a rule that unifies `a` and `b` comes to `x` in the setting
`s`, and to `y` in `s'` with the images of the types. Types are mapped by `f`, traits by `h`, and
`b'` is in the place of `b`. The two runs make the same steps as long as the answers allow. -/
inductive Paired (s s' : Setting) (f : Ty → Ty) (h : Trait → Trait)
    (go go' : Ty → Ty → Outcome Ty) (a b b' : Ty) : Outcome Ty → Outcome Ty → Prop
  | answer (t : Ty) : Paired s s' f h go go' a b b' (.ok t) (.ok (f t))
  | clash : Paired s s' f h go go' a b b' (s.clash a b) (s'.clash (f a) b')
  /-- What the expected type stands for. -/
  | expected {k k' : Ty → Outcome Ty} :
      (∀ t, s.types.resolve a = .ok t → Paired s s' f h go go' a b b' (k t) (k' (f t))) →
      Paired s s' f h go go' a b b' (liftM (s.types.resolve a) >>= k)
        (liftM (s'.types.resolve (f a)) >>= k')
  /-- What the actual type stands for. -/
  | actual {k k' : Ty → Outcome Ty} :
      (∀ t, s.types.resolve b = .ok t → Paired s s' f h go go' a b b' (k t) (k' (f t))) →
      Paired s s' f h go go' a b b' (liftM (s.types.resolve b) >>= k)
        (liftM (s'.types.resolve b') >>= k')
  /-- The trait that the expected type applies, if there is one. -/
  | bound {k k' : Option Trait → Outcome Ty} :
      (∀ trait?, Paired s s' f h go go' a b b' (k trait?) (k' (trait?.map h))) →
      Paired s s' f h go go' a b b' (s.boundTrait a >>= k) (s'.boundTrait (f a) >>= k')
  | family {head : Ty} {k k' : String → Outcome Ty} : s.ComparesHead a b head →
      (∀ name, Paired s s' f h go go' a b b' (k name) (k' name)) →
      Paired s s' f h go go' a b b' (s.types.family head >>= k) (s'.types.family (f head) >>= k')
  /-- The checker decides. -/
  | ask (trait : Trait) (ty t : Ty) :
      Paired s s' f h go go' a b b'
        (if s.implements trait ty = true then .ok t else s.clash a b)
        (if s'.implements (h trait) (f ty) = true then .ok (f t) else s'.clash (f a) b')
  /-- The checker decides on all traits of an intersection. -/
  | traits {params : List Ty} {attributes : Attributes} (ty : Ty) :
      a = .intersection params attributes →
      Paired s s' f h go go' a b b'
        (if params.all (s.hasTraitNamed ty) = true then .ok a else s.clash a b)
        (if (params.map f).all (s'.hasTraitNamed (f ty)) = true then .ok (f a)
          else s'.clash (f a) b')
  /-- Component by component. -/
  | components {t : Ty} {make make' : List Ty → Ty} : s.types.resolve b = .ok t →
      (∀ us, make' (us.map f) = f (make us)) →
      Paired s s' f h go go' a b b'
        (s.unifyAll go a b a.components t.inner.components >>= fun us => .ok (make us))
        (s'.unifyAll go' (f a) b' (a.components.map f) (t.inner.components.map f)
          >>= fun us => .ok (make' us))
  /-- Another expected type, with the same actual type. -/
  | through {c : Ty} : s.types.HandsOver (a, b) (c, b) →
      Paired s s' f h go go' a b b' (go c b) (go' (f c) b')
  | methods {m m' : Method} : a = .method m → b = .method m' → a.same b = false →
      Paired s s' f h go go' a b b' (go m.toFunction m'.toFunction)
        (go' (f m.toFunction) (f m'.toFunction))
  /-- A number type and what implements a trait. -/
  | represented {kind : Numeric} {attributes : Attributes} {trait : Trait} {t u : Ty} :
      a = .numeric kind attributes → s.types.resolve b = .ok t → t.inner = .impl trait u →
      Paired s s' f h go go' a b b' (go a u >>= fun _ => .ok a)
        (go' (f a) (f u) >>= fun _ => .ok (f a))
  /-- The implementation is tried, and if it does not fit, there is something else to do. -/
  | attempt {trait : Trait} {c t : Ty} {y y' : Outcome Ty} : a = .impl trait c →
      s.types.resolve b = .ok t → Paired s s' f h go go' a b b' y y' →
      Paired s s' f h go go' a b b'
        ((go c t >>= fun u => .ok (.impl trait u)).orElse fun _ => y)
        ((go' (f c) (f t) >>= fun u => .ok (.impl (h trait) u)).orElse fun _ => y')

variable {s s' : Setting}

/-- The rule for implemented traits, with the attempt in one step. -/
theorem unifyResolved_impl_eq (go : Ty → Ty → Outcome Ty) (trait : Trait)
    (implementation a b : Ty) :
    unifyImpl.unifyResolved s go trait implementation a b
      = liftM (s.types.resolve b) >>= fun t =>
        (go implementation t >>= fun u => .ok (.impl trait u)).orElse fun _ =>
          if s.implements trait t = true then .ok (.fixedTrait trait) else s.clash a b := by
  refine congrArg (liftM (s.types.resolve b) >>= ·) (funext fun t => ?_)
  cases go implementation t <;> rfl

theorem not_same_reference {a : Ty} (ha : a.target? = none) (name : String) :
    ¬ a.same (.reference name) = true := by
  cases a <;> simp_all [Ty.target?, Ty.same, Ty.sameUnder]

namespace Paired

variable {f : Ty → Ty} {h : Trait → Trait} {go go' : Ty → Ty → Outcome Ty} {a b b' : Ty}

theorem ite {p : Prop} [Decidable p] {x y x' y' : Outcome Ty}
    (hx : Paired s s' f h go go' a b b' x x') (hy : Paired s s' f h go go' a b b' y y') :
    Paired s s' f h go go' a b b' (if p then x else y) (if p then x' else y') := by
  split_ifs
  · exact hx
  · exact hy

/-! ## One rule after another -/

theorem unifyConcrete (hf : ChangesAttributes f h) :
    Paired s s' f h go go' a b b' (s.unifyConcrete a b) (s'.unifyConcrete (f a) b') := by
  refine .expected fun left _ => .actual fun right _ => ?_
  simp only [hf.inner, hf.isParameter, hf.same]
  exact .ite (.answer left) (.ite (.answer right) .clash)

theorem unifyBound (hf : ChangesAttributes f h) (trait : Trait) (right : Ty) :
    Paired s s' f h go go' a b b' (s.unifyBound trait a b right)
      (s'.unifyBound (h trait) (f a) b' (f right)) := by
  unfold Setting.unifyBound
  rw [hf.same, ← hf.impl]
  exact .ite (.answer a) (.ask trait right _)

theorem unifyStructure (hf : ChangesAttributes f h) {t : Ty} (ht : s.types.resolve b = .ok t) :
    Paired s s' f h go go' a b b' (s.unifyStructure go a b t.inner)
      (s'.unifyStructure go' (f a) b' (f t.inner)) := by
  obtain @⟨g, hg⟩ := hf
  -- The components, whatever the results are put into.
  have hall (make make' : List Ty → Ty)
      (hmake : ∀ us, make' (us.map (Ty.mapAttributes g)) = (make us).mapAttributes g) :
      Paired s s' (Ty.mapAttributes g) (TraitOf.map (Ty.mapAttributes g) g) go go' a b b' _ _ :=
    .components ht hmake
  cases a with
  | function arguments scope attributes =>
    cases hinner : t.inner with
    | function arguments' scope' attributes' =>
      have hall := hall (fun us => .function us scope (attributes.union attributes'))
        (fun us => .function us scope ((g attributes).union (g attributes'))) (by simp [hg])
      simp only [hinner, Ty.components, Ty.mapAttributes_function] at hall ⊢
      exact hall
    | _ => exact .clash
  | tuple elements attributes =>
    cases hinner : t.inner with
    | tuple elements' attributes' =>
      have hall := hall (fun us => .tuple us (attributes.union attributes'))
        (fun us => .tuple us ((g attributes).union (g attributes'))) (by simp [hg])
      simp only [hinner, Ty.components, Ty.mapAttributes_tuple] at hall ⊢
      exact hall
    | _ => exact .clash
  | parametric head params attributes =>
    cases hinner : t.inner with
    | parametric head' params' attributes' =>
      have hall := hall (fun us => .parametric head us (attributes.union attributes'))
        (fun us => .parametric (head.mapAttributes g) us ((g attributes).union (g attributes')))
        (by simp [hg])
      simp only [hinner, Ty.components, Ty.mapAttributes_parametric] at hall ⊢
      refine .family (.expected rfl) fun family => .family (.actual ht hinner) fun family' => ?_
      rw [← Ty.mapAttributes_parametric] at hall ⊢
      exact .ite hall .clash
    | _ => exact .clash
  | _ => exact .clash

theorem unifyCompound (hf : ChangesAttributes f h) :
    Paired s s' f h go go' a b b' (s.unifyCompound go a b) (s'.unifyCompound go' (f a) b') := by
  refine .actual fun t ht => ?_
  simp only [hf.inner, hf.isParameter]
  refine .ite (.answer a) (.bound fun trait? => ?_)
  cases trait? with
  | none => exact unifyStructure hf ht
  | some trait => exact unifyBound hf trait t.inner

theorem unifyIntersection (hf : ChangesAttributes f h) {params : List Ty}
    {attributes : Attributes} (ha : a = .intersection params attributes) :
    Paired s s' f h go go' a b b' (s.unifyIntersection params a b)
      (s'.unifyIntersection (params.map f) (f a) b') := by
  refine .actual fun t _ => ?_
  simp only [hf.inner, hf.isParameter, hf.same]
  by_cases hself : (t.inner.isParameter || t.inner.same a) = true
  · simp only [hself, Bool.true_or, if_true]
    exact .answer a
  · simp only [Bool.eq_false_iff.2 hself, Bool.false_or]
    exact .traits t.inner ha

theorem unifyTrait (hf : ChangesAttributes f h) :
    Paired s s' f h go go' a b b' (s.unifyTrait a b) (s'.unifyTrait (f a) b') := by
  refine .actual fun t _ => ?_
  simp only [hf.inner, hf.same]
  exact .ite (.answer a) .clash

/-- Some rules compare the two types first. -/
theorem unlessSame (hf : ChangesAttributes f h) (hb : Counterpart f b b') (ha : a.target? = none)
    {x x' : Outcome Ty} (hx : a.same b = false → Paired s s' f h go go' a b b' x x') :
    Paired s s' f h go go' a b b' (if a.same b = true then .ok a else x)
      (if (f a).same b' = true then .ok (f a) else x') := by
  cases hb with
  | image =>
    rw [hf.same]
    split_ifs with hsame
    · exact .answer a
    · exact hx (Bool.eq_false_iff.2 hsame)
  | names name name' =>
    have hsame := not_same_reference ha name
    rw [if_neg hsame, if_neg (not_same_reference ((hf.target? a).trans ha) name')]
    exact hx (Bool.eq_false_iff.2 hsame)

theorem unifyUnion (hf : ChangesAttributes f h) (hb : Counterpart f b b') (ha : a.target? = none)
    {cases cases' : List Case} (hcases : cases'.map (·.label) = cases.map (·.label)) :
    Paired s s' f h go go' a b b' (s.unifyUnion cases a b) (s'.unifyUnion cases' (f a) b') := by
  have hresolved : Paired s s' f h go go' a b b' (unifyUnion.unifyResolved s a b)
      (unifyUnion.unifyResolved s' (f a) b') := by
    refine .actual fun t _ => ?_
    simp only [hf.inner, hf.isParameter, hf.same]
    exact .ite (.answer a) .clash
  have hlabels (label : String) : cases'.any (·.label == label) = cases.any (·.label == label) := by
    have h := congrArg (List.any · (· == label)) hcases
    rwa [List.any_map, List.any_map] at h
  refine unlessSame hf hb ha fun _ => ?_
  cases hb with
  | names => exact hresolved
  | image =>
    obtain ⟨-⟩ := hf
    cases b with
    | constructor label owner attributes =>
      show Paired _ _ _ _ _ _ _ _ _ (if cases.any (·.label == label) = true then _ else _)
        (if cases'.any (·.label == label) = true then _ else _)
      rw [hlabels]
      exact .ite (.answer a) hresolved
    | _ => exact hresolved

theorem unifyMethod (hf : ChangesAttributes f h) (hb : Counterpart f b b') {m m' : Method}
    (ha : a = .method m) (hm : m'.toFunction = f m.toFunction) :
    Paired s s' f h go go' a b b' (Setting.unifyMethod go m a b)
      (Setting.unifyMethod go' m' (f a) b') := by
  refine unlessSame hf hb (by rw [ha]; rfl) fun hsame => ?_
  cases hb with
  | names =>
    rw [hm]
    subst ha
    exact .through (.method hsame)
  | image =>
    cases b with
    | method other =>
      have hother : ∃ other', f (.method other) = .method other' ∧
          other'.toFunction = f other.toFunction := by
        obtain ⟨-⟩ := hf
        exact ⟨_, Ty.mapAttributes_method _ other, Ty.toFunction_mapAttributes _ other⟩
      obtain ⟨other', heq, hfunction⟩ := hother
      rw [heq]
      show Paired _ _ _ _ _ _ _ _ _ _ (go' m'.toFunction other'.toFunction)
      rw [hm, hfunction, ← heq]
      exact .methods ha rfl hsame
    | _ =>
      rw [hm]
      obtain ⟨-⟩ := hf
      subst ha
      exact .through (.method hsame)

theorem unifyImpl (hf : ChangesAttributes f h) (hb : Counterpart f b b') {trait : Trait}
    {implementation : Ty} (ha : a = .impl trait implementation) :
    Paired s s' f h go go' a b b' (s.unifyImpl go trait implementation a b)
      (s'.unifyImpl go' (h trait) (f implementation) (f a) b') := by
  have hresolved : Paired s s' f h go go' a b b'
      (unifyImpl.unifyResolved s go trait implementation a b)
      (unifyImpl.unifyResolved s' go' (h trait) (f implementation) (f a) b') := by
    rw [unifyResolved_impl_eq, unifyResolved_impl_eq]
    refine .actual fun t ht => .attempt ha ht ?_
    rw [← hf.fixedTrait]
    exact .ask trait t _
  refine unlessSame hf hb (by rw [ha]; rfl) fun _ => ?_
  cases hb with
  | names => exact hresolved
  | image =>
    cases b with
    | fixedTrait fixed =>
      rw [hf.fixedTrait] at hresolved ⊢
      simp only [hf.name]
      rw [← hf.fixedTrait] at hresolved ⊢
      exact .ite (.answer _) hresolved
    | trait other =>
      rw [hf.trait] at hresolved ⊢
      simp only [hf.sameTrait]
      rw [← hf.fixedTrait]
      exact .ite (.answer _) hresolved
    | _ =>
      obtain ⟨-⟩ := hf
      exact hresolved

theorem unifyFixedTrait (hf : ChangesAttributes f h) (hb : Counterpart f b b')
    (ha : a.target? = none) (fixed : Trait) :
    Paired s s' f h go go' a b b' (s.unifyFixedTrait fixed a b)
      (s'.unifyFixedTrait (h fixed) (f a) b') := by
  have hresolved : Paired s s' f h go go' a b b' (unifyFixedTrait.unifyResolved s fixed a b)
      (unifyFixedTrait.unifyResolved s' (h fixed) (f a) b') :=
    .actual fun t _ => .ask fixed t a
  refine unlessSame hf hb ha fun _ => ?_
  cases hb with
  | names => exact hresolved
  | image =>
    cases b with
    | trait other =>
      rw [hf.trait] at hresolved ⊢
      simp only [hf.name]
      exact .ite (.answer a) hresolved
    | impl other implementation =>
      rw [hf.impl] at hresolved ⊢
      simp only [hf.name]
      exact .ite (.answer a) hresolved
    | _ =>
      obtain ⟨-⟩ := hf
      exact hresolved

theorem unifyNumeric (hf : ChangesAttributes f h) {kind : Numeric} {attributes : Attributes}
    (ha : a = .numeric kind attributes) :
    Paired s s' f h go go' a b b' (s.unifyNumeric go kind a b)
      (s'.unifyNumeric go' kind (f a) b') := by
  refine .actual fun t ht => ?_
  rw [hf.inner]
  cases hinner : t.inner with
  | impl trait u =>
    rw [hf.impl]
    exact .represented ha ht hinner
  | parameter name origin =>
    obtain ⟨-⟩ := hf
    exact .answer a
  | numeric other attributes' =>
    obtain ⟨-⟩ := hf
    exact .ite (.answer a) .clash
  | _ =>
    obtain ⟨-⟩ := hf
    exact .clash

end Paired

/-- **The two runs of a rule are paired,** whatever the settings are. -/
theorem paired {f : Ty → Ty} {h : Trait → Trait} (hf : ChangesAttributes f h) {b b' : Ty}
    (hb : Counterpart f b b') (n m : Nat) (a : Ty) :
    Paired s s' f h (s.unifyWithin n) (s'.unifyWithin m) a b b' (s.unifyWithin (n + 1) a b)
      (s'.unifyWithin (m + 1) (f a) b') := by
  -- A name of the expected type is opened.
  have hname {name : String} (hname : a.lookup? = some name) :
      Paired s s' f h (s.unifyWithin n) (s'.unifyWithin m) a b b'
        (liftM (s.types.resolve a) >>= fun t => s.unifyWithin n t b)
        (liftM (s'.types.resolve (f a)) >>= fun t => s'.unifyWithin m t b') :=
    .expected fun t ht => .through (.name hname ht)
  obtain @⟨g, hg⟩ := id hf
  cases a with
  | parameter name origin =>
    rw [show s.unifyWithin (n + 1) (.parameter name origin) b
        = liftM (s.types.resolve b) >>= .ok from (bind_pure _).symm,
      show s'.unifyWithin (m + 1) (Ty.mapAttributes g (.parameter name origin)) b'
        = liftM (s'.types.resolve b') >>= .ok from (bind_pure _).symm]
    exact .actual fun t _ => .answer t
  | reference | typeAlias | constructor => exact hname rfl
  | labeled label inner => exact .through .labeled
  | annotated directives inner => exact .through .annotated
  | concrete name attributes => exact .unifyConcrete hf
  | parametric | function | tuple => exact .unifyCompound hf
  | union cases attributes =>
    have hlabels : (cases.map (·.map (Ty.mapAttributes g))).map (·.label) = cases.map (·.label) :=
      List.map_map
    have hrule : Paired s s' _ _ (s.unifyWithin n) (s'.unifyWithin m)
        (.union cases attributes) b b' _ _ := .unifyUnion hf hb rfl hlabels
    rw [Ty.mapAttributes_union] at hrule ⊢
    exact hrule
  | intersection params attributes =>
    have hrule : Paired s s' _ _ (s.unifyWithin n) (s'.unifyWithin m)
        (.intersection params attributes) b b' _ _ := .unifyIntersection hf rfl
    rw [Ty.mapAttributes_intersection] at hrule ⊢
    exact hrule
  | trait trait => exact .unifyTrait hf
  | method method =>
    have hrule : Paired s s' _ _ (s.unifyWithin n) (s'.unifyWithin m) (.method method) b b' _ _ :=
      .unifyMethod hf hb rfl (Ty.toFunction_mapAttributes g method)
    rw [Ty.mapAttributes_method] at hrule ⊢
    exact hrule
  | impl trait implementation =>
    have hrule : Paired s s' _ _ (s.unifyWithin n) (s'.unifyWithin m)
        (.impl trait implementation) b b' _ _ := .unifyImpl hf hb rfl
    rw [Ty.mapAttributes_impl] at hrule ⊢
    exact hrule
  | fixedTrait fixed =>
    have hrule : Paired s s' _ _ (s.unifyWithin n) (s'.unifyWithin m)
        (.fixedTrait fixed) b b' _ _ := .unifyFixedTrait hf hb rfl fixed
    rw [Ty.mapAttributes_fixedTrait] at hrule ⊢
    exact hrule
  | numeric kind attributes => exact .unifyNumeric hf rfl

/-- A run is paired with itself. -/
theorem paired_self (n : Nat) (a b : Ty) :
    Paired s s id id (s.unifyWithin n) (s.unifyWithin n) a b b (s.unifyWithin (n + 1) a b)
      (s.unifyWithin (n + 1) a b) :=
  paired .refl (.image b) n n a

/-! ## Names of the expected type -/

theorem unifyWithin_name {n : Nat} {a b : Ty} {name : String} (hname : a.lookup? = some name) :
    s.unifyWithin (n + 1) a b = liftM (s.types.resolve a) >>= fun t => s.unifyWithin n t b := by
  cases a with
  | reference | typeAlias | constructor => rfl
  | _ => cases hname

theorem unifyWithin_of_lookup {n : Nat} {a b t : Ty} {name : String}
    (hname : a.lookup? = some name) (ha : s.types.resolve a = .ok t) :
    s.unifyWithin (n + 1) a b = s.unifyWithin n t b := by
  rw [unifyWithin_name hname, ha, Outcome.liftM_ok, Outcome.ok_bind]

/-! ## Handing over -/

/-- **A failure is passed on as it is** by the pair that was handed over. -/
theorem error_of_handsOver {n : Nat} {a b c d : Ty} {e : TypeError}
    (h : s.types.HandsOver (a, b) (c, d)) (he : s.unifyWithin (n + 1) a b = .error e) :
    s.unifyWithin n c d = .error e := by
  cases h with
  | @name _ _ _ name hname ht =>
    rw [unifyWithin_of_lookup hname ht] at he
    exact he
  | labeled => exact he
  | annotated => exact he
  | method hsame =>
    rw [unifyWithin] at he
    unfold unifyMethod at he
    rw [if_neg (by simp [hsame])] at he
    cases b <;> exact he
  | @represented kind attributes trait _ t _ ht himpl =>
    rw [unifyWithin, unifyNumeric, ht, Outcome.liftM_ok, Outcome.ok_bind, himpl] at he
    -- The rule goes on with its own type, but not after an error.
    dsimp only at he
    cases hd : s.unifyWithin n (.numeric kind attributes) d with
    | ok u => rw [hd] at he; cases he
    | error e' => rw [hd] at he; exact he
    | outOfFuel => rw [hd] at he; cases he

/-! ## When a rule ends -/

/-- Solving ends at the head of the type, if it has one. -/
def HeadEnds (s : Setting) (ty : Ty) : Prop :=
  ∀ {head : Ty} {params : List Ty} {attributes : Attributes},
    ty = .parametric head params attributes → s.types.solve head ≠ .outOfFuel

open Outcome

variable {go : Ty → Ty → Outcome Ty} {a b : Ty}

theorem ends_solvedHead {head : Ty} (h : s.types.solve head ≠ .outOfFuel) :
    s.types.solvedHead head ≠ .outOfFuel := by
  refine ends_bind h fun S _ => ?_
  cases S <;> simp

theorem ends_family {head : Ty} (h : s.types.solve head ≠ .outOfFuel) :
    s.types.family head ≠ .outOfFuel := by
  refine ends_bind (ends_solvedHead h) fun H _ => ?_
  cases H <;> simp

theorem HeadEnds.boundTrait (h : s.HeadEnds a) : s.boundTrait a ≠ .outOfFuel := by
  unfold Setting.boundTrait
  split
  · refine ends_bind (ends_solvedHead (h rfl)) fun H _ => ?_
    cases H <;> simp
  · simp

theorem ends_unifyAll {left right : List Ty}
    (h : ∀ c ∈ left, ∀ d ∈ right, go c d ≠ .outOfFuel) :
    s.unifyAll go a b left right ≠ .outOfFuel := by
  unfold unifyAll
  split_ifs
  · refine ends_mapM fun p hp => ?_
    have hgo := h _ (List.of_mem_zip hp).1 _ (List.of_mem_zip hp).2
    dsimp only
    cases hx : go p.1 p.2 with
    | outOfFuel => exact absurd hx hgo
    | _ => simp [Outcome.mapError]
  · simp [clash]

/-- A rule ends if its calls end. -/
theorem Paired.ends {f : Ty → Ty} {h : Trait → Trait} {go' : Ty → Ty → Outcome Ty} {b' : Ty}
    {x y : Outcome Ty} (hxy : Paired s s' f h go go' a b b' x y) (ha : s.HeadEnds a)
    (hb : ∀ t, s.types.resolve b = .ok t → s.HeadEnds t.inner)
    (hgo : ∀ c d, s.Calls (a, b) (c, d) → go c d ≠ .outOfFuel) : x ≠ .outOfFuel := by
  induction hxy with
  | answer => simp
  | clash => simp [Setting.clash]
  | expected _ ih => exact ends_bind (ends_liftM _) fun t ht => ih t (liftM_eq_ok.1 ht)
  | actual _ ih => exact ends_bind (ends_liftM _) fun t ht => ih t (liftM_eq_ok.1 ht)
  | bound _ ih => exact ends_bind ha.boundTrait fun trait? _ => ih trait?
  | family hhead _ ih =>
    refine ends_bind (ends_family ?_) fun name _ => ih name
    cases hhead with
    | expected heq => exact ha heq
    | actual ht heq => exact hb _ ht heq
  | ask | traits => split_ifs <;> simp [Setting.clash]
  | components ht =>
    refine ends_bind (ends_unifyAll fun c hc d hd => ?_) fun _ _ => (by simp)
    exact hgo c d (.component ht hc hd)
  | through hover => exact hgo _ _ hover.calls
  | methods ha hb =>
    subst ha hb
    exact hgo _ _ .methods
  | represented ha ht himpl =>
    subst ha
    exact ends_bind (hgo _ _ (.represented ht himpl)) fun _ _ => (by simp)
  | @attempt trait c t _ _ ha ht _ ih =>
    subst ha
    have hcall := hgo _ _ (.implementation ht)
    cases hc : go c t with
    | ok u => simp [Outcome.orElse]
    | error e => simpa [Outcome.orElse] using ih
    | outOfFuel => exact absurd hc hcall

/-- **Unification ends if its calls end** with one unit of fuel less. -/
theorem ends_of_calls {n : Nat} (ha : s.HeadEnds a)
    (hb : ∀ t, s.types.resolve b = .ok t → s.HeadEnds t.inner)
    (h : ∀ c d, s.Calls (a, b) (c, d) → s.unifyWithin n c d ≠ .outOfFuel) :
    s.unifyWithin (n + 1) a b ≠ .outOfFuel :=
  (paired_self n a b).ends ha hb h

end Setting

end TypeEngine

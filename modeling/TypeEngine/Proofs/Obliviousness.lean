import TypeEngine.Proofs.Erasure
import TypeEngine.Substitution

/-!
# Attributes never influence typing

Binding, matching and substituting do not see attributes either: what they do to bindings with all
attributes erased is what they do to the bindings, with all attributes erased afterwards
(`runBindings_bare`). Keys are names and texts, which show no attributes.

`attributes_unobservable` compares two runs of every engine on data that differ in attributes only.
Both runs erase to one and the same run, so they end alike: with results that are equal up to
attributes, with the same error, or both without fuel.
-/

namespace TypeEngine

/-! ## Bindings -/

namespace Table

variable {α β : Type}

/-- The table with every value replaced. -/
def map (f : α → β) (t : Table α) : Table β :=
  ⟨t.entries.map fun p => (p.1, f p.2), by
    rw [Increasing, List.pairwise_map]
    exact t.increasing⟩

@[simp] theorem get?_map (f : α → β) (t : Table α) (key : String) :
    (t.map f).get? key = (t.get? key).map f :=
  Catalog.lookup_map_snd f t.entries key

theorem insert_map (f : α → β) (t : Table α) (key : String) (value : α) :
    (t.map f).insert key (f value) = (t.insert key value).map f := by
  have h (l : List (String × α)) :
      insertBy compareKeys (key, f value) (l.map fun p => (p.1, f p.2))
        = (insertBy compareKeys (key, value) l).map fun p => (p.1, f p.2) := by
    induction l with
    | nil => rfl
    | cons p l ih =>
      rw [List.map_cons, insertBy, insertBy, ih]
      have : compareKeys (key, f value) (p.1, f p.2) = compareKeys (key, value) p := rfl
      rw [this]
      split <;> rfl
  simp only [insert, map, h]

end Table

namespace Bindings

/-- The bindings with all attributes of the bound types erased. -/
def bare (σ : Bindings) : Bindings :=
  ⟨σ.mappings.map Ty.bare, σ.errors⟩

theorem bind_bare (σ : Bindings) (key : String) (ty : Ty) :
    σ.bare.bind key ty.bare = (σ.bind key ty).bare := by
  rw [bind, bind, bare, bare, Table.insert_map]

theorem get_bare (σ : Bindings) (location : Location) (key : String) (context : Ty) :
    σ.bare.get location key context.bare = Ty.bare <$> σ.get location key context := by
  have hnotFound : TypeError.substitutionNotFound location key context.bare
      = .substitutionNotFound location key context := by
    rw [TypeError.substitutionNotFound, TypeError.substitutionNotFound, Ty.representation_bare]
  rw [get, get, bare, Table.get?_map, hnotFound]
  cases σ.errors.get? key with
  | some e => rfl
  | none => cases σ.mappings.get? key <;> rfl

end Bindings

theorem zipExact_bare (left right : List Ty) :
    zipExact (left.map Ty.bare) (right.map Ty.bare)
      = (zipExact left right).map (List.map (Prod.map Ty.bare Ty.bare)) := by
  rw [zipExact, zipExact, List.length_map, List.length_map, List.zip_map]
  split_ifs <;> rfl

theorem zipCases_bare (left right : List Case) :
    zipCases (left.map CaseOf.bare) (right.map CaseOf.bare)
      = (zipCases left right).map (List.map (Prod.map Ty.bare Ty.bare)) := by
  induction left generalizing right with
  | nil => cases right <;> rfl
  | cons c cs ih =>
    cases right with
    | nil => rfl
    | cons d ds =>
      rw [List.map_cons, List.map_cons, zipCases, zipCases, ih]
      have hparams := zipExact_bare c.params d.params
      show (if c.label = d.label then _ else _) = _
      split_ifs
      · rw [show c.bare.params = c.params.map Ty.bare from rfl,
          show d.bare.params = d.params.map Ty.bare from rfl, hparams]
        cases zipExact c.params d.params with
        | none => rfl
        | some pairs => cases zipCases cs ds <;> simp
      · rfl

namespace Setting

variable {s : Setting}

/-- What a match gives, with all attributes of the bound types erased. -/
def bareMatch (r : Outcome Bool × Bindings) : Outcome Bool × Bindings :=
  (r.1, r.2.bare)

theorem addMapping_bare (hs : Respectful s.implements) (key : String) (ty : Ty) (σ : Bindings) :
    s.bare.addMapping key ty.bare σ.bare = bareMatch (s.addMapping key ty σ) := by
  rw [addMapping, addMapping, show σ.bare.mappings.get? key = (σ.mappings.get? key).map Ty.bare from
    Table.get?_map _ _ key]
  cases σ.mappings.get? key with
  | none => exact congrArg (Outcome.ok true, ·) (σ.bind_bare key ty)
  | some existing =>
    simp only [Option.map_some, unify_bare hs]
    have horElse (x y : Outcome Ty) : ((Ty.bare <$> x).orElse fun _ => Ty.bare <$> y)
        = Ty.bare <$> (x.orElse fun _ => y) := by
      cases x <;> rfl
    rw [horElse]
    cases (s.unify existing ty).orElse fun _ => s.unify ty existing with
    | ok unified => exact congrArg (Outcome.ok true, ·) (σ.bind_bare key unified)
    | _ => rfl

/-! ## Matching -/

theorem appliesTrait_bare (trait : Trait) (actual : Ty) :
    s.bare.appliesTrait trait.bare actual.bare = s.appliesTrait trait actual := by
  cases actual with
  | parametric head params attributes =>
    rw [Ty.bare_parametric, appliesTrait, appliesTrait, bare, Registry.family_bare,
      TraitOf.name_bare]
  | _ => rfl

theorem argumentPairs_bare (pattern actual : Ty) :
    s.bare.argumentPairs pattern.bare actual.bare
      = Option.map (List.map (Prod.map Ty.bare Ty.bare)) <$> s.argumentPairs pattern actual := by
  cases pattern with
  | function left scope attributes =>
    cases actual with
    | function right scope' attributes' =>
      rw [Ty.bare_function, Ty.bare_function]
      exact congrArg Outcome.ok (zipExact_bare left right)
    | _ => rfl
  | tuple left attributes =>
    cases actual with
    | tuple right attributes' =>
      rw [Ty.bare_tuple, Ty.bare_tuple]
      exact congrArg Outcome.ok (zipExact_bare left right)
    | _ => rfl
  | intersection left attributes =>
    cases actual with
    | intersection right attributes' =>
      rw [Ty.bare_intersection, Ty.bare_intersection]
      exact congrArg Outcome.ok (zipExact_bare left right)
    | _ => rfl
  | union left attributes =>
    cases actual with
    | union right attributes' =>
      rw [Ty.bare_union, Ty.bare_union]
      exact congrArg Outcome.ok (zipCases_bare left right)
    | _ => rfl
  | parametric head left attributes =>
    cases actual with
    | parametric head' right attributes' =>
      rw [Ty.bare_parametric, Ty.bare_parametric, argumentPairs, argumentPairs, bare,
        Registry.family_bare, Registry.family_bare, zipExact_bare]
      cases s.types.family head with
      | ok family =>
        cases s.types.family head' with
        | ok family' =>
          simp only [Outcome.ok_bind, Outcome.pure_eq, Outcome.map_ok]
          split_ifs <;> rfl
        | _ => rfl
      | _ => rfl
    | _ => rfl
  | _ => cases actual <;> rfl

/-- The plan with all attributes erased. -/
def Plan.bare : Plan → Plan
  | .skip => .skip
  | .witness trait actual => .witness trait.bare actual.bare
  | .pairs ps => .pairs (ps.map (Prod.map Ty.bare Ty.bare))

theorem plan_bare (hs : Respectful s.implements) (pattern ty : Ty) :
    s.bare.plan pattern.bare ty.bare = Plan.bare <$> s.plan pattern ty := by
  have hstructure (actual : Ty) : plan.byStructure s.bare pattern.bare ty.bare actual.bare
      = Plan.bare <$> plan.byStructure s pattern ty actual := by
    rw [plan.byStructure, plan.byStructure, argumentPairs_bare]
    refine Outcome.map_bind_map fun pairs? _ => ?_
    cases pairs? with
    | none => exact clash_bare _ pattern ty
    | some pairs => rfl
  refine resolve_bind_bare ty fun resolved _ => ?_
  simp only [Ty.inner_bare, Ty.isParameter_bare]
  refine bare_ite rfl ?_
  rw [boundTrait_bare]
  refine Outcome.map_bind_map fun trait? _ => ?_
  cases trait? with
  | none => exact hstructure resolved.inner
  | some trait =>
    simp only [Option.map_some]
    rw [appliesTrait_bare]
    cases s.appliesTrait trait resolved.inner with
    | ok applies =>
      refine bare_ite (hstructure resolved.inner) ?_
      rw [bare, hs.bare]
      exact bare_ite rfl (clash_bare _ pattern ty)
    | _ => rfl

variable {go go' : Ty → Ty → Bindings → Outcome Bool × Bindings}

theorem extractPairs_bare
    (hgo : ∀ pattern ty σ, go' pattern.bare ty.bare σ.bare = bareMatch (go pattern ty σ))
    (pairs : List (Ty × Ty)) (σ : Bindings) :
    extractPairs go' (pairs.map (Prod.map Ty.bare Ty.bare)) σ.bare
      = bareMatch (extractPairs go pairs σ) := by
  induction pairs generalizing σ with
  | nil => rfl
  | cons p pairs ih =>
    obtain ⟨pattern, ty⟩ := p
    rw [List.map_cons, Prod.map_apply, extractPairs, extractPairs, hgo]
    rcases go pattern ty σ with ⟨result, τ⟩
    cases result with
    | ok matched => exact ih τ
    | _ => rfl

theorem extractCompound_bare (hs : Respectful s.implements)
    (hgo : ∀ pattern ty σ, go' pattern.bare ty.bare σ.bare = bareMatch (go pattern ty σ))
    (pattern ty : Ty) (σ : Bindings) :
    s.bare.extractCompound go' pattern.bare ty.bare σ.bare
      = bareMatch (s.extractCompound go pattern ty σ) := by
  rw [extractCompound, extractCompound, plan_bare hs]
  cases s.plan pattern ty with
  | ok plan =>
    cases plan with
    | skip => rfl
    | witness trait actual =>
      simp only [Outcome.map_ok, Plan.bare, Ty.representation_bare, ← Ty.bare_impl]
      exact addMapping_bare hs _ _ σ
    | pairs pairs => exact extractPairs_bare hgo pairs σ
  | _ => rfl

theorem bareMatch_ite {c c' : Bool} {x y x' y' : Outcome Bool × Bindings} (hc : c' = c)
    (hx : x' = bareMatch x) (hy : y' = bareMatch y) :
    (if c' then x' else y') = bareMatch (if c then x else y) := by
  subst hc
  split_ifs
  · exact hx
  · exact hy

theorem clash_bareMatch (pattern ty : Ty) (σ : Bindings) :
    (s.bare.clash pattern.bare ty.bare, σ.bare) = bareMatch (s.clash pattern ty, σ) :=
  congrArg (·, σ.bare) ((clash_bare id pattern ty).trans (id_map _))

theorem extractImpl_bare (hs : Respectful s.implements) (trait : Trait) (pattern ty : Ty)
    (σ : Bindings) :
    s.bare.extractImpl trait.bare pattern.bare ty.bare σ.bare
      = bareMatch (s.extractImpl trait pattern ty σ) := by
  rw [extractImpl, extractImpl, bare, Registry.resolve_bare]
  cases s.types.resolve ty with
  | error e => rfl
  | ok resolved =>
    dsimp only [Functor.map, Except.map]
    rw [Ty.inner_bare, TraitOf.mappingKey_bare]
    generalize resolved.inner = inner
    have hwitness := bareMatch_ite (hs.bare trait inner)
      (addMapping_bare hs trait.mappingKey (.impl trait inner) σ)
      (clash_bareMatch (s := s) pattern ty σ)
    rw [Ty.bare_impl] at hwitness
    cases inner with
    | fixedTrait fixed =>
      have hproven := hs.bare trait (.trait fixed)
      rw [Ty.bare_trait] at hproven
      rw [Ty.bare_fixedTrait] at hwitness ⊢
      exact bareMatch_ite hproven (addMapping_bare hs _ _ σ) hwitness
    | _ => exact hwitness

theorem extractFixedTrait_bare (hs : Respectful s.implements) (fixed : Trait) (pattern ty : Ty)
    (σ : Bindings) :
    s.bare.extractFixedTrait fixed.bare pattern.bare ty.bare σ.bare
      = bareMatch (s.extractFixedTrait fixed pattern ty σ) := by
  rw [extractFixedTrait, extractFixedTrait, bare, Registry.resolve_bare]
  cases s.types.resolve ty with
  | error e => rfl
  | ok resolved =>
    dsimp only [Functor.map, Except.map]
    rw [Ty.inner_bare, TraitOf.mappingKey_bare]
    exact bareMatch_ite (hs.bare _ _) (addMapping_bare hs _ _ σ) (clash_bareMatch _ _ σ)

theorem extractWithin_of_resolve {pattern t : Ty} {name : String}
    (hname : pattern.lookup? = some name) (h : s.types.resolve pattern = .ok t) {n : Nat} {ty : Ty}
    {σ : Bindings} : s.extractWithin (n + 1) pattern ty σ = s.extractWithin n t ty σ := by
  cases pattern with
  | reference | typeAlias | constructor => simp only [extractWithin, h]
  | _ => cases hname

theorem extractWithin_of_error {pattern : Ty} {e : TypeError} {name : String}
    (hname : pattern.lookup? = some name) (h : s.types.resolve pattern = .error e) {n : Nat}
    {ty : Ty} {σ : Bindings} : s.extractWithin (n + 1) pattern ty σ = (.error e, σ) := by
  cases pattern with
  | reference | typeAlias | constructor => simp only [extractWithin, h]
  | _ => cases hname

/-- **Matching does not see attributes.** -/
theorem extractWithin_bare (hs : Respectful s.implements) (n : Nat) (pattern ty : Ty)
    (σ : Bindings) :
    s.bare.extractWithin n pattern.bare ty.bare σ.bare
      = bareMatch (s.extractWithin n pattern ty σ) := by
  induction n generalizing pattern ty σ with
  | zero => rfl
  | succ n ih =>
    have hname {name : String} (hname : pattern.lookup? = some name)
        (hbare : pattern.bare.lookup? = some name) :
        s.bare.extractWithin (n + 1) pattern.bare ty.bare σ.bare
          = bareMatch (s.extractWithin (n + 1) pattern ty σ) := by
      have hresolve := s.types.resolve_bare pattern
      cases hr : s.types.resolve pattern with
      | ok t =>
        rw [hr] at hresolve
        rw [extractWithin_of_resolve hname hr, extractWithin_of_resolve hbare hresolve]
        exact ih t ty σ
      | error e =>
        rw [hr] at hresolve
        rw [extractWithin_of_error hname hr, extractWithin_of_error hbare hresolve]
        rfl
    cases pattern with
    | parameter name origin => exact addMapping_bare hs name ty σ
    | reference | typeAlias | constructor => exact hname rfl rfl
    | labeled label inner => exact ih inner ty σ
    | annotated directives inner => exact ih inner ty σ
    | parametric | function | tuple | union | intersection =>
      exact extractCompound_bare hs ih _ ty σ
    | impl trait implementation =>
      have h := extractImpl_bare hs trait (.impl trait implementation) ty σ
      rw [Ty.bare_impl] at h ⊢
      exact h
    | fixedTrait fixed =>
      have h := extractFixedTrait_bare hs fixed (.fixedTrait fixed) ty σ
      rw [Ty.bare_fixedTrait] at h ⊢
      exact h
    | _ => rfl

theorem extract_bare (hs : Respectful s.implements) (pattern ty : Ty) (σ : Bindings) :
    s.bare.extract pattern.bare ty.bare σ.bare = bareMatch (s.extract pattern ty σ) := by
  rw [extract, extract, bare, Registry.pairFuel_bare]
  exact extractWithin_bare hs _ pattern ty σ

/-! ## Substituting -/

theorem witness?_bare (σ : Bindings) (context ty : Ty) :
    s.bare.witness? σ.bare context.bare ty.bare
      = Option.map Ty.bare <$> s.witness? σ context ty := by
  rw [witness?, witness?, boundTrait_bare]
  refine Outcome.map_bind_map fun trait? _ => ?_
  cases trait? with
  | none => rfl
  | some trait =>
    simp only [Option.map_some, Ty.representation_bare, bare]
    rw [σ.get_bare]
    cases σ.get s.location ty.representation context <;> rfl

/-- **Substituting does not see attributes.** -/
theorem substituteWithin_bare (σ : Bindings) (context : Ty) (n : Nat) (ty : Ty) :
    s.bare.substituteWithin σ.bare context.bare n ty.bare
      = Ty.bare <$> s.substituteWithin σ context n ty := by
  induction n generalizing ty with
  | zero => rfl
  | succ n ih =>
    have hall (ts : List Ty) :
        (ts.map Ty.bare).mapM (s.bare.substituteWithin σ.bare context.bare n)
          = List.map Ty.bare <$> ts.mapM (s.substituteWithin σ context n) :=
      Outcome.mapM_map fun t _ => ih t
    have hget (key : String) : (liftM (σ.bare.get s.bare.location key context.bare) : Outcome Ty)
        = Ty.bare <$> liftM (σ.get s.location key context) := by
      rw [σ.get_bare, Outcome.liftM_map]
      rfl
    have hname : (liftM (s.bare.types.resolve ty.bare) >>= fun t =>
          s.bare.substituteWithin σ.bare context.bare n t)
        = Ty.bare <$> (liftM (s.types.resolve ty) >>= fun t => s.substituteWithin σ context n t) :=
      resolve_bind_bare ty fun t _ => ih t
    cases ty with
    | parameter name origin => exact hget name
    | reference | typeAlias | constructor => exact hname
    | labeled label inner =>
      rw [Ty.bare_labeled, substituteWithin, substituteWithin, ih]
      exact Outcome.map_bind_map fun u _ => rfl
    | annotated directives inner =>
      rw [Ty.bare_annotated, substituteWithin, substituteWithin, ih]
      exact Outcome.map_bind_map fun u _ => rfl
    | parametric head params attributes =>
      have hwitness := witness?_bare (s := s) σ context (.parametric head params attributes)
      rw [Ty.bare_parametric] at hwitness ⊢
      rw [substituteWithin, substituteWithin, hwitness, hall]
      refine Outcome.map_bind_map fun found? _ => ?_
      cases found? with
      | some found => rfl
      | none => exact Outcome.map_bind_map fun us _ => by simp
    | function arguments scope attributes =>
      rw [Ty.bare_function, substituteWithin, substituteWithin, hall]
      exact Outcome.map_bind_map fun us _ => by simp
    | tuple elements attributes =>
      rw [Ty.bare_tuple, substituteWithin, substituteWithin, hall]
      exact Outcome.map_bind_map fun us _ => by simp
    | intersection params attributes =>
      rw [Ty.bare_intersection, substituteWithin, substituteWithin, hall]
      exact Outcome.map_bind_map fun us _ => by simp
    | union cases attributes =>
      rw [Ty.bare_union, substituteWithin, substituteWithin, Outcome.mapM_map (k := CaseOf.bare)]
      · exact Outcome.map_bind_map fun ds _ => by simp
      · intro c _
        exact Eq.trans (congrArg (· >>= _) (hall c.params)) (Outcome.map_bind_map fun us _ => rfl)
    | impl trait implementation =>
      rw [Ty.bare_impl, substituteWithin, substituteWithin, TraitOf.mappingKey_bare]
      exact hget trait.mappingKey
    | _ => simp [substituteWithin]

theorem substitute_bare (σ : Bindings) (ty context : Ty) :
    s.bare.substitute σ.bare ty.bare context.bare = Ty.bare <$> s.substitute σ ty context := by
  rw [substitute, substitute, bare, Registry.descentFuel_bare]
  exact substituteWithin_bare σ context _ ty

end Setting

/-! ## Runs -/

/-- The call with all attributes of its types erased. -/
def BindingCall.bare : BindingCall → BindingCall
  | .extract location pattern ty => .extract location pattern.bare ty.bare
  | .addMapping location key ty => .addMapping location key ty.bare
  | .get location key context => .get location key context.bare
  | .substitute location ty context => .substitute location ty.bare context.bare

/-- The answer with all attributes of its type erased. -/
def BindingAnswer.bare : BindingAnswer → BindingAnswer
  | .matched result => .matched result
  | .type result => .type (Ty.bare <$> result)

theorem BindingCall.run_bare {types : Registry} {implements : Checker} (hc : Respectful implements)
    (σ : Bindings) (call : BindingCall) :
    call.bare.run types.bare implements σ.bare
      = ((call.run types implements σ).1.bare, (call.run types implements σ).2.bare) := by
  cases call with
  | extract location pattern ty =>
    have h := Setting.extract_bare (s := ⟨types, implements, location⟩) hc pattern ty σ
    exact congrArg (fun r => (BindingAnswer.matched r.1, r.2)) h
  | addMapping location key ty =>
    have h := Setting.addMapping_bare (s := ⟨types, implements, location⟩) hc key ty σ
    exact congrArg (fun r => (BindingAnswer.matched r.1, r.2)) h
  | get location key context =>
    refine congrArg (fun r => (BindingAnswer.type r, σ.bare)) ?_
    rw [σ.get_bare]
    exact Outcome.liftM_map Ty.bare (σ.get location key context)
  | substitute location ty context =>
    exact congrArg (fun r => (BindingAnswer.type r, σ.bare))
      (Setting.substitute_bare (s := ⟨types, implements, location⟩) σ ty context)

/-- **No run of calls sees attributes.** -/
theorem runBindings_bare {types : Registry} {implements : Checker} (hc : Respectful implements)
    (σ : Bindings) (calls : List BindingCall) :
    runBindings types.bare implements σ.bare (calls.map BindingCall.bare)
      = (runBindings types implements σ calls).map fun r => (r.1.bare, r.2.bare) := by
  induction calls generalizing σ with
  | nil => rfl
  | cons call calls ih =>
    rw [List.map_cons, runBindings, runBindings, call.run_bare hc, List.map_cons]
    exact congrArg (_ :: ·) (ih _)

/-! ## Two runs -/

/-- **Attributes never influence typing.** Of two registries, two types and two lists of calls that
differ in attributes only, every engine makes the same: it finds, resolves, solves, unifies, binds,
matches and substitutes to types that differ in attributes only, or it fails with the same error.
After every call the bindings hold, under the same keys, types that differ in attributes only, and
the same remembered errors. -/
theorem attributes_unobservable {R S : Registry} (hRS : R.bare = S.bare) {implements : Checker}
    (hc : Respectful implements) :
    (∀ name : String, Ty.bare <$> R.get name = Ty.bare <$> S.get name) ∧
    (∀ ty ty' : Ty, ty.same ty' = true →
      Ty.bare <$> R.resolve ty = Ty.bare <$> S.resolve ty' ∧
      Ty.bare <$> R.solve ty = Ty.bare <$> S.solve ty') ∧
    (∀ (location : Location) (a a' b b' : Ty), a.same a' = true → b.same b' = true →
      Ty.bare <$> R.unify location a b implements
        = Ty.bare <$> S.unify location a' b' implements) ∧
    (∀ (σ σ' : Bindings) (calls calls' : List BindingCall), σ.bare = σ'.bare →
      calls.map BindingCall.bare = calls'.map BindingCall.bare →
      (runBindings R implements σ calls).map (fun r => (r.1.bare, r.2.bare))
        = (runBindings S implements σ' calls').map fun r => (r.1.bare, r.2.bare)) := by
  refine ⟨fun name => ?_, fun ty ty' hty => ?_, fun location a a' b b' ha hb => ?_,
    fun σ σ' calls calls' hσ hcalls => ?_⟩
  · rw [← R.get_bare, ← S.get_bare]
    exact congrArg (·.get name) (congrArg Registry.toCatalog hRS)
  · rw [← R.resolve_bare, ← S.resolve_bare, ← R.solve_bare, ← S.solve_bare, hRS, Ty.same_iff.1 hty]
    exact ⟨rfl, rfl⟩
  · have hR := Setting.unify_bare (s := ⟨R, implements, location⟩) hc a b
    have hS := Setting.unify_bare (s := ⟨S, implements, location⟩) hc a' b'
    rw [Setting.bare, hRS, Ty.same_iff.1 ha, Ty.same_iff.1 hb] at hR
    exact hR.symm.trans hS
  · rw [← runBindings_bare hc, ← runBindings_bare hc, hRS, hσ, hcalls]

/-- Shapes with an area and boxes of them. Everything carries the same attributes. -/
def gallery (badge : Attributes) : Registry :=
  .make none
    [("Int", .concrete "Int" badge), ("Square", .typeAlias "Int" badge),
      ("Shape", .trait ⟨"Shape", "a",
        [⟨"Shape", "area", [.parameter "a" .written, .reference "Int"], false, badge⟩], badge⟩),
      ("Box", .parametric (.concrete "Box" badge) [.parameter "a" .written] badge)] []

/-- A box of the gallery. -/
def galleryBox (badge : Attributes) (content : Ty) : Ty :=
  .parametric (.reference "Box") [content] badge

/-- Open a box, bind its content once more, use the binding, and let it clash. -/
def galleryCalls (badge : Attributes) : List BindingCall :=
  [.extract default (galleryBox badge (.parameter "a" .written))
      (galleryBox badge (.typeAlias "Square" badge)),
    .addMapping default "a" (.concrete "Int" badge),
    .substitute default (.tuple [.parameter "a" .written] badge) (.reference "Box"),
    .addMapping default "a" (galleryBox badge (.reference "Int")),
    .get default "a" (.reference "Box")]

/-- Whole numbers have an area. -/
def hasArea : Checker := fun trait ty =>
  trait.name == "Shape" && ty.same (.concrete "Int" ∅)

theorem hasArea_respectful : Respectful hasArea := by
  intro t t' ty ty' ht hty
  have hname : t.name = t'.name := by
    rw [← Ty.same_trait, Ty.same_iff, Ty.bare_trait, Ty.bare_trait] at ht
    injection ht with ht
    exact congrArg (·.name) ht
  rw [hasArea, hasArea, hname, Ty.same_eq_decide, Ty.same_eq_decide, Ty.same_iff.1 hty]

/-- A gallery of native, impure types and a plain one behave alike. -/
theorem attributes_unobservable_gallery :
    let badge : Attributes := .ofList [.impure, .native]
    (gallery badge).bare = (gallery ∅).bare ∧ Respectful hasArea ∧
      Ty.bare <$> (gallery badge).unify default (galleryBox badge (.typeAlias "Square" badge))
          (galleryBox ∅ (.reference "Int")) hasArea
        = Ty.bare <$> (gallery ∅).unify default (galleryBox ∅ (.typeAlias "Square" ∅))
          (galleryBox badge (.reference "Int")) hasArea ∧
      (runBindings (gallery badge) hasArea ∅ (galleryCalls badge)).map
          (fun r => (r.1.bare, r.2.bare))
        = (runBindings (gallery ∅) hasArea ∅ (galleryCalls ∅)).map
          fun r => (r.1.bare, r.2.bare) := by
  intro badge
  have hbare : (gallery badge).bare = (gallery ∅).bare := Registry.ext rfl
  obtain ⟨-, -, hunify, hruns⟩ := attributes_unobservable hbare hasArea_respectful
  refine ⟨hbare, hasArea_respectful, hunify default _ _ _ _ ?_ ?_, hruns ∅ ∅ _ _ rfl rfl⟩
  · rw [Ty.same_iff]
    rfl
  · rw [Ty.same_iff]
    rfl

end TypeEngine

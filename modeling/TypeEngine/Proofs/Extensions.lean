import TypeEngine.Proofs.Grounding

/-!
# Extending a registry

A registry that is built above another one declares no name that was visible before. So it
`Extends` the other one: it sees the same entries under the names that the other one sees, and new
ones under other names. Whatever resolves or can be solved in the registry below has the same result
above (`Registry.solve_of_extends`).

Unification is not as simple, since it takes failures for answers. Where a value of an implemented
trait is expected and the implementation does not fit, the checker decides; with more names the
implementation may fit after all, and the result is another one. But what is compatible stays
compatible as far as unification ends (`Setting.Widens.spares`): with more names and more traits,
unification of a compatible pair does not fail. It can only go on forever, and for types that do not
refer to themselves it does not. This covers registries that extend another one, and in one registry
checkers that know more traits (`unify_monotone_in_checker`).

What a type refers to is what its names stand for in the registry at hand, also the names in a type
of a module, which solving reads in the module. So a type that has an end in its module, and can be
solved everywhere, may refer to itself in a registry that declares one of these names anew
(`maze_loop`). There unification goes on forever where it did not before.
-/

namespace TypeEngine

/-! ## More names -/

namespace Catalog

/-- `D` sees all names that `C` sees, each as `C` does. -/
def Extends (D C : Catalog) : Prop :=
  ∀ (name : String) (found : Catalog × Ty), C.find? name = some found → D.find? name = some found

variable {C D O : Catalog} {chain : List String} {ty t : Ty}

theorem Extends.walk (h : D.Extends C) (hwalk : C.Walk chain ty O t) :
    ∃ O', D.Walk chain ty O' t := by
  induction hwalk with
  | stop hty => exact ⟨D, .stop hty⟩
  | reference hnew hf hrest => exact ⟨_, .reference hnew (h _ _ hf) hrest⟩
  | typeAlias _ ih =>
    obtain ⟨O', hwalk⟩ := ih h
    exact ⟨O', .typeAlias hwalk⟩
  | labeled _ ih =>
    obtain ⟨O', hwalk⟩ := ih h
    exact ⟨O', .labeled hwalk⟩
  | constructor hf => exact ⟨_, .constructor (h _ _ hf)⟩

/-- A name is opened to the same type in the same catalog. -/
theorem Extends.resolveWithin (h : D.Extends C) {name : String} (hname : ty.target? = some name)
    {j k : Nat} (hjk : j ≤ k) {r : Catalog × Ty} (hr : C.resolveWithin j chain ty = .ok r) :
    D.resolveWithin k chain ty = .ok r := by
  refine resolveWithin_mono hjk ?_
  cases j with
  | zero => cases hr
  | succ j =>
    have hreference {r : Catalog × Ty}
        (hr : C.resolveWithin (j + 1) chain (.reference name) = .ok r) :
        D.resolveWithin (j + 1) chain (.reference name) = .ok r := by
      rw [resolveWithin_reference] at hr ⊢
      split_ifs at hr ⊢
      cases hf : C.find? name with
      | none =>
        rw [hf] at hr
        cases hr
      | some found =>
        rw [hf] at hr
        rw [h _ _ hf]
        exact hr
    obtain rfl | ⟨attributes, rfl⟩ := Ty.eq_of_target hname
    · exact hreference hr
    · rw [resolveWithin_typeAlias] at hr ⊢
      cases hq : C.resolveWithin (j + 1) chain (.reference name) with
      | error e =>
        rw [hq] at hr
        cases hr
      | ok q => rwa [hreference hq, ← hq]

end Catalog

/-- A place of solving in a catalog with more names. -/
structure Expansion.Extends (s' s : Expansion) : Prop where
  catalog : s'.catalog.Extends s.catalog
  walk : s.walk ≤ s'.walk
  expanding : s'.expanding = s.expanding
  inUnion : s'.inUnion = s.inUnion

theorem Expansion.Extends.simulation : Simulation false fun s s' _ => s'.Extends s where
  part h _ := h
  case h _ _ := ⟨h.catalog, h.walk, h.expanding, rfl⟩
  head h _ := h
  keepsName {s s' ty name} h hname := by
    have hkeeps {kept : Bool} (hk : s.keepsName ty = .ok kept) : s'.keepsName ty = .ok kept := by
      rw [Expansion.keepsName] at hk ⊢
      rw [h.inUnion]
      split_ifs at hk ⊢
      · obtain ⟨r, hr, hk⟩ := except_bind_eq_ok.1 hk
        rw [h.catalog.resolveWithin hname h.walk hr]
        exact hk
      · exact hk
    cases hk : s.keepsName ty with
    | ok kept =>
      rw [hkeeps hk]
      exact .refl _
    | error e => exact fun herrors => (by cases herrors)
  expand {s s' t ty u name} h hname hexpand := by
    rw [Expansion.expand_eq] at hexpand ⊢
    rw [h.expanding, h.inUnion]
    split_ifs at hexpand ⊢
    cases hr : s.catalog.resolveWithin s.walk [] ty with
    | error e =>
      rw [hr] at hexpand
      cases hexpand
    | ok r =>
      rw [hr] at hexpand
      cases hexpand
      rw [h.catalog.resolveWithin hname h.walk hr]
      -- The type is solved in the catalog that declares it, which is the same one.
      exact ⟨_, rfl, fun _ _ hf => hf, h.walk, rfl, rfl⟩
  expand_error _ _ _ herrors := by cases herrors

namespace Registry

variable {R S : Registry}

theorem get?_of_extends (h : S.toCatalog.Extends R.toCatalog) {name : String} {ty : Ty}
    (hty : R.get? name = some ty) : S.get? name = some ty := by
  obtain ⟨found, hf, rfl⟩ := Option.map_eq_some_iff.1 hty
  rw [Catalog.get?, h _ _ hf, Option.map_some]

theorem get_of_extends (h : S.toCatalog.Extends R.toCatalog) {name : String} {ty : Ty}
    (hty : R.get name = .ok ty) : S.get name = .ok ty := by
  rw [Catalog.get] at hty ⊢
  cases hg : R.get? name with
  | none =>
    rw [hg] at hty
    cases hty
  | some found =>
    rw [hg] at hty
    rw [get?_of_extends h hg]
    exact hty

theorem resolve_of_extends (h : S.toCatalog.Extends R.toCatalog) {ty t : Ty}
    (ht : R.resolve ty = .ok t) : S.resolve ty = .ok t := by
  obtain ⟨O, hwalk⟩ := resolve_eq_ok_iff.1 ht
  exact resolve_eq_ok_iff.2 (h.walk hwalk)

/-- **What can be solved has the same solution** with more names. -/
theorem solve_of_extends (h : S.toCatalog.Extends R.toCatalog) (hweight : R.weight ≤ S.weight)
    {ty U : Ty} (hU : R.solve ty = .ok U) : S.solve ty = .ok U := by
  have hplace : Expansion.Extends ⟨S.toCatalog, S.walkFuel ty, [], false⟩
      ⟨R.toCatalog, R.walkFuel ty, [], false⟩ := ⟨h, walkFuel_le hweight rfl, rfl, rfl⟩
  exact ((Expansion.Extends.simulation.le _).1 (descentFuel_le hweight ty) hplace).eq_ok hU

end Registry

/-! ## More names and more traits -/

namespace Outcome

variable {α β γ : Type}

/-- Where the first outcome is a value, the second is no error: it is a value, perhaps another one,
or it lacks fuel. -/
def Spares (x : Outcome α) (y : Outcome β) : Prop :=
  ∀ a, x = .ok a → ∀ e, y ≠ .error e

theorem spares_ok (x : Outcome α) (b : β) : x.Spares (.ok b) := by
  intro a _ e he
  cases he

theorem error_spares (e : TypeError) (y : Outcome β) : (Outcome.error e : Outcome α).Spares y := by
  intro a ha
  cases ha

theorem Spares.bind {x y : Outcome α} {f g : α → Outcome β} (hxy : ∀ a, x = .ok a → y = .ok a)
    (h : ∀ a, x = .ok a → (f a).Spares (g a)) : (x >>= f).Spares (y >>= g) := by
  intro b hb
  obtain ⟨a, ha, hb⟩ := bind_eq_ok.1 hb
  rw [hxy a ha]
  exact h a ha b hb

theorem Spares.bind_ok {x y : Outcome α} {f : α → Outcome β} (h : x.Spares y) (g : α → γ) :
    (x >>= f).Spares (y >>= fun b => .ok (g b)) := by
  intro b hb e he
  obtain ⟨a, ha, -⟩ := bind_eq_ok.1 hb
  cases y with
  | ok b => cases he
  | error e' => exact h a ha e' rfl
  | outOfFuel => cases he

theorem Spares.ite {p q : Prop} [Decidable p] [Decidable q] {x y x' y' : Outcome α} (hpq : p → q)
    (hx : ∀ e, x' ≠ .error e) (hy : y.Spares y') :
    (if p then x else y).Spares (if q then x' else y') := by
  intro a ha
  by_cases hq : q
  · rw [if_pos hq]
    exact hx
  · rw [if_neg fun hp => hq (hpq hp)] at ha
    rw [if_neg hq]
    exact hy a ha

theorem Spares.orElse {x y z w : Outcome α} (h : x.Spares y) (hzw : z.Spares w) :
    (x.orElse fun _ => z).Spares (y.orElse fun _ => w) := by
  intro a ha e he
  cases y with
  | ok b => cases he
  | outOfFuel => cases he
  | error e' =>
    -- There was an error before as well, so the second choice was taken.
    cases x with
    | ok b => exact h b rfl e' rfl
    | error _ => exact hzw a ha e he
    | outOfFuel => cases ha

theorem Spares.mapError {x y : Outcome α} (h : x.Spares y) (f g : TypeError → TypeError) :
    (x.mapError f).Spares (y.mapError g) := by
  intro a ha e he
  cases x with
  | ok b =>
    cases y with
    | error e' => exact h b rfl e' rfl
    | _ => cases he
  | _ => cases ha

theorem Spares.mapM {f g : α → Outcome β} {l : List α} (h : ∀ a ∈ l, (f a).Spares (g a)) :
    (l.mapM f).Spares (l.mapM g) := by
  intro bs hbs e he
  have hfail : (l.mapM g).failure? = some (some e) := by rw [he]; rfl
  obtain ⟨a, ha, hfail⟩ := exists_of_failure?_mapM hfail
  have hfa := failure?_mapM_eq_none (failure?_eq_none.2 ⟨bs, hbs⟩) a ha
  obtain ⟨b, hb⟩ := failure?_eq_none.1 hfa
  cases hg : g a with
  | error e' => exact h a ha b hb e' hg
  | _ =>
    rw [hg] at hfail
    cases hfail

end Outcome

namespace Setting

/-- What has a result in `s` has the same result in `s'`, and so have types their traits. -/
structure Widens (s s' : Setting) : Prop where
  resolve : ∀ {ty t : Ty}, s.types.resolve ty = .ok t → s'.types.resolve ty = .ok t
  solve : ∀ {ty U : Ty}, s.types.solve ty = .ok U → s'.types.solve ty = .ok U
  get? : ∀ {name : String} {ty : Ty}, s.types.get? name = some ty → s'.types.get? name = some ty
  implements : ∀ {trait : Trait} {ty : Ty}, s.implements trait ty = true →
    s'.implements trait ty = true

variable {s s' : Setting} {go go' : Ty → Ty → Outcome Ty}

theorem unifyAll_spares (hgo : ∀ a b, (go a b).Spares (go' a b)) (a b : Ty)
    (left right : List Ty) :
    (s.unifyAll go a b left right).Spares (s'.unifyAll go' a b left right) := by
  unfold unifyAll
  split_ifs
  · exact .mapM fun p _ => (hgo p.1 p.2).mapError _ _
  · exact Outcome.error_spares _ _

namespace Widens

theorem resolve_bind (h : s.Widens s') (b : Ty) {f f' : Ty → Outcome Ty}
    (hf : ∀ t, s.types.resolve b = .ok t → (f t).Spares (f' t)) :
    (liftM (s.types.resolve b) >>= f).Spares (liftM (s'.types.resolve b) >>= f') := by
  refine .bind (fun t ht => ?_) fun t ht => hf t (Outcome.liftM_eq_ok.1 ht)
  rw [h.resolve (Outcome.liftM_eq_ok.1 ht)]
  rfl

theorem solvedHead (h : s.Widens s') {head H : Ty} (hH : s.types.solvedHead head = .ok H) :
    s'.types.solvedHead head = .ok H := by
  rw [Registry.solvedHead] at hH ⊢
  obtain ⟨U, hU, hH⟩ := Outcome.bind_eq_ok.1 hH
  rw [h.solve hU]
  exact hH

theorem family (h : s.Widens s') {head : Ty} {name : String}
    (hname : s.types.family head = .ok name) : s'.types.family head = .ok name := by
  rw [Registry.family] at hname ⊢
  obtain ⟨H, hH, hname⟩ := Outcome.bind_eq_ok.1 hname
  rw [h.solvedHead hH]
  exact hname

theorem boundTrait (h : s.Widens s') {a : Ty} {trait? : Option Trait}
    (ha : s.boundTrait a = .ok trait?) : s'.boundTrait a = .ok trait? := by
  cases a with
  | parametric head params attributes =>
    rw [Setting.boundTrait] at ha ⊢
    obtain ⟨H, hH, ha⟩ := Outcome.bind_eq_ok.1 ha
    rw [h.solvedHead hH]
    exact ha
  | _ => exact ha

theorem hasTraitNamed (h : s.Widens s') {right param : Ty}
    (hparam : s.hasTraitNamed right param = true) : s'.hasTraitNamed right param = true := by
  cases param with
  | reference name =>
    rw [Setting.hasTraitNamed] at hparam ⊢
    cases hty : s.types.get? name with
    | none =>
      rw [hty] at hparam
      cases hparam
    | some ty =>
      rw [hty] at hparam
      rw [h.get? hty]
      simp only [Option.map_some] at hparam ⊢
      split at hparam
      · exact h.implements hparam
      · cases hparam
  | _ => cases hparam

/-- The steps of a rule spare one another, if its calls do. -/
theorem spares_of_paired (h : s.Widens s') (hgo : ∀ a b, (go a b).Spares (go' a b)) {a b : Ty}
    {x y : Outcome Ty} (hxy : Paired s s' id id go go' a b b x y) : x.Spares y := by
  induction hxy with
  | answer => exact Outcome.spares_ok _ _
  | clash => exact Outcome.error_spares _ _
  | expected _ ih => exact h.resolve_bind a ih
  | actual _ ih => exact h.resolve_bind b ih
  | bound _ ih =>
    refine .bind (fun _ => h.boundTrait) fun trait? _ => ?_
    have hspares := ih trait?
    rwa [Option.map_id] at hspares
  | family _ _ ih => exact .bind (fun _ => h.family) fun name _ => ih name
  | ask => exact .ite h.implements (by simp) (Outcome.error_spares _ _)
  | traits ty =>
    refine .ite (fun hall => ?_) (by simp) (Outcome.error_spares _ _)
    rw [List.map_id]
    exact List.all_eq_true.2 fun param hparam =>
      h.hasTraitNamed (List.all_eq_true.1 hall param hparam)
  | components =>
    rw [List.map_id, List.map_id]
    exact (unifyAll_spares hgo a b _ _).bind_ok _
  | through => exact hgo _ _
  | methods => exact hgo _ _
  | represented => exact (hgo _ _).bind_ok _
  | attempt _ _ _ ih => exact ((hgo _ _).bind_ok _).orElse ih

/-- **What is compatible stays compatible:** with more names and more traits, unification of a
compatible pair does not fail. -/
theorem spares (h : s.Widens s') (n m : Nat) (a b : Ty) :
    (s.unifyWithin n a b).Spares (s'.unifyWithin m a b) := by
  induction n generalizing m a b with
  | zero =>
    intro _ hx
    cases hx
  | succ n ih =>
    cases m with
    | zero =>
      intro _ _ e he
      cases he
    | succ m => exact h.spares_of_paired (ih m) (paired .refl (.image b) n m a)

theorem refl (s : Setting) : s.Widens s :=
  ⟨id, id, id, id⟩

/-- A compatible pair stays compatible unless unification has no end. For grounded types it has. -/
theorem unify_of_ok (h : s.Widens s') {a b u : Ty} (hu : s.unify a b = .ok u) :
    (∀ n, s'.unifyWithin n a b = .outOfFuel ∨ ∃ v, s'.unifyWithin n a b = .ok v) ∧
      (s'.types.Grounded a → s'.types.Grounded b → ∃ v, s'.unify a b = .ok v) := by
  have hany (n : Nat) : s'.unifyWithin n a b = .outOfFuel ∨ ∃ v, s'.unifyWithin n a b = .ok v := by
    cases hv : s'.unifyWithin n a b with
    | ok v => exact .inr ⟨v, rfl⟩
    | error e => exact absurd hv (h.spares _ n a b u hu e)
    | outOfFuel => exact .inl rfl
  exact ⟨hany, fun ha hb => (hany _).resolve_left (unify_ne_outOfFuel ha hb)⟩

end Widens

end Setting

/-! ## Building above a registry -/

namespace Builder

variable {b : Builder} {P : Registry}

theorem build_extends (hb : b.Distinct) (hP : b.parent = some P) :
    b.build.value.toCatalog.Extends P.toCatalog := by
  intro name found hfound
  rw [build_catalog, hP, Option.map_some, Catalog.find?_layer]
  cases hl : (b.kept.map fun e => (e.name, e.ty)).lookup name with
  | none => exact hfound
  | some ty =>
    -- An entry of this name would have been refused.
    obtain ⟨e, he, heq⟩ := List.mem_map.1 (Catalog.mem_of_lookup hl)
    cases heq
    have hunseen := hb.unseen e ((settle_sublist _ _ _).subset he)
    rw [hP, Option.bind_some, Catalog.get?, hfound] at hunseen
    cases hunseen

theorem weight_le_build (hP : b.parent = some P) : P.weight ≤ b.build.value.weight := by
  rw [P.weight_eq, b.build.value.weight_eq, build_catalog, hP, Option.map_some, Catalog.weight,
    Catalog.weightParent]
  omega

end Builder

/-- **Extending a registry is conservative, as far as unification ends.** A registry that is built
above `P` by any registrations finds, resolves and solves as `P` does whatever `P` finds, resolves
and solves. Types that unify in `P` do not fail in it, whatever the fuel is: unification succeeds or
has not ended. It ends for types that do not refer to themselves, with all names read in the new
registry. -/
theorem extension_conservative (P : Built) {registrations : List Registration}
    (hlawful : ∀ r ∈ registrations, r.Lawful) {C : Registry}
    (hC : C = ((Builder.withParent P).registerAll registrations).2.build.value) :
    (∀ name ty, P.value.get name = .ok ty → C.get name = .ok ty) ∧
    (∀ T U, P.value.resolve T = .ok U → C.resolve T = .ok U) ∧
    (∀ T U, P.value.solve T = .ok U → C.solve T = .ok U) ∧
    (∀ (location : Location) (implements : Checker) (A B : Ty),
      (∃ U, P.value.unify location A B implements = .ok U) →
      (∀ n, Setting.unifyWithin ⟨C, implements, location⟩ n A B = .outOfFuel ∨
        ∃ V, Setting.unifyWithin ⟨C, implements, location⟩ n A B = .ok V) ∧
      (C.Grounded A → C.Grounded B → ∃ V, C.unify location A B implements = .ok V)) := by
  have hparent := Builder.registerAll_parent (Builder.withParent P) registrations
  have hdistinct := Builder.registerAll_distinct
    (Builder.distinct_of_entries_eq_nil (b := Builder.withParent P) rfl) hlawful
  have hextends : C.toCatalog.Extends P.value.toCatalog := by
    rw [hC]
    exact Builder.build_extends hdistinct hparent
  have hweight : P.value.weight ≤ C.weight := by
    rw [hC]
    exact Builder.weight_le_build hparent
  refine ⟨fun _ _ => Registry.get_of_extends hextends,
    fun _ _ => Registry.resolve_of_extends hextends,
    fun _ _ => Registry.solve_of_extends hextends hweight, ?_⟩
  rintro location implements A B ⟨U, hU⟩
  have hwidens : Setting.Widens ⟨P.value, implements, location⟩ ⟨C, implements, location⟩ := {
    resolve := Registry.resolve_of_extends hextends
    solve := Registry.solve_of_extends hextends hweight
    get? := fun h => Registry.get?_of_extends hextends h
    implements := id }
  exact hwidens.unify_of_ok hU

/-- Places, above an atlas. -/
def gazetteer : Built :=
  ((Builder.withParent atlas).declareAll
    [.type "Place" ∅ [] (.reference (qualify "Geo" "Pair")),
      .type "Route" ∅ [] (.union [⟨"Stay", [.reference "Place"]⟩,
        ⟨"Go", [.reference "Place", .reference "Route"]⟩])]).2.build

theorem gazetteer_facts :
    atlas.value.get (qualify "Geo" "Pair") = .ok intPair ∧
      atlas.value.solve (.reference (qualify "Geo" "Pair"))
        = .ok (.tuple [.concrete "Int" ∅, .concrete "Int" ∅] ∅) ∧
      atlas.value.unify default (.labeled "at" (.reference (qualify "Geo" "Pair"))) intPair
        (fun _ _ => false) = .ok (.tuple [.concrete "Int" ∅, .concrete "Int" ∅] ∅) ∧
      gazetteer.value.resolve (.reference (qualify "Geo" "Pair")) = .ok intPair ∧
      gazetteer.value.resolve (.reference "Int") = .ok (.concrete "Int" ∅) := by
  decide +kernel

theorem gazetteer_intPair {seen : List String} (hseen : "Int" ∉ seen) :
    gazetteer.value.Below seen intPair := by
  have hint : gazetteer.value.Below seen (.reference "Int") := by
    refine .named rfl hseen gazetteer_facts.2.2.2.2 (.node rfl ?_ ?_)
    · rintro _ _ _ heq
      cases heq
    · intro t ht
      cases ht
  refine .node rfl ?_ fun t ht => ?_
  · rintro _ _ _ heq
    cases heq
  · simp only [intPair, Ty.parts, List.mem_cons, List.not_mem_nil, or_false, or_self] at ht
    rw [ht]
    exact hint

/-- A type and a tuple of it. -/
def cells : Built :=
  (Builder.new.declareAll [.concrete "X", .type "Y" ∅ [] (.tuple [.reference "X"])]).2.build

/-- The cells as a module, above nothing. -/
def annex : Built :=
  Registry.ofModules none [("Geo", cells)]

/-- Above the annex, `X` is a tuple of the tuple of the module. In the module, that is a tuple of
another `X`. -/
def maze : Built :=
  ((Builder.withParent annex).declareAll [.concrete "Int", .trait "Show" ∅ "a" [],
    .type "X" ∅ [] (.tuple [.reference (qualify "Geo" "Y")])]).2.build

/-- The tuple of the module. -/
def cellTuple : Ty :=
  .reference (qualify "Geo" "Y")

/-- What can be shown. -/
def showTrait : Trait :=
  ⟨"Show", "a", [], ∅⟩

theorem maze_facts :
    annex.value.unify default (.impl showTrait cellTuple) cellTuple (fun _ _ => true)
        = .ok (.fixedTrait showTrait) ∧
      maze.value.solve (.impl showTrait cellTuple) = .ok (.tuple [.concrete "X" ∅] ∅) ∧
      maze.value.solve cellTuple = .ok (.tuple [.concrete "X" ∅] ∅) ∧
      maze.value.resolve cellTuple = .ok (.tuple [.reference "X"] ∅) ∧
      maze.value.resolve (.reference "X") = .ok (.tuple [cellTuple] ∅) := by
  decide +kernel

/-- The tuple of the module has an end in its module. But above the annex, its element is read as a
tuple of the tuple again. -/
theorem maze_loop (implements : Checker) (location : Location) :
    Relation.TransGen (Setting.Waits ⟨maze.value, implements, location⟩) (cellTuple, cellTuple)
      (cellTuple, cellTuple) := by
  obtain ⟨-, -, -, htuple, helement⟩ := maze_facts
  exact .head (.name rfl htuple) (.head (.first htuple rfl rfl)
    (.head (.name rfl helement) (.single (.first helement rfl rfl))))

/-- Pairs of the atlas are the same in the gazetteer, and as compatible. In the maze, types that
unify below it and can be solved have a unification without end. -/
theorem extension_conservative_gazetteer :
    (gazetteer.value.get (qualify "Geo" "Pair") = .ok intPair ∧
      gazetteer.value.solve (.reference (qualify "Geo" "Pair"))
        = .ok (.tuple [.concrete "Int" ∅, .concrete "Int" ∅] ∅) ∧
      gazetteer.value.Grounded (.labeled "at" (.reference (qualify "Geo" "Pair"))) ∧
      gazetteer.value.Grounded intPair ∧
      ∃ V, gazetteer.value.unify default (.labeled "at" (.reference (qualify "Geo" "Pair"))) intPair
        (fun _ _ => false) = .ok V) ∧
    annex.value.unify default (.impl showTrait cellTuple) cellTuple (fun _ _ => true)
        = .ok (.fixedTrait showTrait) ∧
      (∃ S, maze.value.solve (.impl showTrait cellTuple) = .ok S) ∧
      (∃ S, maze.value.solve cellTuple = .ok S) ∧
      ∀ n, Setting.unifyWithin ⟨maze.value, fun _ _ => true, default⟩ n (.impl showTrait cellTuple)
        cellTuple = .outOfFuel := by
  obtain ⟨hget, hsolve, hunify, hresolve, -⟩ := gazetteer_facts
  obtain ⟨hbelow, hleft, hright, htuple, helement⟩ := maze_facts
  have hpair : gazetteer.value.Grounded intPair := (gazetteer_intPair List.not_mem_nil).grounded
  have hlabeled : gazetteer.value.Grounded (.labeled "at" (.reference (qualify "Geo" "Pair"))) := by
    have hname : gazetteer.value.Below [] (.reference (qualify "Geo" "Pair")) :=
      .named rfl List.not_mem_nil hresolve (gazetteer_intPair (by decide))
    have hbelow : gazetteer.value.Below [] (.labeled "at" (.reference (qualify "Geo" "Pair"))) := by
      refine .node rfl ?_ fun t ht => ?_
      · rintro _ _ _ heq
        cases heq
      · rw [List.mem_singleton.1 ht]
        exact hname
    exact hbelow.grounded
  obtain ⟨hgets, -, hsolves, hunifies⟩ := extension_conservative atlas (lawful_registrations _)
    (rfl : gazetteer.value = _)
  have hstays := (hunifies default _ _ _ ⟨_, hunify⟩).2 hlabeled hpair
  refine ⟨⟨hgets _ _ hget, hsolves _ _ hsolve, hlabeled, hpair, hstays⟩, hbelow, ⟨_, hleft⟩,
    ⟨_, hright⟩, ?_⟩
  -- The value of a trait waits for the tuple, which goes on to its element and into the loop.
  have hreach : Relation.ReflTransGen (Setting.Waits ⟨maze.value, fun _ _ => true, default⟩)
      (.impl showTrait cellTuple, cellTuple) (cellTuple, cellTuple) :=
    .head (.implementation (by decide +kernel) rfl htuple) (.head (.name rfl htuple)
      (.head (.first (Registry.resolve_of_settled rfl) rfl rfl)
        (.head (.name rfl helement) (.single (.first helement rfl rfl)))))
  exact Setting.unifyWithin_endless hreach (maze_loop _ _)

/-! ## More traits -/

/-- **A checker that knows more traits makes no pair incompatible, as far as unification ends.**
What unifies with the first checker does not fail with the second, whatever the fuel is. But where a
value of an implemented trait is expected, the second checker may go on with what the first one gave
up. That ends for types that do not refer to themselves, with all names read in `R`. -/
theorem unify_monotone_in_checker (R : Registry) (location : Location) {c₁ c₂ : Checker}
    (hc : ∀ trait ty, c₁ trait ty = true → c₂ trait ty = true) {T₁ T₂ : Ty}
    (h : ∃ U, R.unify location T₁ T₂ c₁ = .ok U) :
    (∀ n, Setting.unifyWithin ⟨R, c₂, location⟩ n T₁ T₂ = .outOfFuel ∨
      ∃ V, Setting.unifyWithin ⟨R, c₂, location⟩ n T₁ T₂ = .ok V) ∧
    (R.Grounded T₁ → R.Grounded T₂ → ∃ V, R.unify location T₁ T₂ c₂ = .ok V) := by
  obtain ⟨U, hU⟩ := h
  have hwidens : Setting.Widens ⟨R, c₁, location⟩ ⟨R, c₂, location⟩ := {
    resolve := id
    solve := id
    get? := id
    implements := fun {trait ty} => hc trait ty }
  exact hwidens.unify_of_ok hU

/-- Numbers, and a trait of what can be shown. -/
def market : Registry :=
  (Builder.new.declareAll [.concrete "Int", .trait "Show" ∅ "a" []]).2.build.value

/-- A tuple of one thing that can be shown. -/
def shownTuple : Ty :=
  .tuple [.parametric (.reference "Show") [.parameter "a" .written] ∅] ∅

/-- Tuples can be shown. -/
def showsTuples : Checker
  | _, .tuple .. => true
  | _, _ => false

theorem market_facts :
    market.unify default (.impl showTrait shownTuple) (.tuple [.reference "Int"] ∅) showsTuples
        = .ok (.fixedTrait showTrait) ∧
      market.unify default (.impl showTrait shownTuple) (.tuple [.reference "Int"] ∅)
          (fun _ _ => true)
        = .ok (.impl showTrait (.tuple [.impl showTrait (.concrete "Int" ∅)] ∅)) ∧
      market.solve (.reference "Show") = .ok (.trait showTrait) ∧
      market.resolve (.reference "Int") = .ok (.concrete "Int" ∅) := by
  decide +kernel

theorem market_grounded :
    market.Grounded (.impl showTrait shownTuple) ∧
      market.Grounded (.tuple [.reference "Int"] ∅) := by
  obtain ⟨-, -, hshow, hint⟩ := market_facts
  have hparameter : market.Below [] (.parameter "a" .written) :=
    .node rfl (by simp) (by simp [Ty.parts])
  have hshown : market.Below [] (.parametric (.reference "Show") [.parameter "a" .written] ∅) := by
    refine .node rfl ?_ (by simpa [Ty.parts] using hparameter)
    rintro _ _ _ ⟨⟩
    simp [hshow]
  have htuple : market.Below [] shownTuple :=
    .node rfl (by simp [shownTuple]) (by simpa [shownTuple, Ty.parts] using hshown)
  have hleft : market.Below [] (.impl showTrait shownTuple) :=
    .node rfl (by simp) (by simpa [Ty.parts] using htuple)
  have hnumber : market.Below [] (.reference "Int") :=
    .named rfl List.not_mem_nil hint (.node rfl (by simp) (by simp [Ty.parts]))
  have hright : market.Below [] (.tuple [.reference "Int"] ∅) :=
    .node rfl (by simp) (by simpa [Ty.parts] using hnumber)
  exact ⟨hleft.grounded, hright.grounded⟩

/-- A thing that can be shown, next to the tuple of the module. -/
def shownCell : Ty :=
  .tuple [.parametric (.reference "Show") [.parameter "a" .written] ∅, cellTuple] ∅

theorem maze_checkers_facts :
    maze.value.unify default (.impl showTrait shownCell) (.tuple [.reference "Int", cellTuple] ∅)
        showsTuples = .ok (.fixedTrait showTrait) ∧
      maze.value.unify default (.parametric (.reference "Show") [.parameter "a" .written] ∅)
        (.reference "Int") (fun _ _ => true) = .ok (.impl showTrait (.concrete "Int" ∅)) := by
  decide +kernel

/-- If only tuples can be shown, nothing is known of the tuple but its trait. If all can be shown,
its element fits too, and the result is another one. Where the tuple of the maze comes next,
unification goes on to it and has no end. -/
theorem unify_monotone_in_checker_market :
    (market.unify default (.impl showTrait shownTuple) (.tuple [.reference "Int"] ∅) showsTuples
        = .ok (.fixedTrait showTrait) ∧
      ∃ V, market.unify default (.impl showTrait shownTuple) (.tuple [.reference "Int"] ∅)
        (fun _ _ => true) = .ok V ∧ V ≠ .fixedTrait showTrait) ∧
    maze.value.unify default (.impl showTrait shownCell) (.tuple [.reference "Int", cellTuple] ∅)
        showsTuples = .ok (.fixedTrait showTrait) ∧
      ∀ n, Setting.unifyWithin ⟨maze.value, fun _ _ => true, default⟩ n (.impl showTrait shownCell)
        (.tuple [.reference "Int", cellTuple] ∅) = .outOfFuel := by
  obtain ⟨hfixed, hshown, -⟩ := market_facts
  obtain ⟨hleft, hright⟩ := market_grounded
  obtain ⟨hgiven, hnumber⟩ := maze_checkers_facts
  have hmore : ∀ trait ty, showsTuples trait ty = true → true = true := fun _ _ _ => rfl
  obtain ⟨V, hV⟩ := (unify_monotone_in_checker market default hmore ⟨_, hfixed⟩).2 hleft hright
  refine ⟨⟨hfixed, V, hV, ?_⟩, hgiven, ?_⟩
  · rintro rfl
    cases hV.symm.trans hshown
  · have htuple : Setting.Waits ⟨maze.value, fun _ _ => true, default⟩
        (shownCell, .tuple [.reference "Int", cellTuple] ∅) (cellTuple, cellTuple) :=
      .second (Registry.resolve_of_settled rfl) rfl fun n =>
        (Setting.Widens.refl _).spares _ n _ _ _ hnumber
    exact Setting.unifyWithin_endless (.head (.implementation (by decide +kernel) rfl
      (Registry.resolve_of_settled rfl)) (.single htuple)) (maze_loop _ _)

end TypeEngine

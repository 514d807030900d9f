import TypeEngine.Proofs.OrdinaryTypes
import TypeEngine.Proofs.Preorder

/-!
# Directives and compatibility

Erasing the directives of two types and of all stored types turns unification into one that runs in
step with it (`Setting.compatible_plain`), as long as the actual type has no name under directives.
Such a name is never opened: only a variable takes it (`Setting.compatible_iff_isVariable`).
-/

namespace TypeEngine

/-! ## Without directives -/

/-- A type that unrolls also does so without directives, and then there is nothing to expose. -/
theorem Catalog.Unrolls.plain {R : Registry} {C : Catalog} {exposed : Bool} {n : Nat} {ty : Ty}
    (h : C.Unrolls (R.Ordinary exposed) n ty) (exposed' : Bool) :
    C.plain.Unrolls (R.plain.Ordinary exposed') n ty.plain := by
  induction h with
  | @node C n ty hname hself _ ih =>
    have hall {ts : List Ty} (h : ∀ t ∈ ts, C.plain.Unrolls (R.plain.Ordinary exposed') n t.plain) :
        ∀ t ∈ plainAll ts, C.plain.Unrolls (R.plain.Ordinary exposed') n t := by
      simpa using h
    cases ty with
    | annotated directives ty => exact (ih ty (List.mem_singleton_self ty)).mono (Nat.le_succ n)
    | labeled label ty =>
      refine .node rfl trivial fun t ht => ?_
      rw [List.mem_singleton.1 ht]
      exact ih ty (List.mem_singleton_self ty)
    | parametric head params attributes =>
      obtain ⟨family, hhead⟩ := hself
      exact .node rfl ⟨family, hhead.plain⟩ (hall ih)
    | function | tuple => exact .node rfl trivial (hall ih)
    | union cases attributes =>
      have hplain : (Ty.union cases attributes).plain = .union cases attributes := hself
      rw [hplain]
      exact .node rfl hplain fun t ht => by cases ht
    | intersection | trait | method | impl | fixedTrait => exact hself.elim
    | reference | typeAlias | constructor => cases hname
    | _ => exact .node rfl trivial fun t ht => by cases ht
  | @name C O n ty t name hname hself hf _ ih =>
    cases ty with
    | reference | typeAlias =>
      cases hname
      exact .name rfl trivial (Catalog.find?_plain hf) ih
    | constructor label union attributes =>
      cases hname
      obtain ⟨u, hu, hunion⟩ := hself
      obtain ⟨found, hfound, rfl⟩ := Option.map_eq_some_iff.1 hu
      have hget : R.plain.get? name = some found.2.plain :=
        Option.map_eq_some_iff.2 ⟨_, Catalog.find?_plain hfound, rfl⟩
      refine .name rfl ⟨_, hget, ?_⟩ (Catalog.find?_plain hf) ih
      rw [Ty.inner_plain]
      generalize found.2.inner = x at hunion ⊢
      cases x <;> first | rfl | cases hunion
    | _ => cases hname

namespace Registry

variable {R : Registry} {x y : Ty}

theorem sameShell_parametric (hR : R.toCatalog.Layered) {family family' : String} {head head' : Ty}
    {params params' : List Ty} {attributes attributes' : Attributes} (h : R.HeadOf family head)
    (h' : R.HeadOf family' head') :
    R.SameShell (.parametric head params attributes) (.parametric head' params' attributes')
      ↔ family = family' := by
  constructor
  · intro hshell
    cases hshell with
    | parametric hx hy =>
      rw [h.family_eq hR] at hx
      rw [h'.family_eq hR] at hy
      cases hx
      cases hy
      rfl
  · rintro rfl
    exact .parametric (h.family_eq hR) (h'.family_eq hR)

theorem sameShell_plain (hR : R.toCatalog.Layered) {exposed exposed' : Bool}
    (hx : R.Ordinary exposed x) (hy : R.Ordinary exposed' y) (hxp : x.isProper = true)
    (hyp : y.isProper = true) : R.plain.SameShell x.plain y.plain ↔ R.SameShell x y := by
  constructor
  · intro h
    cases x with
    | function => cases y <;> first | exact .function | cases h | cases hyp
    | tuple => cases y <;> first | exact .tuple | cases h | cases hyp
    | parametric head params attributes =>
      obtain ⟨family, hhead⟩ := hx
      cases y with
      | parametric head' params' attributes' =>
        obtain ⟨family', hhead'⟩ := hy
        rw [sameShell_parametric hR hhead hhead']
        exact (sameShell_parametric (hR.mapTypes Ty.plain) hhead.plain hhead'.plain).1 h
      | _ => first | cases h | cases hyp
    | _ => first | cases h | cases hxp
  · intro h
    have hshell := h
    cases h with
    | function => exact .function
    | tuple => exact .tuple
    | parametric =>
      obtain ⟨family, hhead⟩ := hx
      obtain ⟨family', hhead'⟩ := hy
      rw [sameShell_parametric hR hhead hhead'] at hshell
      exact (sameShell_parametric (hR.mapTypes Ty.plain) hhead.plain hhead'.plain).2 hshell

theorem same_plain {exposed : Bool} (hy : R.Ordinary exposed y) (hyp : y.isProper = true)
    (hx : x.isNominal = true) : y.plain.same x = y.same x := by
  cases y with
  | union cases attributes => rw [hy]
  | parametric | function | tuple =>
    cases x with
    | concrete | union => simp [Ty.plain, Ty.same, Ty.sameUnder]
    | _ => cases hx
  | _ => first | rfl | cases hyp

end Registry

namespace Setting

variable {R : Registry} {a b y : Ty} {exposed exposed' : Bool}

theorem forall₂_congr_mem {α : Type} {P Q : α → α → Prop} {l l' : List α}
    (h : ∀ a ∈ l, ∀ b ∈ l', (P a b ↔ Q a b)) : List.Forall₂ P l l' ↔ List.Forall₂ Q l l' := by
  rw [forall₂_iff_getElem?, forall₂_iff_getElem?]
  refine and_congr_right fun _ => forall₅_congr fun i a b ha hb => ?_
  exact h a (List.mem_of_getElem? ha) b (List.mem_of_getElem? hb)

theorem accepts_plain (hR : R.toCatalog.Layered) {related related' : Ty → Ty → Prop}
    (ha : R.Ordinary exposed a) (hap : a.isProper = true) (hy : R.Ordinary exposed' y)
    (hyp : y.isProper = true)
    (hlabel : ∀ label union attributes, b.plain = .constructor label union attributes
      ↔ b = .constructor label union attributes)
    (hrelated : ∀ c ∈ a.components, ∀ d ∈ y.components, related' c.plain d.plain ↔ related c d) :
    Accepts R.plain related' a.plain b.plain y.plain ↔ Accepts R related a b y := by
  have hparam : y.plain.isParameter = y.isParameter := by
    cases y <;> first | rfl | cases hyp
  have hcompound : R.plain.SameShell a.plain y.plain ∧
        List.Forall₂ related' a.plain.components y.plain.components
      ↔ R.SameShell a y ∧ List.Forall₂ related a.components y.components := by
    rw [Registry.sameShell_plain hR ha hy hap hyp, Ty.components_plain hap, Ty.components_plain hyp,
      List.forall₂_map_left_iff, List.forall₂_map_right_iff, forall₂_congr_mem hrelated]
  refine or_congr (by rw [hparam]) ?_
  cases a with
  | parameter name origin => exact Iff.rfl
  | concrete name attributes =>
    show y.plain.same _ = true ↔ y.same _ = true
    rw [Registry.same_plain hy hyp rfl]
    rfl
  | numeric kind attributes =>
    refine exists₂_congr fun kind' attributes' => and_congr_left' ?_
    cases y with
    | annotated => cases hyp
    | _ => simp [Ty.plain]
  | union cases attributes =>
    rw [ha]
    refine or_congr ?_ ?_
    · rw [Registry.same_plain hy hyp rfl]
    · simp only [hlabel]
  | parametric | function | tuple => exact hcompound
  | _ => cases hap

end Setting

/-- A case label that comes to light without directives was not hidden by them. -/
theorem Registry.plain_eq_constructor {R : Registry} {b : Ty} (hb : R.Ordinary true b)
    (label union : String) (attributes : Attributes) :
    b.plain = .constructor label union attributes ↔ b = .constructor label union attributes := by
  cases b with
  | annotated directives t =>
    refine iff_of_false (fun h => ?_) (fun h => by cases h)
    have hname : t.inner.lookup? = some union := by
      rw [← Ty.lookup?_inner_plain, ← Ty.inner_plain, show t.plain = _ from h]
      rfl
    rw [hb rfl] at hname
    cases hname
  | _ => simp [Ty.plain]

namespace Setting

variable {s : Setting} {a b t : Ty} {exposed : Bool} {n m : Nat}

/-- The setting without directives. -/
def plain (s : Setting) : Setting :=
  ⟨s.types.plain, s.implements, s.location⟩

/-- **Erasing directives keeps types compatible and incompatible**, if the actual type has no names
under directives. -/
theorem compatible_plain (hR : s.types.toCatalog.Layered)
    (ha : s.types.toCatalog.Unrolls (s.types.Ordinary exposed) n a)
    (hb : s.types.toCatalog.Unrolls (s.types.Ordinary true) m b) :
    s.plain.Compatible a.plain b.plain ↔ s.Compatible a b := by
  have hR' : s.plain.types.toCatalog.Layered := hR.mapTypes Ty.plain
  induction n generalizing a b m with
  | zero => cases ha
  | succ n ih =>
    obtain ⟨t, hshows, ht⟩ := Registry.exists_shows hR hb
    have hresolve : s.plain.types.resolve b.plain = .ok t.plain :=
      Registry.resolve_plain hshows.resolve hshows.lookup?
    have himpl : ∀ trait implementation, t.inner ≠ .impl trait implementation :=
      hshows.ordinary.ne_impl
    have himpl' : ∀ trait implementation, t.plain.inner ≠ .impl trait implementation := by
      rw [Ty.inner_plain]
      exact (ht.plain true).self.ne_impl
    have hproper (hap : a.isProper = true) :
        s.plain.Compatible a.plain b.plain ↔ s.Compatible a b := by
      have hap' : a.plain.isProper = true := by
        cases a <;> first | rfl | cases hap
      rw [compatible_iff_accepts hap (boundTrait_eq hR ha.self) hshows.resolve himpl,
        compatible_iff_accepts hap' (boundTrait_eq hR' (ha.plain true).self) hresolve himpl',
        Ty.inner_plain]
      have hyp := hshows.ordinary.isProper hshows.lookup? t.inner_inner
      refine accepts_plain hR ha.self hap hshows.ordinary hyp
        (Registry.plain_eq_constructor hb.self) fun c hc d hd => ?_
      cases m with
      | zero => cases hb
      | succ m =>
        have hd := ht.part (t.inner.components_subset_parts hd)
        exact ih (ha.part (a.components_subset_parts hc)) hd
    have hname {name : String} (hname : a.lookup? = some name)
        (hname' : a.plain.lookup? = some name) :
        s.plain.Compatible a.plain b.plain ↔ s.Compatible a b := by
      obtain ⟨k, O, e, hk, hf, he⟩ := ha.exists_entry hname
      rw [compatible_entry hR hshows.resolve himpl ha hname hf,
        compatible_entry hR' hresolve himpl' (ha.plain true) hname' (Catalog.find?_plain hf)]
      exact ih ((he.of_under hR (hR.under_of_find? hf)).mono (Nat.le_of_lt_succ hk)) hb
    cases a with
    | labeled label a =>
      show s.plain.Compatible (.labeled label a.plain) _ ↔ _
      rw [compatible_labeled, compatible_labeled]
      exact ih (ha.part (List.mem_singleton_self a)) hb
    | annotated directives a =>
      rw [compatible_annotated]
      exact ih (ha.part (List.mem_singleton_self a)) hb
    | reference | typeAlias | constructor => exact hname rfl rfl
    | intersection | trait | method | impl | fixedTrait => exact ha.self.elim
    | _ => exact hproper rfl

end Setting

/-! ## Names under directives -/

/-- A type variable, behind names, labels and directives. -/
inductive Registry.IsVariable (R : Registry) : Ty → Prop
  | parameter (name : String) (origin : Origin) : IsVariable R (.parameter name origin)
  | labeled (label : String) {ty : Ty} : IsVariable R ty → IsVariable R (.labeled label ty)
  | annotated (directives : List Directive) {ty : Ty} :
      IsVariable R ty → IsVariable R (.annotated directives ty)
  | name {ty t : Ty} {name : String} : ty.lookup? = some name → R.get? name = some t →
      IsVariable R t → IsVariable R ty

namespace Setting

variable {s : Setting} {a b t : Ty} {exposed : Bool} {n : Nat}

/-- No proper type but a variable takes a name that is left under directives. -/
theorem not_accepts_of_lookup {R : Registry} {related : Ty → Ty → Prop} {y : Ty} {name : String}
    (hy : y.lookup? = some name) (ha : a.isProper = true) (hparam : a.isParameter = false)
    (hlabel : ∀ label union attributes, b ≠ .constructor label union attributes) :
    ¬ Accepts R related a b y := by
  have hyp : y.isParameter = false := by
    cases y <;> first | rfl | cases hy
  have hsame {x : Ty} (hx : x.isNominal = true) (h : y.same x = true) : False := by
    cases y with
    | reference | typeAlias | constructor =>
      cases x with
      | concrete | union => simp [Ty.same, Ty.sameUnder] at h
      | _ => cases hx
    | _ => cases hy
  rintro (h | h)
  · rw [hyp] at h
    cases h
  · cases a with
    | parameter => cases hparam
    | concrete => exact hsame rfl h
    | numeric =>
      obtain ⟨_, _, rfl, -⟩ := h
      cases hy
    | union =>
      rcases h with h | ⟨label, union, attributes, h, -⟩
      · exact hsame rfl h
      · exact hlabel label union attributes h
    | parametric | function | tuple =>
      obtain ⟨hshell, -⟩ := h
      cases hshell
      cases hy
    | _ => cases ha

theorem compatible_iff_isVariable (hR : s.types.toCatalog.Layered)
    (ha : s.types.toCatalog.Unrolls (s.types.Ordinary exposed) n a)
    (ht : s.types.resolve b = .ok t) {name : String} (hname : t.inner.lookup? = some name)
    (hlabel : ∀ label union attributes, b ≠ .constructor label union attributes) :
    s.Compatible a b ↔ s.types.IsVariable a := by
  have himpl (trait : Trait) (implementation : Ty) : t.inner ≠ .impl trait implementation := by
    intro h
    rw [h] at hname
    cases hname
  induction n generalizing a with
  | zero => cases ha
  | succ n ih =>
    have hproper (hap : a.isProper = true) (hparam : a.isParameter = false)
        (hvar : ¬ s.types.IsVariable a) : s.Compatible a b ↔ s.types.IsVariable a := by
      rw [compatible_iff_accepts hap (boundTrait_eq hR ha.self) ht himpl]
      exact iff_of_false (not_accepts_of_lookup hname hap hparam hlabel) hvar
    have hentry {name : String} (hname : a.lookup? = some name) :
        s.Compatible a b ↔ s.types.IsVariable a := by
      obtain ⟨k, O, e, hk, hf, he⟩ := ha.exists_entry hname
      have he := (he.of_under hR (hR.under_of_find? hf)).mono (Nat.le_of_lt_succ hk)
      refine (compatible_entry hR ht himpl ha hname hf).trans ((ih he).trans ?_)
      have hget : s.types.get? name = some e := Option.map_eq_some_iff.2 ⟨_, hf, rfl⟩
      refine ⟨.name hname hget, fun h => ?_⟩
      cases h with
      | name hname' hget' ht =>
        rw [hname] at hname'
        cases hname'
        rw [hget] at hget'
        cases hget'
        exact ht
      | _ => cases hname
    cases a with
    | parameter name origin => exact iff_of_true ⟨1, t, Outcome.liftM_eq_ok.2 ht⟩ (.parameter _ _)
    | labeled label a =>
      have ih := ih (ha.part (List.mem_singleton_self a))
      refine compatible_labeled.trans (ih.trans ⟨.labeled label, fun h => ?_⟩)
      cases h with
      | labeled _ h => exact h
      | name hname => cases hname
    | annotated directives a =>
      have ih := ih (ha.part (List.mem_singleton_self a))
      refine compatible_annotated.trans (ih.trans ⟨.annotated directives, fun h => ?_⟩)
      cases h with
      | annotated _ h => exact h
      | name hname => cases hname
    | reference | typeAlias | constructor => exact hentry rfl
    | intersection | trait | method | impl | fixedTrait => exact ha.self.elim
    | _ =>
      refine hproper rfl rfl fun h => ?_
      cases h with
      | name hname => cases hname

end Setting

/-! ## Compatibility with and without directives -/

namespace Registry

variable {R : Registry} {exposed : Bool} {ty : Ty}

theorem lookup?_of_constructor {label union : String} {attributes : Attributes} {t : Ty}
    (h : R.Ordinary exposed (.constructor label union attributes))
    (ht : R.resolve (.constructor label union attributes) = .ok t) : t.inner.lookup? = none := by
  obtain ⟨u, hu, hunion⟩ := h
  obtain ⟨O, hwalk⟩ := resolve_eq_ok_iff.1 ht
  cases hwalk with
  | stop hstop => cases hstop
  | constructor hf =>
    rw [Catalog.get?, hf] at hu
    cases hu
    exact Ty.lookup?_of_isUnion hunion

theorem exists_unify_iff {location : Location} {implements : Checker} {a b : Ty}
    (ha : R.Grounded a) (hb : R.Grounded b) :
    (∃ U, R.unify location a b implements = .ok U)
      ↔ Setting.Compatible ⟨R, implements, location⟩ a b :=
  (Setting.compatible_iff_unify ha hb).symm

theorem exists_unrolls_of_solve (hR : R.toCatalog.Layered) {S : Ty} (h : R.solve ty = .ok S)
    (hty : R.toCatalog.Throughout (R.OrdinaryAt exposed) ty) :
    ∃ n, R.toCatalog.Unrolls (R.Ordinary exposed) n ty :=
  exists_unrolls hR (s := ⟨R.toCatalog, R.walkFuel ty, [], false⟩) (.refl _) rfl hty h

end Registry

theorem Catalog.Unrolls.throughout {R : Registry} {C : Catalog} {exposed : Bool} {n : Nat} {ty : Ty}
    (h : C.Unrolls (R.Ordinary exposed) n ty) : C.Throughout (R.OrdinaryAt exposed) ty := by
  intro O u hu
  obtain ⟨k, hk⟩ := h.comesTo hu
  refine ⟨hk.self, fun name hname => ?_⟩
  obtain ⟨_, _, _, -, hf, -⟩ := hk.exists_entry hname
  exact ⟨_, hf⟩

/-- **Directives do not matter, unless there are names under them in the actual type.** Take two
types that can be solved, and let all that they come to be ordinary. If the actual type comes to no
name under directives, the two are compatible exactly if they are so without all directives. But if
the actual type stands for such a name, the expected type has to be a variable. -/
theorem directives_transparent {D : Built} (hD : BuiltInLayers D) (location : Location)
    (implements : Checker) {T₁ S₁ : Ty} (h₁ : D.value.solve T₁ = .ok S₁)
    (hT₁ : D.value.toCatalog.Throughout (D.value.OrdinaryAt false) T₁) :
    (∀ T₂ S₂, D.value.solve T₂ = .ok S₂ →
      D.value.toCatalog.Throughout (D.value.OrdinaryAt true) T₂ →
      ((∃ U, D.value.unify location T₁ T₂ implements = .ok U)
        ↔ ∃ U, D.value.plain.unify location T₁.plain T₂.plain implements = .ok U)) ∧
    ∀ T₂ S₂ t, D.value.solve T₂ = .ok S₂ →
      D.value.toCatalog.Throughout (D.value.OrdinaryAt false) T₂ →
      D.value.resolve T₂ = .ok t → t.inner.lookup? ≠ none →
      ((∃ U, D.value.unify location T₁ T₂ implements = .ok U) ↔ D.value.IsVariable T₁) := by
  have hR := hD.layered
  have hP := D.value.ordinary_shallow
  have hP' := D.value.plain.ordinary_shallow
  have hR' : D.value.plain.toCatalog.Layered := hR.mapTypes Ty.plain
  obtain ⟨n, hn⟩ := Registry.exists_unrolls_of_solve hR h₁ hT₁
  have hground := hn.grounded (hP _) hR
  have hground' := (hn.plain true).grounded (hP' _) hR'
  constructor
  · intro T₂ S₂ h₂ hT₂
    obtain ⟨m, hm⟩ := Registry.exists_unrolls_of_solve hR h₂ hT₂
    rw [Registry.exists_unify_iff hground (hm.grounded (hP _) hR),
      Registry.exists_unify_iff hground' ((hm.plain true).grounded (hP' _) hR')]
    exact (Setting.compatible_plain hR hn hm).symm
  · intro T₂ S₂ t h₂ hT₂ ht hname
    obtain ⟨m, hm⟩ := Registry.exists_unrolls_of_solve hR h₂ hT₂
    have hlabel (label union : String) (attributes : Attributes) :
        T₂ ≠ .constructor label union attributes := by
      rintro rfl
      exact hname (Registry.lookup?_of_constructor hT₂.self.ordinary ht)
    obtain ⟨name, hname⟩ := Option.ne_none_iff_exists'.1 hname
    rw [Registry.exists_unify_iff hground (hm.grounded (hP _) hR)]
    exact Setting.compatible_iff_isVariable hR hn ht hname hlabel

/-- Numbers and pairs of them, with a documented name for the numbers. -/
def glossary : Built :=
  (Builder.new.declareAll
    [.concrete "Int", .type "Id" ∅ [⟨"doc", []⟩] (.reference "Int"),
      .type "Pair" ∅ [⟨"doc", []⟩] (.tuple [.reference "Int", .reference "Int"])]).2.build

theorem glossary_entries :
    glossary.value.find? "Int" = some (glossary.value.toCatalog, .concrete "Int" ∅) ∧
      glossary.value.find? "Id" = some (glossary.value.toCatalog,
        .annotated [⟨"doc", []⟩] (.typeAlias "Int" ∅)) ∧
      glossary.value.find? "Pair" = some (glossary.value.toCatalog,
        .annotated [⟨"doc", []⟩] (.tuple [.reference "Int", .reference "Int"] ∅)) :=
  ⟨rfl, rfl, rfl⟩

theorem glossary_facts :
    glossary.value.solve (.reference "Id")
        = .ok (.annotated [⟨"doc", []⟩] (.concrete "Int" ∅)) ∧
      glossary.value.resolve (.reference "Id")
        = .ok (.annotated [⟨"doc", []⟩] (.typeAlias "Int" ∅)) ∧
      glossary.value.solve (.tuple [.reference "Id", .reference "Int"] ∅)
        = .ok (.tuple [.annotated [⟨"doc", []⟩] (.concrete "Int" ∅), .concrete "Int" ∅] ∅) ∧
      glossary.value.solve (.reference "Pair")
        = .ok (.annotated [⟨"doc", []⟩] (.tuple [.concrete "Int" ∅, .concrete "Int" ∅] ∅)) ∧
      glossary.value.unify default (.tuple [.reference "Id", .reference "Int"] ∅)
        (.reference "Pair") (fun _ _ => false)
        = .ok (.tuple [.concrete "Int" ∅, .concrete "Int" ∅] ∅) := by
  decide +kernel

theorem glossary_unrolls (exposed : Bool) :
    glossary.value.toCatalog.Unrolls (glossary.value.Ordinary exposed) 2 (.reference "Int") ∧
      glossary.value.toCatalog.Unrolls (glossary.value.Ordinary exposed) 5 (.reference "Pair") ∧
      glossary.value.toCatalog.Unrolls (glossary.value.Ordinary false) 4 (.reference "Id") := by
  obtain ⟨hint, hid, hpair⟩ := glossary_entries
  have hnumber {exposed : Bool} {ty : Ty} (hname : ty.lookup? = some "Int")
      (hty : glossary.value.Ordinary exposed ty) :
      glossary.value.toCatalog.Unrolls (glossary.value.Ordinary exposed) 2 ty :=
    .name hname hty hint (.node rfl trivial (by simp [Ty.parts]))
  refine ⟨hnumber rfl trivial, .name rfl trivial hpair (.node rfl (fun _ => rfl) ?_),
    .name rfl trivial hid (.node rfl (fun h => by cases h) ?_)⟩
  · simp only [Ty.parts, List.forall_mem_singleton]
    refine .node rfl trivial ?_
    simp only [Ty.parts, List.forall_mem_cons]
    exact ⟨hnumber rfl trivial, hnumber rfl trivial, by simp⟩
  · simp only [Ty.parts, List.forall_mem_singleton]
    exact hnumber rfl trivial

theorem glossary_not_isVariable : ¬ glossary.value.IsVariable (.reference "Id") := by
  obtain ⟨hint, hid, -⟩ := glossary_entries
  intro h
  rcases h with _ | _ | _ | ⟨hname, hget, h⟩
  cases hname
  rw [Catalog.get?, hid] at hget
  cases hget
  rcases h with _ | _ | ⟨_, h⟩ | ⟨hname, -, -⟩
  · rcases h with _ | _ | _ | ⟨hname, hget, h⟩
    cases hname
    rw [Catalog.get?, hint] at hget
    cases hget
    rcases h with _ | _ | _ | ⟨hname, -, -⟩
    cases hname
  · cases hname

/-- A documented pair of numbers is a pair of numbers. A documented name for numbers may be expected
as well, but it is not compatible with itself. -/
theorem directives_transparent_glossary :
    (∃ U, glossary.value.unify default (.tuple [.reference "Id", .reference "Int"] ∅)
        (.reference "Pair") (fun _ _ => false) = .ok U) ∧
      (∃ U, glossary.value.plain.unify default (.tuple [.reference "Id", .reference "Int"] ∅)
        (.reference "Pair") (fun _ _ => false) = .ok U) ∧
      ¬ ∃ U, glossary.value.unify default (.reference "Id") (.reference "Id")
        (fun _ _ => false) = .ok U := by
  obtain ⟨hid, hresolve, htuple, hpair, hunify⟩ := glossary_facts
  obtain ⟨-, hpair', hid'⟩ := glossary_unrolls true
  have hlayers : BuiltInLayers glossary := .root (lawful_registrations _)
  have htuple' : glossary.value.toCatalog.Unrolls (glossary.value.Ordinary false) 5
      (.tuple [.reference "Id", .reference "Int"] ∅) := by
    refine .node rfl trivial ?_
    simp only [Ty.parts, List.forall_mem_cons]
    exact ⟨hid', (glossary_unrolls false).1.mono (by omega), by simp⟩
  obtain ⟨hsame, -⟩ := directives_transparent hlayers default (fun _ _ => false) htuple
    htuple'.throughout
  obtain ⟨-, hnames⟩ := directives_transparent hlayers default (fun _ _ => false) hid
    hid'.throughout
  refine ⟨⟨_, hunify⟩, (hsame _ _ hpair hpair'.throughout).1 ⟨_, hunify⟩, fun h => ?_⟩
  exact glossary_not_isVariable ((hnames _ _ _ hid hid'.throughout hresolve (by decide)).1 h)

end TypeEngine

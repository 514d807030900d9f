import TypeEngine.Proofs.Canonical

/-!
# The descent of solving

Solving a type goes down into its parts (`Place.Part`) and opens the names it meets, each in the
catalog that declares it. Whether it succeeds is decided part by part: it succeeds only if it does
in every part (`Place.Part.succeeds`), and when it fails there is a part in which it fails in the
same way (`Place.exists_part_of_failure?`). At a name it fails by itself or in what the name stands
for (`Place.failure?_target`).

Heads of parametric types are no exception, although they are solved again until they stay the
same. What is solved is canonical, so the second time changes nothing (`solveHeadWithin_eq`).

A descent opens every name at most once at a time. The unseen declarations and the nodes of the type
at hand therefore bound its depth, and `Registry.solve` never lacks fuel in a layered registry
(`Registry.solve_ne_outOfFuel`).
-/

namespace TypeEngine

/-! ## Heads -/

/-- The head of a parametric type, and any other type itself. -/
def Ty.headOrSelf : Ty → Ty
  | .parametric head _ _ => head
  | ty => ty

theorem Canonical.solveHeadWithin_eq_self {n : Nat} {s : Expansion} (hs : s.catalog.Layered)
    (hw : s.catalog.weight < s.walk) {head : Ty}
    (h : Canonical s.catalog.StandsForUnion s.inUnion head) (hhead : head.isParametric = false)
    (hn : head.depth < n) : solveHeadWithin n s head = .ok head := by
  obtain ⟨n, rfl⟩ : ∃ m, n = m + 1 := ⟨n - 1, by omega⟩
  rw [solveHeadWithin, h.solveWithin_eq_self hs rfl rfl hw (by omega)]
  cases head <;> first | rfl | cases hhead

/-- **Solving a head again changes nothing,** so one pass is enough. -/
theorem solveHeadWithin_eq (n : Nat) {s : Expansion} (hs : s.catalog.Layered)
    (hw : s.catalog.weight < s.walk) (head : Ty) :
    solveHeadWithin (n + 1) s head
      = solveWithin n s head >>= fun solved => .ok solved.headOrSelf := by
  rw [solveHeadWithin]
  cases h : solveWithin n s head with
  | error e => rfl
  | outOfFuel => rfl
  | ok solved =>
    obtain ⟨hcanon, hdepth⟩ := (canonical_of_solveWithin n).1 hs h
    cases solved with
    | parametric solved params attributes =>
      obtain ⟨hsolved, hpar⟩ := hcanon.head
      rw [Ty.depth] at hdepth
      show (if solved.same head then pure solved else solveHeadWithin n s solved) = .ok solved
      by_cases hsame : solved.same head
      · rw [if_pos hsame]
        rfl
      · rw [if_neg hsame, hsolved.solveHeadWithin_eq_self hs hw hpar (by omega)]
    | _ => rfl

theorem failure?_solveHeadWithin (n : Nat) {s : Expansion} (hs : s.catalog.Layered)
    (hw : s.catalog.weight < s.walk) (head : Ty) :
    (solveHeadWithin n s head).failure? = (solveWithin (n - 1) s head).failure? := by
  cases n with
  | zero => rfl
  | succ n =>
    rw [solveHeadWithin_eq n hs hw, Outcome.failure?_bind_ok]
    rfl

/-! ## Places -/

/-- A type at a place: the catalog of its names, and whether a union case encloses it. -/
structure Place where
  catalog : Catalog
  inUnion : Bool
  ty : Ty

namespace Place

/-- What solving gives at the place, while the names in `expanding` are being expanded. -/
def outcome (p : Place) (n walk : Nat) (expanding : List String) : Outcome Ty :=
  solveWithin n ⟨p.catalog, walk, expanding, p.inUnion⟩ p.ty

/-- `Part p q`: to solve the type at `p`, solving goes down to `q`. -/
inductive Part : Place → Place → Prop
  | head {C : Catalog} {b : Bool} {head : Ty} {params : List Ty} {attributes : Attributes} :
      Part ⟨C, b, .parametric head params attributes⟩ ⟨C, b, head⟩
  | param {C : Catalog} {b : Bool} {head : Ty} {params : List Ty} {attributes : Attributes}
      {t : Ty} : t ∈ params → Part ⟨C, b, .parametric head params attributes⟩ ⟨C, b, t⟩
  | argument {C : Catalog} {b : Bool} {arguments : List Ty} {scope : Scope}
      {attributes : Attributes} {t : Ty} : t ∈ arguments →
      Part ⟨C, b, .function arguments scope attributes⟩ ⟨C, b, t⟩
  | element {C : Catalog} {b : Bool} {elements : List Ty} {attributes : Attributes} {t : Ty} :
      t ∈ elements → Part ⟨C, b, .tuple elements attributes⟩ ⟨C, b, t⟩
  /-- Only here does solving enter a union case. -/
  | case {C : Catalog} {b : Bool} {cases : List Case} {attributes : Attributes} {c : Case}
      {t : Ty} : c ∈ cases → t ∈ c.params → Part ⟨C, b, .union cases attributes⟩ ⟨C, true, t⟩
  | implementation {C : Catalog} {b : Bool} {trait : Trait} {t : Ty} :
      Part ⟨C, b, .impl trait t⟩ ⟨C, b, t⟩
  | labeled {C : Catalog} {b : Bool} {label : String} {t : Ty} :
      Part ⟨C, b, .labeled label t⟩ ⟨C, b, t⟩
  | annotated {C : Catalog} {b : Bool} {directives : List Directive} {t : Ty} :
      Part ⟨C, b, .annotated directives t⟩ ⟨C, b, t⟩

theorem Part.catalog_eq {p q : Place} (h : p.Part q) : q.catalog = p.catalog := by
  cases h <;> rfl

theorem Part.weight_lt {p q : Place} (h : p.Part q) : q.ty.weight < p.ty.weight := by
  cases h with
  | param ht | argument ht | element ht =>
    have := weight_le_weightAll ht
    simp only [Ty.weight]
    omega
  | case hc ht =>
    have := weight_le_weightAll ht
    have := weight_le_weightCases hc
    simp only [Ty.weight]
    omega
  | _ => simp only [Ty.weight]; omega

/-- The place lies in the layers of `R`, and `walk` is fuel for every walk along names there. -/
structure Within (R : Catalog) (walk : Nat) (p : Place) : Prop where
  under : p.catalog.Under R
  fuel : R.weight < walk

variable {R : Catalog} {walk : Nat} {p q : Place} {expanding : List String}

theorem Within.layered (hR : R.Layered) (h : p.Within R walk) : p.catalog.Layered :=
  hR.of_under h.under

theorem Within.weight_lt (hR : R.Layered) (h : p.Within R walk) : p.catalog.weight < walk :=
  Nat.lt_of_le_of_lt (hR.weight_le_of_under h.under) h.fuel

theorem Within.part (h : p.Within R walk) (hq : p.Part q) : q.Within R walk :=
  ⟨by rw [hq.catalog_eq]; exact h.under, h.fuel⟩

/-! ## Parts -/

/-- **Solving succeeds only if it does in every part.** -/
theorem Part.succeeds (hR : R.Layered) (hp : p.Within R walk) (hq : p.Part q) {n : Nat}
    (h : (p.outcome n walk expanding).failure? = none) :
    ∃ m, (q.outcome m walk expanding).failure? = none := by
  have hlayered := hp.layered hR
  have hweight := hp.weight_lt hR
  unfold outcome at h ⊢
  cases n with
  | zero => cases h
  | succ n =>
    cases hq with
    | head =>
      rw [solveWithin] at h
      obtain ⟨H, hH, -⟩ := Outcome.failure?_bind_eq_none.1 h
      refine ⟨n - 1, ?_⟩
      rw [← failure?_solveHeadWithin n hlayered hweight, hH]
      rfl
    | param ht =>
      rw [solveWithin] at h
      obtain ⟨H, -, h⟩ := Outcome.failure?_bind_eq_none.1 h
      simp only [Outcome.pure_eq, Outcome.failure?_bind_ok] at h
      exact ⟨n, Outcome.failure?_mapM_eq_none h _ ht⟩
    | argument ht | element ht =>
      rw [solveWithin] at h
      simp only [Outcome.pure_eq, Outcome.failure?_bind_ok] at h
      exact ⟨n, Outcome.failure?_mapM_eq_none h _ ht⟩
    | case hc ht =>
      rw [solveWithin] at h
      simp only [Outcome.pure_eq, Outcome.failure?_bind_ok] at h
      have hcase := Outcome.failure?_mapM_eq_none h _ hc
      simp only [Outcome.failure?_bind_ok] at hcase
      exact ⟨n, Outcome.failure?_mapM_eq_none hcase _ ht⟩
    | implementation =>
      rw [solveWithin] at h
      exact ⟨n, h⟩
    | labeled | annotated =>
      rw [solveWithin] at h
      simp only [Outcome.pure_eq, Outcome.failure?_bind_ok] at h
      exact ⟨n, h⟩

/-- **When solving fails at no name, it fails in a part.** At most two units of fuel are spent on
the way there. -/
theorem exists_part_of_failure? (hR : R.Layered) (hp : p.Within R walk)
    (hname : p.ty.target? = none) {n : Nat} {c : Option TypeError}
    (h : (p.outcome (n + 1) walk expanding).failure? = some c) :
    ∃ q m, p.Part q ∧ m ≤ n ∧ n ≤ m + 1 ∧ (q.outcome m walk expanding).failure? = some c := by
  have hlayered := hp.layered hR
  have hweight := hp.weight_lt hR
  obtain ⟨C, b, ty⟩ := p
  unfold outcome at h
  cases ty with
  | reference | typeAlias => cases hname
  | parametric head params attributes =>
    rw [solveWithin] at h
    rcases Outcome.failure?_bind_eq_some.1 h with h | ⟨H, -, h⟩
    · rw [failure?_solveHeadWithin n hlayered hweight] at h
      exact ⟨⟨C, b, head⟩, n - 1, .head, by omega, by omega, h⟩
    · simp only [Outcome.pure_eq, Outcome.failure?_bind_ok] at h
      obtain ⟨t, ht, h⟩ := Outcome.exists_of_failure?_mapM h
      exact ⟨⟨C, b, t⟩, n, .param ht, by omega, by omega, h⟩
  | function arguments scope attributes =>
    rw [solveWithin] at h
    simp only [Outcome.pure_eq, Outcome.failure?_bind_ok] at h
    obtain ⟨t, ht, h⟩ := Outcome.exists_of_failure?_mapM h
    exact ⟨⟨C, b, t⟩, n, .argument ht, by omega, by omega, h⟩
  | tuple elements attributes =>
    rw [solveWithin] at h
    simp only [Outcome.pure_eq, Outcome.failure?_bind_ok] at h
    obtain ⟨t, ht, h⟩ := Outcome.exists_of_failure?_mapM h
    exact ⟨⟨C, b, t⟩, n, .element ht, by omega, by omega, h⟩
  | union cases attributes =>
    rw [solveWithin] at h
    simp only [Outcome.pure_eq, Outcome.failure?_bind_ok] at h
    obtain ⟨c, hc, h⟩ := Outcome.exists_of_failure?_mapM h
    simp only [Outcome.failure?_bind_ok] at h
    obtain ⟨t, ht, h⟩ := Outcome.exists_of_failure?_mapM h
    exact ⟨⟨C, true, t⟩, n, .case hc ht, by omega, by omega, h⟩
  | impl trait implementation =>
    rw [solveWithin] at h
    exact ⟨⟨C, b, implementation⟩, n, .implementation, by omega, by omega, h⟩
  | labeled label ty =>
    rw [solveWithin] at h
    simp only [Outcome.pure_eq, Outcome.failure?_bind_ok] at h
    exact ⟨⟨C, b, ty⟩, n, .labeled, by omega, by omega, h⟩
  | annotated directives ty =>
    rw [solveWithin] at h
    simp only [Outcome.pure_eq, Outcome.failure?_bind_ok] at h
    exact ⟨⟨C, b, ty⟩, n, .annotated, by omega, by omega, h⟩
  | _ => cases h

/-! ## Names -/

/-- Whether the name stays as it is at the place: it stands for a union, inside a union case. -/
def Kept (p : Place) (name : String) : Prop :=
  p.inUnion = true ∧ p.catalog.StandsForUnion name

theorem not_kept_of_keepsName {name : String} (hname : p.ty.target? = some name)
    (h : Expansion.keepsName ⟨p.catalog, walk, expanding, p.inUnion⟩ p.ty = .ok false) :
    ¬ p.Kept name := by
  rintro ⟨hin, O, t, hwalk, hunion⟩
  rw [Expansion.keepsName, if_pos hin] at h
  obtain ⟨⟨P, u⟩, hr, h⟩ := except_bind_eq_ok.1 h
  obtain ⟨u', hwalk', heq⟩ := (Catalog.walk_of_resolveWithin hr).of_target hname
  obtain ⟨-, rfl⟩ := hwalk.unique hwalk'
  rw [heq] at hunion
  have hfalse : u.inner.isUnion = false := Except.ok.inj h
  rw [hunion] at hfalse
  cases hfalse

/-- **Solving succeeds at a name only if the name is kept,** or is new and what it stands for is
solved. -/
theorem succeeds_target {name : String} (hname : p.ty.target? = some name) {n : Nat}
    (h : (p.outcome (n + 1) walk expanding).failure? = none) :
    p.Kept name ∨ name ∉ expanding ∧ ∃ O t, p.catalog.Walk [] p.ty O t ∧
      (outcome ⟨O, p.inUnion, t⟩ n walk (expanding ++ [name])).failure? = none := by
  rw [outcome, solveWithin_target hname] at h
  obtain ⟨kept, hkept, h⟩ := Outcome.failure?_bind_eq_none.1 h
  rw [Outcome.liftM_eq_ok] at hkept
  cases kept with
  | true => exact .inl (Expansion.keepsName_eq_true hname hkept)
  | false =>
    obtain ⟨⟨s, t⟩, hexpand, h⟩ := Outcome.failure?_bind_eq_none.1 h
    rw [Outcome.liftM_eq_ok] at hexpand
    obtain ⟨hnew, hwalk, hs⟩ := Expansion.expand_eq_ok hexpand
    rw [hs] at h
    exact .inr ⟨hnew, s.catalog, t, hwalk, h⟩

/-- **When solving fails at a name,** the name does not resolve, or it is being expanded already, or
solving fails for what it stands for. -/
theorem failure?_target {name : String} (hname : p.ty.target? = some name) {n : Nat}
    {c : Option TypeError} (h : (p.outcome (n + 1) walk expanding).failure? = some c) :
    (∃ e, c = some e ∧ p.catalog.resolveWithin walk [] p.ty = .error e) ∨
      ¬ p.Kept name ∧ (name ∈ expanding ∧ c = some (.cyclicAlias expanding name) ∨
        name ∉ expanding ∧ ∃ O t, p.catalog.Walk [] p.ty O t ∧
          (outcome ⟨O, p.inUnion, t⟩ n walk (expanding ++ [name])).failure? = some c) := by
  rw [outcome, solveWithin_target hname] at h
  rcases Outcome.failure?_bind_eq_some.1 h with h | ⟨kept, hkept, h⟩
  · -- Only inside a union case does the question need an answer, and there it is to resolve.
    obtain ⟨e, he, rfl⟩ := Outcome.failure?_liftM_eq_some.1 h
    rw [Expansion.keepsName] at he
    split_ifs at he
    · rcases except_bind_eq_error.1 he with he | ⟨_, -, he⟩
      · exact .inl ⟨e, rfl, he⟩
      · cases he
    · cases he
  · rw [Outcome.liftM_eq_ok] at hkept
    cases kept with
    | true => cases h
    | false =>
      have hnot := not_kept_of_keepsName hname hkept
      rcases Outcome.failure?_bind_eq_some.1 h with h | ⟨⟨s, t⟩, hexpand, h⟩
      · obtain ⟨e, he, rfl⟩ := Outcome.failure?_liftM_eq_some.1 h
        rw [Expansion.expand] at he
        rcases except_bind_eq_error.1 he with he | ⟨_, -, he⟩
        · rw [enterAlias] at he
          split_ifs at he with hmem
          cases he
          exact .inr ⟨hnot, .inl ⟨hmem, rfl⟩⟩
        · rcases except_bind_eq_error.1 he with he | ⟨_, -, he⟩
          · exact .inl ⟨e, rfl, he⟩
          · cases he
      · rw [Outcome.liftM_eq_ok] at hexpand
        obtain ⟨hnew, hwalk, hs⟩ := Expansion.expand_eq_ok hexpand
        rw [hs] at h
        exact .inr ⟨hnot, .inr ⟨hnew, s.catalog, t, hwalk, h⟩⟩

theorem Within.opened (hR : R.Layered) (hp : p.Within R walk) {O : Catalog} {t : Ty}
    (h : p.catalog.Walk [] p.ty O t) : Within R walk ⟨O, p.inUnion, t⟩ :=
  ⟨(h.under (hp.layered hR)).trans hp.under, hp.fuel⟩

/-! ## Fuel -/

/-- Fuel that is enough to solve a type while some names are being expanded: two units for each of
its nodes, and as much for each declaration that is still unseen as opening it may take. -/
def need (R : Catalog) (expanding : List String) (ty : Ty) : Nat :=
  2 * ty.weight + R.unseen expanding * (4 * R.weight + 4)

/-- Opening a name lowers the need. -/
theorem need_open (hR : R.Layered) (hp : p.Within R walk) {name : String}
    (hname : p.ty.target? = some name) (hnew : name ∉ expanding) {O : Catalog} {t : Ty}
    (h : p.catalog.Walk [] p.ty O t) :
    need R (expanding ++ [name]) t < need R expanding p.ty := by
  have hC := hp.layered hR
  have hweight : t.weight ≤ 1 + R.weight + R.weight := by
    have hone : p.ty.weight = 1 := Ty.weight_of_target hname
    have := h.weight_le hC
    have := hC.unseen_le_weight []
    have := hR.weight_le_of_under hp.under
    omega
  obtain ⟨P, target, hfind⟩ := h.find?_of_target hname
  have hseen := hR.weight_add_unseen_le (hR.find?_of_under hp.under hfind) hnew
  have hpos := target.weight_pos
  have hmul : (R.unseen (expanding ++ [name]) + 1) * (4 * R.weight + 4)
      ≤ R.unseen expanding * (4 * R.weight + 4) := Nat.mul_le_mul_right _ (by omega)
  rw [Nat.succ_mul] at hmul
  unfold need
  have := p.ty.weight_pos
  omega

/-- **Enough fuel is enough for a descent.** -/
theorem outcome_ne_outOfFuel (hR : R.Layered) (hp : p.Within R walk) {n : Nat}
    (hn : need R expanding p.ty ≤ n) : (p.outcome n walk expanding).failure? ≠ some none := by
  -- By strong induction, because the way to a head takes two steps at once.
  induction n using Nat.strongRecOn generalizing p expanding with
  | ind n ih =>
    intro h
    obtain ⟨n, rfl⟩ : ∃ m, n = m + 1 :=
      ⟨n - 1, by have := p.ty.weight_pos; unfold need at hn; omega⟩
    cases hname : p.ty.target? with
    | none =>
      obtain ⟨q, m, hq, hle, hge, hfail⟩ := exists_part_of_failure? hR hp hname h
      have hlt := hq.weight_lt
      refine ih m (by omega) (hp.part hq) ?_ hfail
      unfold need at hn ⊢
      omega
    | some name =>
      rcases failure?_target hname h with ⟨e, he, -⟩ | ⟨-, ⟨-, he⟩ | ⟨hnew, O, t, hwalk, hfail⟩⟩
      · cases he
      · cases he
      · have := need_open hR hp hname hnew hwalk
        exact ih n (by omega) (hp.opened hR hwalk) (show need R _ t ≤ n by omega) hfail

end Place

namespace Registry

theorem within (R : Registry) (T : Ty) :
    Place.Within R.toCatalog (R.walkFuel T) ⟨R.toCatalog, false, T⟩ := by
  refine ⟨.refl _, ?_⟩
  have := R.reach_le_walkFuel T
  omega

theorem need_le_descentFuel (R : Registry) (hR : R.toCatalog.Layered) (T : Ty) :
    Place.need R.toCatalog [] T ≤ R.descentFuel T := by
  have hreach : R.reach [T] = R.toCatalog.weight + T.weight + 4 := by
    rw [reach, R.weight_eq, weightAll, weightAll]
    omega
  have hunseen := hR.unseen_le_weight []
  unfold Place.need
  rw [descentFuel, walkFuel, hreach]
  generalize R.toCatalog.weight = W at *
  generalize R.toCatalog.unseen [] = u at *
  calc 2 * T.weight + u * (4 * W + 4)
      ≤ 2 * (W + T.weight + 4) + W * (4 * (W + T.weight + 4)) := by
        refine Nat.add_le_add (by omega) (Nat.mul_le_mul hunseen (by omega))
    _ ≤ 4 * (W + T.weight + 4) + W * (4 * (W + T.weight + 4)) := by omega
    _ = (W + 1) * 4 * (W + T.weight + 4) := by
        rw [Nat.mul_assoc, Nat.add_mul W 1, Nat.one_mul, Nat.add_comm]
    _ ≤ (W + T.weight + 4) * (W + T.weight + 4) * (W + T.weight + 4) := by
        refine Nat.mul_le_mul_right _ (Nat.mul_le_mul (by omega) (by omega))

/-- **Solving ends** in a layered registry, with a value or an error. -/
theorem solve_ne_outOfFuel {R : Registry} (hR : R.toCatalog.Layered) (T : Ty) :
    R.solve T ≠ .outOfFuel := by
  intro h
  refine Place.outcome_ne_outOfFuel hR (R.within T) (R.need_le_descentFuel hR T) ?_
  show (R.solve T).failure? = some none
  rw [h]
  rfl

end Registry

end TypeEngine

import TypeEngine.Proofs.Lockstep
import TypeEngine.Proofs.Trails

/-!
# Solutions

What solving gives in a layered registry, said without fuel and without the names that are being
expanded. A type that is solved in some layer, while some names are being expanded, has the same
solution in the whole registry (`Registry.solve_of_solveWithin`). So the solution of a type is made
of the solutions of its parts, and a name has the solution of the type that it stands for
(`Registry.solve_target`). The solution of a solution is itself (`Registry.solve_solution`).
-/

namespace TypeEngine

/-- A name that resolves in a layer resolves to the same in every layer above it. -/
theorem Catalog.Walk.lift {B C O : Catalog} {ty t : Ty} {name : String} (h : B.Walk [] ty O t)
    (hname : ty.target? = some name) (hC : C.Layered) (hB : B.Under C) : C.Walk [] ty O t := by
  cases h with
  | stop hty => cases ty <;> simp_all [Ty.stopsWalk, Ty.target?]
  | reference hnew hf hrest => exact Catalog.Walk.of_under (.reference hnew hf hrest) hC hB
  | typeAlias hrest => exact .typeAlias (hrest.of_under hC hB)
  | labeled | constructor => cases hname

/-! ## Solving in a higher layer -/

/-- `s'` is a place in the layers of `R`, above `s`, at which no more names are being expanded. -/
structure Expansion.Below (R : Catalog) (s s' : Expansion) : Prop where
  under : s.catalog.Under s'.catalog
  within : s'.catalog.Under R
  expanding : s'.expanding ⊆ s.expanding
  fuel : R.weight < s'.walk
  inUnion : s'.inUnion = s.inUnion

namespace Expansion.Below

variable {R : Catalog} {s s' : Expansion} {ty : Ty} {name : String}

/-- What a name resolves to at a place, it resolves to above it. -/
theorem resolveWithin (hR : R.Layered) (h : s.Below R s') (hname : ty.target? = some name)
    {O : Catalog} {t : Ty} (hwalk : s.catalog.Walk [] ty O t) :
    s'.catalog.resolveWithin s'.walk [] ty = .ok (O, t) := by
  have hs' := hR.of_under h.within
  have hweight := hR.weight_le_of_under h.within
  have hfuel := h.fuel
  refine (hwalk.lift hname hs' h.under).resolveWithin_eq_ok hs' ?_
  rw [Ty.weight_of_target hname]
  omega

theorem keepsName (hR : R.Layered) (h : s.Below R s') (hname : ty.target? = some name) :
    (liftM (s.keepsName ty) : Outcome Bool).Le false (liftM (s'.keepsName ty)) := by
  rw [Expansion.keepsName, Expansion.keepsName, h.inUnion]
  split_ifs
  · cases hr : s.catalog.resolveWithin s.walk [] ty with
    | error e => exact fun herrors => (by cases herrors)
    | ok r =>
      rw [h.resolveWithin hR hname (Catalog.walk_of_resolveWithin hr)]
      exact .refl _
  · exact .refl _

theorem expand (hR : R.Layered) (h : s.Below R s') (hname : ty.target? = some name)
    {t : Expansion} {u : Ty} (hexpand : s.expand name ty = .ok (t, u)) :
    ∃ t', s'.expand name ty = .ok (t', u) ∧ t.Below R t' := by
  obtain ⟨hnew, hwalk, ht⟩ := Expansion.expand_eq_ok hexpand
  have hunder := (hwalk.lift hname (hR.of_under h.within) h.under).under (hR.of_under h.within)
  have hnew' : name ∉ s'.expanding := fun hmem => hnew (h.expanding hmem)
  refine ⟨⟨t.catalog, s'.walk, s'.expanding ++ [name], s'.inUnion⟩, ?_, ?_⟩
  · rw [Expansion.expand, enterAlias, if_neg hnew']
    show (s'.catalog.resolveWithin s'.walk [] ty >>= fun r => _) = _
    rw [h.resolveWithin hR hname hwalk]
    rfl
  · rw [ht]
    refine ⟨.refl _, hunder.trans h.within, ?_, h.fuel, h.inUnion⟩
    exact List.append_subset.2 ⟨List.subset_append_of_subset_left _ h.expanding,
      List.subset_append_right _ _⟩

/-- Solving at a place stays in lockstep with solving above it. -/
theorem simulation (hR : R.Layered) : Simulation false fun s s' _ => s.Below R s' where
  part h _ := h
  case h _ _ := ⟨h.under, h.within, h.expanding, h.fuel, rfl⟩
  head h _ := h
  keepsName h hname := h.keepsName hR hname
  expand h hname hexpand := h.expand hR hname hexpand
  expand_error _ _ _ herrors := by cases herrors

end Expansion.Below

namespace Registry

variable {R : Registry} {ty S : Ty}

/-- The place where solving starts, with just enough fuel for every walk along names. -/
def start (R : Registry) : Expansion :=
  ⟨R.toCatalog, R.toCatalog.weight + 1, [], false⟩

/-- **A solution in a layer is the solution in the registry.** -/
theorem solve_of_solveWithin (hR : R.toCatalog.Layered) {n : Nat} {s : Expansion}
    (hs : s.catalog.Under R.toCatalog) (hin : s.inUnion = false)
    (h : solveWithin n s ty = .ok S) : R.solve ty = .ok S := by
  have hfuel := R.reach_le_walkFuel ty
  have hbelow : s.Below R.toCatalog ⟨R.toCatalog, R.walkFuel ty, [], false⟩ :=
    ⟨hs, .refl _, by simp, by simp only; omega, hin.symm⟩
  -- With more fuel than both have, they agree; less of it is enough for the registry.
  have hmore := (((Expansion.Below.simulation hR).le n).1
    (Nat.le_max_left n (R.descentFuel ty)) hbelow).eq_ok h
  exact (solveWithin_le_of_le (Nat.le_max_right n (R.descentFuel ty)) _ ty).eq_ok_of_ne
    (R.solve_ne_outOfFuel hR ty) hmore

theorem exists_solveWithin (hR : R.toCatalog.Layered) (h : R.solve ty = .ok S) :
    ∃ n, solveWithin n R.start ty = .ok S := by
  have hbelow : Expansion.Below R.toCatalog ⟨R.toCatalog, R.walkFuel ty, [], false⟩ R.start :=
    ⟨.refl _, .refl _, by simp [start], by simp [start], rfl⟩
  exact ⟨_, (((Expansion.Below.simulation hR).le _).1 (Nat.le_refl _) hbelow).eq_ok h⟩

theorem solve_eq (R : Registry) (ty : Ty) :
    ∃ n, R.solve ty = solveWithin (n + 1) ⟨R.toCatalog, R.walkFuel ty, [], false⟩ ty := by
  have hpos : 0 < R.descentFuel ty := by
    refine Nat.lt_of_lt_of_le ?_ (R.depth_le_descentFuel ty)
    cases ty <;> simp [Ty.depth]
  obtain ⟨n, hn⟩ : ∃ n, R.descentFuel ty = n + 1 := ⟨R.descentFuel ty - 1, by omega⟩
  exact ⟨n, by rw [solve, hn]⟩

/-! ## The solutions of parts -/

/-- The types of the second list are the solutions of those of the first. -/
abbrev SolveAll (R : Registry) (ts us : List Ty) : Prop :=
  List.Forall₂ (fun t u => R.solve t = .ok u) ts us

theorem solveAll_of_mapM (hR : R.toCatalog.Layered) {n : Nat} {s : Expansion}
    (hs : s.catalog.Under R.toCatalog) (hin : s.inUnion = false) {ts us : List Ty}
    (h : ts.mapM (solveWithin n s) = .ok us) : R.SolveAll ts us :=
  (Outcome.mapM_eq_ok.1 h).imp fun _ _ hsolve => solve_of_solveWithin hR hs hin hsolve

theorem exists_mapM (hR : R.toCatalog.Layered) {ts us : List Ty} (h : R.SolveAll ts us) :
    ∃ n, ts.mapM (solveWithin n R.start) = .ok us := by
  induction h with
  | nil => exact ⟨0, rfl⟩
  | @cons t u ts us ht _ ih =>
    obtain ⟨j, hj⟩ := exists_solveWithin hR ht
    obtain ⟨k, hk⟩ := ih
    refine ⟨max j k, Outcome.mapM_eq_ok.2 (.cons ?_ ?_)⟩
    · exact (solveWithin_le_of_le (Nat.le_max_left j k) _ t).eq_ok hj
    · exact (Outcome.mapM_eq_ok.1 hk).imp fun a _ h =>
        (solveWithin_le_of_le (Nat.le_max_right j k) _ a).eq_ok h

theorem solve_labeled (hR : R.toCatalog.Layered) {label : String} :
    R.solve (.labeled label ty) = .ok S ↔ ∃ U, R.solve ty = .ok U ∧ S = .labeled label U := by
  constructor
  · intro h
    obtain ⟨n, hn⟩ := R.solve_eq (.labeled label ty)
    rw [hn, solveWithin] at h
    obtain ⟨U, hU, h⟩ := Outcome.bind_eq_ok.1 h
    cases h
    exact ⟨U, solve_of_solveWithin hR (.refl _) rfl hU, rfl⟩
  · rintro ⟨U, hU, rfl⟩
    obtain ⟨n, hn⟩ := exists_solveWithin hR hU
    refine solve_of_solveWithin (n := n + 1) (s := R.start) hR (.refl _) rfl ?_
    rw [solveWithin, hn]
    rfl

/-- A type that is solved part by part, with the solutions put together by `make`. -/
theorem solve_parts (hR : R.toCatalog.Layered) {ts : List Ty} {make : List Ty → Ty}
    (hstep : ∀ n s, solveWithin (n + 1) s ty
      = ts.mapM (solveWithin n s) >>= fun us => .ok (make us)) :
    R.solve ty = .ok S ↔ ∃ us, R.SolveAll ts us ∧ S = make us := by
  constructor
  · intro h
    obtain ⟨n, hn⟩ := R.solve_eq ty
    rw [hn, hstep] at h
    obtain ⟨us, hus, h⟩ := Outcome.bind_eq_ok.1 h
    cases h
    exact ⟨us, solveAll_of_mapM hR (.refl _) rfl hus, rfl⟩
  · rintro ⟨us, hus, rfl⟩
    obtain ⟨n, hn⟩ := exists_mapM hR hus
    refine solve_of_solveWithin (n := n + 1) (s := R.start) hR (.refl _) rfl ?_
    rw [hstep, hn, Outcome.ok_bind]

theorem solve_tuple (hR : R.toCatalog.Layered) {elements : List Ty} {attributes : Attributes} :
    R.solve (.tuple elements attributes) = .ok S
      ↔ ∃ us, R.SolveAll elements us ∧ S = .tuple us attributes :=
  solve_parts hR fun _ _ => rfl

theorem solve_function (hR : R.toCatalog.Layered) {arguments : List Ty} {scope : Scope}
    {attributes : Attributes} :
    R.solve (.function arguments scope attributes) = .ok S
      ↔ ∃ us, R.SolveAll arguments us ∧ S = .function us scope attributes :=
  solve_parts hR fun _ _ => rfl

theorem solvedHead_eq_ok {head H : Ty} :
    R.solvedHead head = .ok H ↔ ∃ U, R.solve head = .ok U ∧ H = U.headOrSelf := by
  rw [solvedHead, Outcome.bind_eq_ok]
  refine exists_congr fun U => and_congr_right fun _ => ?_
  cases U <;> simp [Ty.headOrSelf, eq_comm]

theorem solve_parametric (hR : R.toCatalog.Layered) {head : Ty} {params : List Ty}
    {attributes : Attributes} :
    R.solve (.parametric head params attributes) = .ok S
      ↔ ∃ H us, R.solvedHead head = .ok H ∧ R.SolveAll params us ∧
        S = .parametric H us (H.attributes.union attributes) := by
  constructor
  · intro h
    obtain ⟨n, hn⟩ := R.solve_eq (.parametric head params attributes)
    have hfuel := R.reach_le_walkFuel (.parametric head params attributes)
    rw [hn, solveWithin] at h
    obtain ⟨H, hH, h⟩ := Outcome.bind_eq_ok.1 h
    obtain ⟨us, hus, h⟩ := Outcome.bind_eq_ok.1 h
    cases h
    refine ⟨H, us, solvedHead_eq_ok.2 ?_, solveAll_of_mapM hR (.refl _) rfl hus, rfl⟩
    obtain ⟨n, rfl⟩ : ∃ m, n = m + 1 := by
      cases n with
      | zero => cases hH
      | succ m => exact ⟨m, rfl⟩
    rw [solveHeadWithin_eq n hR (by simp only; omega)] at hH
    obtain ⟨U, hU, hH⟩ := Outcome.bind_eq_ok.1 hH
    cases hH
    exact ⟨U, solve_of_solveWithin hR (.refl _) rfl hU, rfl⟩
  · rintro ⟨H, us, hH, hus, rfl⟩
    obtain ⟨U, hU, rfl⟩ := solvedHead_eq_ok.1 hH
    obtain ⟨j, hj⟩ := exists_solveWithin hR hU
    obtain ⟨k, hk⟩ := exists_mapM hR hus
    refine solve_of_solveWithin (n := max j k + 2) (s := R.start) hR (.refl _) rfl ?_
    have hhead : solveWithin (max j k) R.start head = .ok U :=
      (solveWithin_le_of_le (Nat.le_max_left j k) _ head).eq_ok hj
    have hparams : params.mapM (solveWithin (max j k + 1) R.start) = .ok us :=
      Outcome.mapM_eq_ok.2 ((Outcome.mapM_eq_ok.1 hk).imp fun a _ h =>
        (solveWithin_le_of_le (by omega) _ a).eq_ok h)
    rw [solveWithin, solveHeadWithin_eq (max j k) (s := R.start) hR (Nat.lt_succ_self _), hhead,
      Outcome.ok_bind, Outcome.ok_bind, hparams]
    rfl

theorem solve_union {cases : List Case} {attributes : Attributes}
    (h : R.solve (.union cases attributes) = .ok S) : ∃ cases', S = .union cases' attributes := by
  obtain ⟨n, hn⟩ := R.solve_eq (.union cases attributes)
  rw [hn, solveWithin] at h
  obtain ⟨cases', -, h⟩ := Outcome.bind_eq_ok.1 h
  cases h
  exact ⟨cases', rfl⟩

@[simp] theorem solve_parameter (R : Registry) (name : String) (origin : Origin) :
    R.solve (.parameter name origin) = .ok (.parameter name origin) := by
  obtain ⟨n, hn⟩ := R.solve_eq (.parameter name origin)
  rw [hn]
  rfl

@[simp] theorem solve_concrete (R : Registry) (name : String) (attributes : Attributes) :
    R.solve (.concrete name attributes) = .ok (.concrete name attributes) := by
  obtain ⟨n, hn⟩ := R.solve_eq (.concrete name attributes)
  rw [hn]
  rfl

@[simp] theorem solve_numeric (R : Registry) (kind : Numeric) (attributes : Attributes) :
    R.solve (.numeric kind attributes) = .ok (.numeric kind attributes) := by
  obtain ⟨n, hn⟩ := R.solve_eq (.numeric kind attributes)
  rw [hn]
  rfl

/-! ## Names -/

/-- A name is solved by opening it and solving what it stands for. -/
theorem exists_walk_of_solve {name : String} (hname : ty.target? = some name)
    (h : R.solve ty = .ok S) :
    ∃ n s t, R.toCatalog.Walk [] ty s.catalog t ∧ s.inUnion = false ∧
      solveWithin n s t = .ok S := by
  obtain ⟨n, hn⟩ := R.solve_eq ty
  rw [hn, solveWithin_target hname] at h
  obtain ⟨kept, hkept, h⟩ := Outcome.bind_eq_ok.1 h
  cases hkept
  obtain ⟨⟨s, t⟩, hexpand, h⟩ := Outcome.bind_eq_ok.1 h
  obtain ⟨-, hwalk, hs⟩ := Expansion.expand_eq_ok (Outcome.liftM_eq_ok.1 hexpand)
  exact ⟨n, s, t, hwalk, by rw [hs], h⟩

/-- **A name has the solution of the type that it stands for.** -/
theorem solve_target (hR : R.toCatalog.Layered) {name : String} (hname : ty.target? = some name)
    (h : R.solve ty = .ok S) : ∃ t, R.resolve ty = .ok t ∧ R.solve t = .ok S := by
  obtain ⟨n, s, t, hwalk, hin, hsolve⟩ := exists_walk_of_solve hname h
  exact ⟨t, resolve_eq_ok_iff.2 ⟨s.catalog, hwalk⟩,
    solve_of_solveWithin hR (hwalk.under hR) hin hsolve⟩

/-! ## Solutions of solutions -/

theorem canonical_of_solve (hR : R.toCatalog.Layered) (h : R.solve ty = .ok S) :
    Canonical R.toCatalog.StandsForUnion false S :=
  ((canonical_of_solveWithin _).1 hR h).1

theorem solve_of_canonical (hR : R.toCatalog.Layered)
    (h : Canonical R.toCatalog.StandsForUnion false S) : R.solve S = .ok S := by
  have hfuel := R.reach_le_walkFuel S
  exact h.solveWithin_eq_self hR rfl rfl (by simp only; omega) (R.depth_le_descentFuel S)

/-- **A solution is its own solution.** -/
theorem solve_solution (hR : R.toCatalog.Layered) (h : R.solve ty = .ok S) : R.solve S = .ok S :=
  solve_of_canonical hR (canonical_of_solve hR h)

theorem solvedHead_solution (hR : R.toCatalog.Layered) {head H : Ty}
    (h : R.solvedHead head = .ok H) : R.solvedHead H = .ok H := by
  obtain ⟨U, hU, rfl⟩ := solvedHead_eq_ok.1 h
  have hcanon := canonical_of_solve hR hU
  rw [solvedHead_eq_ok]
  cases U with
  | parametric solved params attributes =>
    obtain ⟨hsolved, hpar⟩ := hcanon.head
    refine ⟨solved, solve_of_canonical hR hsolved, ?_⟩
    cases solved <;> first | rfl | cases hpar
  | _ => exact ⟨_, solve_of_canonical hR hcanon, rfl⟩

/-- The solved head of a parametric type belongs to the family of its head. -/
theorem family_solution (hR : R.toCatalog.Layered) {head H : Ty} (h : R.solvedHead head = .ok H) :
    R.family H = R.family head := by
  rw [family, family, h, solvedHead_solution hR h]

theorem exists_family {head H : Ty} (h : R.solvedHead head = .ok H) :
    ∃ name, R.family head = .ok name := by
  rw [family, h]
  cases H <;> exact ⟨_, rfl⟩

end Registry

end TypeEngine

import TypeEngine.Proofs.Cycles
import TypeEngine.Proofs.Substituting

/-!
# Solving and resolving end

A function that calls itself ends if there is no endless chain of calls, each made inside the one
before. For resolving and for solving the calls are listed one by one (`WalkCall.Calls`,
`SolveCall.Calls`), without fuel and without regard to which of them an error would spare.

Resolving follows every name at most once, so its calls end in every catalog (`WalkCall.ends`).

Solving opens a name only if it is not being opened already, and goes down into the parts of the
type in between. That bounds everything but one kind of call: a head that is solved to a parametric
type is followed by the head of that type, which may be larger than the type at hand. In a layered
catalog this second head is canonical. Solving a canonical type opens no name and gives the type
itself (`Canonical.ends`), so there is no third head (`SolveCall.Ends.head`).

The list of calls is complete: whatever ends has an outcome, in every catalog
(`SolveCall.Ends.returns`). The fuel that a registry sets aside is enough, and with more of it the
outcome stays the same, errors included (`Registry.solveWithin_eq_solve`).
-/

namespace TypeEngine

open Relation

/-! ## The calls of resolving -/

/-- A call of resolving: the names that were followed, and a type in its catalog. -/
structure WalkCall where
  catalog : Catalog
  chain : List String
  ty : Ty

namespace WalkCall

/-- `Calls c d`: to answer `c`, resolving calls itself with `d`. -/
inductive Calls : WalkCall → WalkCall → Prop
  | name {C O : Catalog} {chain : List String} {ty target : Ty} {name : String} :
      ty.target? = some name → name ∉ chain → C.find? name = some (O, target) →
      Calls ⟨C, chain, ty⟩ ⟨O, chain ++ [name], target⟩
  | labeled {C : Catalog} {chain : List String} {label : String} {ty : Ty} :
      Calls ⟨C, chain, .labeled label ty⟩ ⟨C, chain, ty⟩

/-- There is no endless chain of calls. -/
def Ends (c : WalkCall) : Prop :=
  Acc (fun d c => Calls c d) c

theorem ends_of_among {types : List Ty} {n : Nat} {C : Catalog} {chain : List String} {ty : Ty}
    (h : Catalog.Among types C ty) (hn : walkNeed types chain ty ≤ n) : Ends ⟨C, chain, ty⟩ := by
  induction n generalizing C chain ty with
  | zero =>
    have := Catalog.walkNeed_pos types chain ty
    omega
  | succ n ih =>
    refine Acc.intro _ fun d hd => ?_
    cases hd with
    | @name _ O _ _ target name hname hnew hfind =>
      have href : ty.reference? = some name := by
        obtain rfl | ⟨attributes, rfl⟩ := Ty.eq_of_target hname <;> exact hname
      obtain ⟨own, hsees⟩ := Catalog.exists_sees hfind
      have hlt := h.need_lt href hnew hsees
      exact ih (h.sees hsees).1 (by omega)
    | labeled =>
      rw [Catalog.walkNeed_labeled] at hn
      exact ih ⟨h.stored, h.reference⟩ (by omega)

/-- **Resolving ends,** in every catalog and with any names followed before. -/
theorem ends (c : WalkCall) : c.Ends :=
  ends_of_among (c.catalog.among_self c.ty) (Nat.le_refl _)

end WalkCall

/-! ## The calls of solving -/

/-- A call of solving, while the names in `expanding` are being opened: for a type at a place, or
for the head of a parametric type there. -/
inductive SolveCall where
  | type (p : Place) (expanding : List String)
  | head (p : Place) (expanding : List String)

namespace SolveCall

/-- `Calls c d`: to answer `c`, solving calls itself with `d`. -/
inductive Calls : SolveCall → SolveCall → Prop
  | part {p q : Place} {expanding : List String} : p.Part q →
      Calls (.type p expanding) (.type q expanding)
  | name {p : Place} {expanding : List String} {name : String} {O : Catalog} {t : Ty} :
      p.ty.target? = some name → ¬ p.Kept name → name ∉ expanding → p.catalog.Walk [] p.ty O t →
      Calls (.type p expanding) (.type ⟨O, p.inUnion, t⟩ (expanding ++ [name]))
  | head {C : Catalog} {b : Bool} {head : Ty} {params : List Ty} {attributes : Attributes}
      {expanding : List String} :
      Calls (.type ⟨C, b, .parametric head params attributes⟩ expanding)
        (.head ⟨C, b, head⟩ expanding)
  /-- The head is solved like any other type. -/
  | once {p : Place} {expanding : List String} : Calls (.head p expanding) (.type p expanding)
  /-- A parametric type in the place of the head gives way to its own head. -/
  | again {p : Place} {expanding : List String} {n walk : Nat} {solved : Ty} {params : List Ty}
      {attributes : Attributes} :
      p.outcome n walk expanding = .ok (.parametric solved params attributes) →
      solved.same p.ty = false →
      Calls (.head p expanding) (.head ⟨p.catalog, p.inUnion, solved⟩ expanding)

/-- There is no endless chain of calls. -/
def Ends (c : SolveCall) : Prop :=
  Acc (fun d c => Calls c d) c

end SolveCall

/-! ## Canonical types -/

theorem Canonical.part {U : String → Prop} {p q : Place} (h : Canonical U p.inUnion p.ty)
    (hq : p.Part q) : Canonical U q.inUnion q.ty := by
  cases hq with
  | head => exact h.head.1
  | param ht =>
    cases h with
    | parametric _ _ _ hparams => exact hparams _ ht
  | argument ht =>
    cases h with
    | function harguments => exact harguments _ ht
  | element ht =>
    cases h with
    | tuple helements => exact helements _ ht
  | case hc ht =>
    cases h with
    | union hcases => exact hcases _ hc _ ht
  | implementation => cases h
  | labeled =>
    cases h with
    | labeled hty => exact hty
  | annotated =>
    cases h with
    | annotated hty => exact hty

/-- A name in a canonical type is kept. -/
theorem Canonical.kept {p : Place} {name : String}
    (h : Canonical p.catalog.StandsForUnion p.inUnion p.ty) (hname : p.ty.target? = some name) :
    p.Kept name := by
  obtain ⟨C, b, ty⟩ := p
  cases h with
  | reference hunion =>
    cases hname
    exact ⟨rfl, hunion⟩
  | _ => cases hname

/-- Whatever fuel there is, solving a canonical type gives nothing else. -/
theorem Canonical.eq_of_outcome {p : Place} (hC : p.catalog.Layered)
    (h : Canonical p.catalog.StandsForUnion p.inUnion p.ty) {n walk : Nat}
    {expanding : List String} {S : Ty} (hS : p.outcome n walk expanding = .ok S) : S = p.ty := by
  have hbelow : Expansion.Below p.catalog ⟨p.catalog, walk, expanding, p.inUnion⟩
      ⟨p.catalog, p.catalog.weight + 1, expanding, p.inUnion⟩ :=
    ⟨.refl _, .refl _, fun _ hmem => hmem, by simp, rfl⟩
  -- With more fuel the outcome is still `S`, and with enough of it the type itself.
  have hmore := (((Expansion.Below.simulation hC).le n).1
    (Nat.le_max_left n p.ty.depth) hbelow).eq_ok hS
  have hself := h.solveWithin_eq_self hC (n := max n p.ty.depth)
    (s := ⟨p.catalog, p.catalog.weight + 1, expanding, p.inUnion⟩) rfl rfl (by simp)
    (Nat.le_max_right _ _)
  rw [hself] at hmore
  cases hmore
  rfl

namespace SolveCall

/-- A head that is canonical and no parametric type is not followed by another one. -/
theorem Ends.head_of_canonical {p : Place} (hC : p.catalog.Layered)
    (h : Canonical p.catalog.StandsForUnion p.inUnion p.ty) (hpar : p.ty.isParametric = false)
    {expanding : List String} (hends : Ends (.type p expanding)) : Ends (.head p expanding) := by
  refine Acc.intro _ fun d hd => ?_
  cases hd with
  | once => exact hends
  | again hsolved =>
    rw [← h.eq_of_outcome hC hsolved] at hpar
    cases hpar

end SolveCall

/-- **Solving a canonical type ends:** its calls go down into the type and nowhere else. -/
theorem Canonical.ends {p : Place} (hC : p.catalog.Layered)
    (h : Canonical p.catalog.StandsForUnion p.inUnion p.ty) (expanding : List String) :
    SolveCall.Ends (.type p expanding) := by
  induction hn : p.ty.weight using Nat.strongRecOn generalizing p with
  | ind n ih =>
    subst hn
    have hpart {q : Place} (hq : p.Part q) : SolveCall.Ends (.type q expanding) := by
      have hcatalog := hq.catalog_eq
      refine ih _ hq.weight_lt (hcatalog ▸ hC) ?_ rfl
      rw [hcatalog]
      exact h.part hq
    refine Acc.intro _ fun d hd => ?_
    cases hd with
    | part hq => exact hpart hq
    | name hname hnot => exact absurd (h.kept hname) hnot
    | @head C b head =>
      exact (hpart .head).head_of_canonical (p := ⟨C, b, head⟩) hC h.head.1 h.head.2

namespace SolveCall

/-- **A head has an end if the type in its place has one.** The head that comes after it is
canonical. -/
theorem Ends.head {p : Place} (hC : p.catalog.Layered) {expanding : List String}
    (h : Ends (.type p expanding)) : Ends (.head p expanding) := by
  refine Acc.intro _ fun d hd => ?_
  cases hd with
  | once => exact h
  | @again _ _ _ _ solved _ _ hsolved =>
    obtain ⟨hcanon, -⟩ := (canonical_of_solveWithin _).1 hC hsolved
    obtain ⟨hhead, hpar⟩ := hcanon.head
    let q : Place := ⟨p.catalog, p.inUnion, solved⟩
    exact (Canonical.ends (p := q) hC hhead expanding).head_of_canonical (p := q) hC hhead hpar

/-- **Solving ends** at every place in the layers of a catalog. -/
theorem ends {R : Catalog} (hR : R.Layered) {p : Place} (hp : p.catalog.Under R)
    (expanding : List String) : Ends (.type p expanding) := by
  induction hn : Place.need R expanding p.ty using Nat.strongRecOn generalizing p expanding with
  | ind n ih =>
    subst hn
    have hwithin : p.Within R (R.weight + 1) := ⟨hp, Nat.lt_succ_self _⟩
    have hpart {q : Place} (hq : p.Part q) : Ends (.type q expanding) := by
      refine ih _ ?_ (hq.catalog_eq ▸ hp) expanding rfl
      have hlt := hq.weight_lt
      unfold Place.need
      omega
    refine Acc.intro _ fun d hd => ?_
    cases hd with
    | part hq => exact hpart hq
    | name hname _ hnew hwalk =>
      exact ih _ (Place.need_open hR hwithin hname hnew hwalk) (hwithin.opened hR hwalk).under _ rfl
    | @head C b head => exact (hpart .head).head (p := ⟨C, b, head⟩) (hR.of_under hp)

/-! ## Calls and outcomes -/

/-- What solving answers to a call. -/
def answer (n walk : Nat) : SolveCall → Outcome Ty
  | .type p expanding => p.outcome n walk expanding
  | .head p expanding => solveHeadWithin n ⟨p.catalog, walk, expanding, p.inUnion⟩ p.ty

/-- With enough fuel the call has an outcome. -/
def Returns (walk : Nat) (c : SolveCall) : Prop :=
  ∃ n, ∀ m, n ≤ m → c.answer m walk ≠ .outOfFuel

/-- The parts of a type, all at once. -/
theorem exists_mapM {walk : Nat} {C : Catalog} {b : Bool} {expanding : List String} {ts : List Ty}
    (h : ∀ t ∈ ts, Returns walk (.type ⟨C, b, t⟩ expanding)) :
    ∃ n, ∀ m, n ≤ m → ts.mapM (solveWithin m ⟨C, walk, expanding, b⟩) ≠ .outOfFuel := by
  obtain ⟨n, hn⟩ := exists_bound h
  exact ⟨n, fun m hm => Outcome.ends_mapM (hn m hm)⟩

theorem returns_succ {walk : Nat} {c : SolveCall}
    (h : ∃ n, ∀ m, n ≤ m → c.answer (m + 1) walk ≠ .outOfFuel) : c.Returns walk := by
  obtain ⟨n, hn⟩ := h
  refine ⟨n + 1, fun m hm => ?_⟩
  obtain ⟨m, rfl⟩ : ∃ m', m = m' + 1 := ⟨m - 1, by omega⟩
  exact hn m (by omega)

/-- A head has an outcome if the calls it makes have one: that for the type in its place, and that
for the head of the parametric type it is solved to, if it is. -/
theorem returns_head {p : Place} {expanding : List String} {walk : Nat}
    (ih : ∀ d, Calls (.head p expanding) d → d.Returns walk) :
    Returns walk (.head p expanding) := by
  refine returns_succ ?_
  obtain ⟨i, hi⟩ := ih _ .once
  by_cases hagain : ∃ n solved params attributes,
      p.outcome n walk expanding = .ok (.parametric solved params attributes) ∧
        solved.same p.ty = false
  · obtain ⟨n, solved, params, attributes, hn, hsame⟩ := hagain
    obtain ⟨j, hj⟩ := ih _ (.again hn hsame)
    refine ⟨max n (max i j), fun m hm => ?_⟩
    have hm' : p.outcome m walk expanding = .ok (.parametric solved params attributes) :=
      (solveWithin_le_of_le (show n ≤ m by omega) _ _).eq_ok hn
    rw [answer, solveHeadWithin, ← Place.outcome, hm', Outcome.ok_bind]
    dsimp only
    rw [hsame]
    exact hj m (by omega)
  · refine ⟨i, fun m hm => ?_⟩
    rw [answer, solveHeadWithin]
    refine Outcome.ends_bind (hi m hm) fun u hu => ?_
    cases u with
    | parametric solved params attributes =>
      dsimp only
      by_cases hsame : solved.same p.ty = true
      · rw [if_pos hsame]
        simp
      · exact absurd ⟨m, solved, params, attributes, hu, by simpa using hsame⟩ hagain
    | _ => simp

/-- A name has an outcome, kept or opened. -/
theorem returns_name {C : Catalog} {b : Bool} {ty : Ty} {name : String}
    (hname : ty.target? = some name) {expanding : List String} {walk : Nat}
    (ih : ∀ d, Calls (.type ⟨C, b, ty⟩ expanding) d → d.Returns walk) :
    Returns walk (.type ⟨C, b, ty⟩ expanding) := by
  refine returns_succ ?_
  by_cases hopens : Expansion.keepsName ⟨C, walk, expanding, b⟩ ty = .ok false ∧
      ∃ s t, Expansion.expand ⟨C, walk, expanding, b⟩ name ty = .ok (s, t)
  · obtain ⟨hkept, s, t, hexpand⟩ := hopens
    obtain ⟨hnew, hwalk, hs⟩ := Expansion.expand_eq_ok hexpand
    obtain ⟨n, hn⟩ := ih _ (.name (p := ⟨C, b, ty⟩) hname
      (Place.not_kept_of_keepsName hname hkept) hnew hwalk)
    refine ⟨n, fun m hm => ?_⟩
    rw [answer, Place.outcome, solveWithin_target hname, hkept, hexpand, hs]
    exact hn m hm
  · refine ⟨0, fun m _ => ?_⟩
    rw [answer, Place.outcome, solveWithin_target hname]
    refine Outcome.ends_bind (Outcome.ends_liftM _) fun kept hkept => ?_
    rw [Outcome.liftM_eq_ok] at hkept
    cases kept with
    | true => simp
    | false =>
      refine Outcome.ends_bind (Outcome.ends_liftM _) fun r hr => ?_
      rw [Outcome.liftM_eq_ok] at hr
      exact absurd ⟨hkept, r.1, r.2, hr⟩ hopens

/-- **What ends has an outcome.** The calls of solving are no others than those listed. -/
theorem Ends.returns {c : SolveCall} (h : c.Ends) (walk : Nat) : c.Returns walk := by
  induction h with
  | intro c _ ih =>
    cases c with
    | head p expanding => exact returns_head ih
    | type p expanding =>
      obtain ⟨C, b, ty⟩ := p
      cases ty with
      | reference name => exact returns_name rfl ih
      | typeAlias name attributes => exact returns_name rfl ih
      | parametric head params attributes =>
        obtain ⟨i, hi⟩ := ih _ .head
        obtain ⟨j, hj⟩ := exists_mapM fun t ht => ih _ (.part (.param ht))
        refine returns_succ ⟨max i j, fun m hm => ?_⟩
        rw [answer, Place.outcome, solveWithin]
        refine Outcome.ends_bind (hi m (by omega)) fun H _ => ?_
        exact Outcome.ends_bind (hj m (by omega)) fun _ _ => (by simp)
      | function arguments scope attributes =>
        obtain ⟨n, hn⟩ := exists_mapM fun t ht => ih _ (.part (.argument ht))
        refine returns_succ ⟨n, fun m hm => ?_⟩
        rw [answer, Place.outcome, solveWithin]
        exact Outcome.ends_bind (hn m hm) fun _ _ => (by simp)
      | tuple elements attributes =>
        obtain ⟨n, hn⟩ := exists_mapM fun t ht => ih _ (.part (.element ht))
        refine returns_succ ⟨n, fun m hm => ?_⟩
        rw [answer, Place.outcome, solveWithin]
        exact Outcome.ends_bind (hn m hm) fun _ _ => (by simp)
      | union cases attributes =>
        obtain ⟨n, hn⟩ := exists_bound fun (c : Case) (hc : c ∈ cases) =>
          exists_mapM fun t ht => ih _ (.part (.case hc ht))
        refine returns_succ ⟨n, fun m hm => ?_⟩
        rw [answer, Place.outcome, solveWithin]
        refine Outcome.ends_bind (Outcome.ends_mapM fun c hc => ?_) fun _ _ => (by simp)
        exact Outcome.ends_bind (hn m hm c hc) fun _ _ => (by simp)
      | impl trait implementation =>
        obtain ⟨n, hn⟩ := ih _ (.part .implementation)
        exact returns_succ ⟨n, fun m hm => hn m hm⟩
      | labeled label ty =>
        obtain ⟨n, hn⟩ := ih _ (.part .labeled)
        refine returns_succ ⟨n, fun m hm => ?_⟩
        rw [answer, Place.outcome, solveWithin]
        exact Outcome.ends_bind (hn m hm) fun _ _ => (by simp)
      | annotated directives ty =>
        obtain ⟨n, hn⟩ := ih _ (.part .annotated)
        refine returns_succ ⟨n, fun m hm => ?_⟩
        rw [answer, Place.outcome, solveWithin]
        exact Outcome.ends_bind (hn m hm) fun _ _ => (by simp)
      | _ => exact returns_succ ⟨0, fun _ _ h => by cases h⟩

end SolveCall

/-! ## Enough fuel -/

namespace Expansion.Beside

variable {types : List Ty}

/-- A name is kept or opened, and then to the same type in the same catalog. -/
theorem settles_name {n m : Nat}
    (ih : ∀ {s s' : Expansion} {ty : Ty}, s.Beside types s' →
      (solveWithin n s ty).Settles (solveWithin m s' ty))
    {s s' : Expansion} (h : s.Beside types s') {ty : Ty} {name : String}
    (hname : ty.target? = some name) :
    (solveWithin (n + 1) s ty).Settles (solveWithin (m + 1) s' ty) := by
  have hkeeps : s'.keepsName ty = s.keepsName ty := by
    rw [Expansion.keepsName, Expansion.keepsName, h.inUnion, h.resolveWithin hname]
  rw [solveWithin_target hname, solveWithin_target hname, hkeeps]
  refine Outcome.Settles.bind (.refl _) fun kept _ => ?_
  split_ifs
  · exact .refl _
  · rw [h.expand hname, Expansion.expand_eq]
    split_ifs
    · exact .refl _
    · cases hr : s.catalog.resolveWithin s.walk [] ty with
      | error e => exact .refl _
      | ok r =>
        have hstored := (Catalog.walk_of_resolveWithin hr).stored_subset
        exact ih ⟨rfl, rfl, rfl, List.Subset.trans hstored h.stored, h.fuel⟩

/-- **Fuel changes nothing but whether there is enough of it,** neither fuel for walks nor fuel for
the descent. -/
theorem settles (n : Nat) :
    (∀ {m : Nat} {s s' : Expansion} {ty : Ty}, n ≤ m → s.Beside types s' →
      (solveWithin n s ty).Settles (solveWithin m s' ty)) ∧
    (∀ {m : Nat} {s s' : Expansion} {head : Ty}, n ≤ m → s.Beside types s' →
      (solveHeadWithin n s head).Settles (solveHeadWithin m s' head)) := by
  induction n with
  | zero => exact ⟨fun {_ _ _ _} _ _ h => absurd rfl h, fun {_ _ _ _} _ _ h => absurd rfl h⟩
  | succ n ih =>
    obtain ⟨ih, ihHead⟩ := ih
    refine ⟨fun {m s s' ty} hm h => ?_, fun {m s s' head} hm h => ?_⟩
    · obtain ⟨m, rfl⟩ : ∃ m', m = m' + 1 := ⟨m - 1, by omega⟩
      have hm : n ≤ m := by omega
      have hall {s s' : Expansion} (h : s.Beside types s') (ts : List Ty) :
          (ts.mapM (solveWithin n s)).Settles (ts.mapM (solveWithin m s')) :=
        .mapM fun t _ => ih hm h
      cases ty with
      | reference name => exact settles_name (ih hm) h rfl
      | typeAlias name attributes => exact settles_name (ih hm) h rfl
      | parametric head params attributes =>
        rw [solveWithin, solveWithin]
        refine (ihHead hm h).bind fun H _ => ?_
        exact (hall h params).bind fun _ _ => .refl _
      | function arguments scope attributes =>
        rw [solveWithin, solveWithin]
        exact (hall h arguments).bind fun _ _ => .refl _
      | tuple elements attributes =>
        rw [solveWithin, solveWithin]
        exact (hall h elements).bind fun _ _ => .refl _
      | union cases attributes =>
        rw [solveWithin, solveWithin]
        refine Outcome.Settles.bind (.mapM fun c _ => ?_) fun _ _ => .refl _
        have hcase : s.enterUnion.Beside types s'.enterUnion :=
          ⟨h.catalog, h.expanding, rfl, h.stored, h.fuel⟩
        exact (hall hcase c.params).bind fun _ _ => .refl _
      | impl trait implementation =>
        rw [solveWithin, solveWithin]
        exact ih hm h
      | labeled label ty =>
        rw [solveWithin, solveWithin]
        exact (ih hm h).bind fun _ _ => .refl _
      | annotated directives ty =>
        rw [solveWithin, solveWithin]
        exact (ih hm h).bind fun _ _ => .refl _
      | _ => exact .refl _
    · obtain ⟨m, rfl⟩ : ∃ m', m = m' + 1 := ⟨m - 1, by omega⟩
      have hm : n ≤ m := by omega
      rw [solveHeadWithin, solveHeadWithin]
      refine (ih hm h).bind fun u _ => ?_
      cases u with
      | parametric solved params attributes =>
        dsimp only
        split_ifs
        · exact .refl _
        · exact ihHead hm h
      | _ => exact .refl _

end Expansion.Beside

namespace Registry

variable {R : Registry} {T : Ty}

/-- **More fuel than a registry sets aside does not change what solving gives.** -/
theorem solveWithin_eq_solve (hends : R.solve T ≠ .outOfFuel) {n w : Nat}
    (hn : R.descentFuel T ≤ n) (hw : R.walkFuel T ≤ w) :
    solveWithin n ⟨R.toCatalog, w, [], false⟩ T = R.solve T := by
  have hfuel {ty : Ty} {name : String} (hname : ty.target? = some name) :
      walkNeed (ty :: R.stored) [] ty ≤ R.walkFuel T := by
    have hreach : R.reach [ty] ≤ R.reach [T] := by
      have hone := Ty.weight_of_target hname
      have hpos := T.weight_pos
      simp only [reach, weightAll]
      omega
    exact Nat.le_trans (R.walkNeed_le_walkFuel ty) (Nat.mul_le_mul hreach hreach)
  have hbeside : Expansion.Beside R.stored ⟨R.toCatalog, R.walkFuel T, [], false⟩
      ⟨R.toCatalog, w, [], false⟩ :=
    ⟨rfl, rfl, rfl, List.Subset.refl _, fun hname =>
      ⟨hfuel hname, Nat.le_trans (hfuel hname) hw⟩⟩
  exact ((Expansion.Beside.settles _).1 hn hbeside) hends

/-- How resolving ends: with a type, or with one of two errors. -/
theorem resolveOwned_cases (R : Registry) (T : Ty) :
    (∃ r, R.resolveOwned T = .ok r) ∨ ∃ e, R.resolveOwned T = .error e ∧
      (e.code = .typeNotFound ∨ e.code = .cyclicAlias) := by
  have hfinds := R.finds_resolveOwned T
  generalize R.resolveOwned T = result at hfinds
  cases hfinds with
  | stop r => exact .inl ⟨r, rfl⟩
  | miss _ _ _ _ _ hcode => exact .inr ⟨_, rfl, .inl hcode⟩
  | again _ _ _ hcode => exact .inr ⟨_, rfl, .inr hcode⟩

/-- How solving ends in a layered registry. -/
theorem solve_cases (hR : R.toCatalog.Layered) (T : Ty) :
    (∃ S, R.solve T = .ok S) ∨ ∃ e, R.solve T = .error e ∧
      (e.code = .typeNotFound ∨ e.code = .cyclicAlias) := by
  cases h : R.solve T with
  | ok S => exact .inl ⟨S, rfl⟩
  | error e =>
    refine .inr ⟨e, rfl, ?_⟩
    exact (solve_eq_error hR h).imp_right And.left
  | outOfFuel => exact absurd h (solve_ne_outOfFuel hR T)

end Registry

/-- **Solving and resolving always end.** In a registry that is built in layers, solving a type
makes no endless chain of calls, and each of its calls has an outcome. The fuel of the registry is
enough for it: with more, the outcome is the same. It is a type, or the error that a type was not
found or that an alias is cyclic. The same holds for resolving in every registry. -/
theorem solving_ends {B : Built} (hB : BuiltInLayers B) (R : Registry) (T : Ty) :
    (SolveCall.Ends (.type ⟨B.value.toCatalog, false, T⟩ []) ∧
      (∀ c walk, ReflTransGen SolveCall.Calls (.type ⟨B.value.toCatalog, false, T⟩ []) c →
        c.Returns walk) ∧
      (∀ n w, B.value.descentFuel T ≤ n → B.value.walkFuel T ≤ w →
        solveWithin n ⟨B.value.toCatalog, w, [], false⟩ T = B.value.solve T) ∧
      ((∃ S, B.value.solve T = .ok S) ∨ ∃ e, B.value.solve T = .error e ∧
        (e.code = .typeNotFound ∨ e.code = .cyclicAlias))) ∧
    WalkCall.Ends ⟨R.toCatalog, [], T⟩ ∧
    (∀ n, R.walkFuel T ≤ n → R.resolveWithin n [] T = R.resolveOwned T) ∧
    ((∃ t, R.resolve T = .ok t) ∨ ∃ e, R.resolve T = .error e ∧
      (e.code = .typeNotFound ∨ e.code = .cyclicAlias)) := by
  have hlayered := hB.layered
  have hends := SolveCall.ends hlayered (p := ⟨B.value.toCatalog, false, T⟩) (.refl _) []
  refine ⟨⟨hends, fun c walk hcalls => ?_, fun n w hn hw => ?_, ?_⟩, WalkCall.ends _, ?_, ?_⟩
  · -- What is called by a call that ends, ends.
    have hc : c.Ends := by
      induction hcalls with
      | refl => exact hends
      | tail _ hcall ih => exact ih.inv hcall
    exact hc.returns walk
  · exact Registry.solveWithin_eq_solve (Registry.solve_ne_outOfFuel hlayered T) hn hw
  · exact Registry.solve_cases hlayered T
  · exact fun n hn => R.resolveWithin_eq_resolveOwned hn
  · rcases R.resolveOwned_cases T with ⟨r, hr⟩ | ⟨e, he, hcode⟩
    · exact .inl ⟨r.2, by rw [Registry.resolve, hr]; rfl⟩
    · exact .inr ⟨e, by rw [Registry.resolve, he]; rfl, hcode⟩

/-- Rings and loops, each the head of the other, beside rows that are lists of numbers. -/
def spiral : Built :=
  ((Builder.withParent (Builder.new.declareAll
    [.concrete "Int",
      .parametric "List" [.parameter "a"]]).2.build).declareAll
    [.type "Row" ∅ [] (.parametric "List" [.reference "Int"]),
      .type "Ring" ∅ [] (.parametric "Loop" [.parameter "x"]),
      .type "Loop" ∅ [] (.parametric "Ring" [.parameter "y"])]).2.build

theorem spiral_builtInLayers : BuiltInLayers spiral :=
  .above (.root (lawful_registrations _)) (lawful_registrations _)

/-- A row as a head, which is solved to a list and then once more. -/
def rowOfInt : Ty :=
  .parametric (.reference "Row") [.reference "Int"] ∅

theorem spiral_facts :
    spiral.value.solve (.reference "Ring") = .error (.cyclicAlias ["Ring", "Loop"] "Ring") ∧
      spiral.value.solve rowOfInt
        = .ok (.parametric (.concrete "List" ∅) [.concrete "Int" ∅] ∅) := by
  decide +kernel

/-- Solving ends for a head that leads back to itself and for one that is solved twice, and so does
resolving a name of the survey, which the survey finds twice on the way. -/
theorem solving_ends_spiral :
    spiral.value.solve (.reference "Ring") = .error (.cyclicAlias ["Ring", "Loop"] "Ring") ∧
      SolveCall.Ends (.type ⟨spiral.value.toCatalog, false, .reference "Ring"⟩ []) ∧
      (∀ n w, spiral.value.descentFuel rowOfInt ≤ n → spiral.value.walkFuel rowOfInt ≤ w →
        solveWithin n ⟨spiral.value.toCatalog, w, [], false⟩ rowOfInt
          = .ok (.parametric (.concrete "List" ∅) [.concrete "Int" ∅] ∅)) ∧
      WalkCall.Ends ⟨survey.value.toCatalog, [], .reference "Point"⟩ := by
  obtain ⟨hring, hrow⟩ := spiral_facts
  obtain ⟨⟨hends, -⟩, -⟩ := solving_ends spiral_builtInLayers survey.value (.reference "Ring")
  obtain ⟨⟨-, -, hfuel, -⟩, -⟩ := solving_ends spiral_builtInLayers survey.value rowOfInt
  obtain ⟨-, hwalk, -⟩ := solving_ends spiral_builtInLayers survey.value (.reference "Point")
  refine ⟨hring, hends, fun n w hn hw => ?_, hwalk⟩
  rw [hfuel n w hn hw, hrow]

end TypeEngine

import TypeEngine.Proofs.Sufficiency

/-!
# What a failure of unification names

Unification fails in two ways. Two types do not fit, which is reported at the location of the call
and names two types; or a name cannot be followed on the way, which is reported as it is met and has
no location.

The two types that are named need not be those of the call. Some rules leave the answer to another
pair of types (`Registry.HandsOver`), and pass its failure on as it is. They open a name, take off a
label or directives, turn a method into its function, or compare a number with what implements a
trait. All other rules report what fails inside them on their own two types. So a failure is about
the pair at which the handing over ends (`unify_failure_names`), whatever the depth below this pair.
-/

namespace TypeEngine

open Relation

/-- Where each step is determined, steps come to one end at most. -/
theorem eq_of_ends {α : Type} {step : α → α → Prop} (hstep : Relator.RightUnique step) {a b c : α}
    (hb : ReflTransGen step a b) (hbend : ∀ next, ¬ step b next) (hc : ReflTransGen step a c)
    (hcend : ∀ next, ¬ step c next) : b = c := by
  rcases ReflTransGen.total_of_right_unique hstep hb hc with h | h
  · rcases ReflTransGen.cases_head h with rfl | ⟨next, hnext, -⟩
    · rfl
    · exact absurd hnext (hbend next)
  · rcases ReflTransGen.cases_head h with rfl | ⟨next, hnext, -⟩
    · rfl
    · exact absurd hnext (hcend next)

/-! ## The errors of an outcome -/

namespace Outcome

variable {α β : Type} {P : TypeError → Prop}

/-- If there is an error, it has the property. -/
def Errs (P : TypeError → Prop) (x : Outcome α) : Prop :=
  ∀ e, x = .error e → P e

theorem errs_ok (a : α) : (Outcome.ok a).Errs P := by
  intro e h
  cases h

theorem errs_outOfFuel : (outOfFuel : Outcome α).Errs P := by
  intro e h
  cases h

theorem errs_error {e : TypeError} (h : P e) : (Outcome.error e : Outcome α).Errs P := by
  rintro _ ⟨⟩
  exact h

theorem errs_liftM {x : Except TypeError α} (h : ∀ e, x = .error e → P e) :
    (liftM x : Outcome α).Errs P := by
  cases x with
  | ok a => exact errs_ok a
  | error e => exact errs_error (h e rfl)

theorem errs_ite {c : Prop} [Decidable c] {x y : Outcome α} (hx : x.Errs P) (hy : y.Errs P) :
    (if c then x else y).Errs P := by
  split_ifs
  · exact hx
  · exact hy

theorem Errs.bind {x : Outcome α} {f : α → Outcome β} (hx : x.Errs P)
    (hf : ∀ a, x = .ok a → (f a).Errs P) : (x >>= f).Errs P := by
  cases x with
  | ok a => exact hf a rfl
  | error e => exact errs_error (hx e rfl)
  | outOfFuel => exact errs_outOfFuel

theorem Errs.mapM {f : α → Outcome β} {l : List α} (h : ∀ a ∈ l, (f a).Errs P) :
    (l.mapM f).Errs P := by
  induction l with
  | nil => exact errs_ok []
  | cons a l ih =>
    rw [List.mapM_cons]
    refine (h a List.mem_cons_self).bind fun b _ => ?_
    exact (ih fun c hc => h c (List.mem_cons_of_mem a hc)).bind fun _ _ => errs_ok _

/-- The outcome with another error has this error. -/
theorem errs_mapError {x : Outcome α} {f : TypeError → TypeError} (h : ∀ e, P (f e)) :
    (x.mapError f).Errs P := by
  cases x with
  | ok a => exact errs_ok a
  | error e => exact errs_error (h e)
  | outOfFuel => exact errs_outOfFuel

end Outcome

/-! ## Names that cannot be followed -/

/-- The error says that a name is not declared or leads back to itself. It has no location. -/
def TypeError.IsLookup (e : TypeError) : Prop :=
  (e.code = .typeNotFound ∨ e.code = .cyclicAlias) ∧ e.location = none

theorem isLookup_of_enterAlias {chain : List String} {name : String} {e : TypeError}
    (h : enterAlias chain name = .error e) : e.IsLookup := by
  unfold enterAlias at h
  split_ifs at h
  cases h
  exact ⟨.inr rfl, rfl⟩

namespace Catalog

theorem isLookup_of_getOwned {C : Catalog} {name : String} {e : TypeError}
    (h : C.getOwned name = .error e) : e.IsLookup := by
  unfold getOwned at h
  split at h
  · cases h
  · cases h
    exact ⟨.inl rfl, rfl⟩

theorem isLookup_of_resolveWithin {n : Nat} {C : Catalog} {chain : List String} {ty : Ty}
    {e : TypeError} (h : C.resolveWithin n chain ty = .error e) : e.IsLookup := by
  induction n generalizing C chain ty with
  | zero =>
    cases h
    exact ⟨.inr rfl, rfl⟩
  | succ n ih =>
    cases ty with
    | reference name =>
      rcases except_bind_eq_error.1 h with h | ⟨chain', -, h⟩
      · exact isLookup_of_enterAlias h
      · rcases except_bind_eq_error.1 h with h | ⟨⟨owner, target⟩, -, h⟩
        · exact isLookup_of_getOwned h
        · exact ih h
    | typeAlias name attributes =>
      rcases except_bind_eq_error.1 h with h | ⟨chain', -, h⟩
      · exact isLookup_of_enterAlias h
      · rcases except_bind_eq_error.1 h with h | ⟨⟨owner, target⟩, -, h⟩
        · exact isLookup_of_getOwned h
        · rcases except_bind_eq_error.1 h with h | ⟨r, -, h⟩
          · exact ih h
          · cases h
    | labeled label inner =>
      rcases except_bind_eq_error.1 h with h | ⟨r, -, h⟩
      · exact ih h
      · cases h
    | constructor label union attributes => exact isLookup_of_getOwned h
    | _ => cases h

end Catalog

theorem Registry.isLookup_of_resolve {R : Registry} {ty : Ty} {e : TypeError}
    (h : R.resolve ty = .error e) : e.IsLookup :=
  Catalog.isLookup_of_resolveWithin (except_map_eq_error.1 h)

namespace Expansion

theorem isLookup_of_keepsName {s : Expansion} {ty : Ty} {e : TypeError}
    (h : s.keepsName ty = .error e) : e.IsLookup := by
  unfold keepsName at h
  split_ifs at h
  · rcases except_bind_eq_error.1 h with h | ⟨r, -, h⟩
    · exact Catalog.isLookup_of_resolveWithin h
    · cases h
  · cases h

theorem isLookup_of_expand {s : Expansion} {name : String} {ty : Ty} {e : TypeError}
    (h : s.expand name ty = .error e) : e.IsLookup := by
  rcases except_bind_eq_error.1 h with h | ⟨expanding, -, h⟩
  · exact isLookup_of_enterAlias h
  · rcases except_bind_eq_error.1 h with h | ⟨r, -, h⟩
    · exact Catalog.isLookup_of_resolveWithin h
    · cases h

end Expansion

open Outcome in
/-- **Solving fails at names only,** in every registry. Both the solver and its loop over heads are
followed with one unit of fuel less. -/
theorem errs_solveWithin (n : Nat) :
    (∀ s ty, (solveWithin n s ty).Errs TypeError.IsLookup) ∧
      ∀ s head, (solveHeadWithin n s head).Errs TypeError.IsLookup := by
  induction n with
  | zero => exact ⟨fun _ _ => errs_outOfFuel, fun _ _ => errs_outOfFuel⟩
  | succ n ih =>
    obtain ⟨ih, ihhead⟩ := ih
    have htarget {s : Expansion} {ty : Ty} {name : String} (hname : ty.target? = some name) :
        (solveWithin (n + 1) s ty).Errs TypeError.IsLookup := by
      rw [solveWithin_target hname]
      refine (errs_liftM fun _ => Expansion.isLookup_of_keepsName).bind fun keeps _ => ?_
      refine errs_ite (errs_ok _) ?_
      exact (errs_liftM fun _ => Expansion.isLookup_of_expand).bind fun r _ => ih r.1 r.2
    constructor
    · intro s ty
      cases ty with
      | reference | typeAlias => exact htarget rfl
      | parametric head params attributes =>
        refine (ihhead s head).bind fun _ _ => ?_
        exact (Errs.mapM fun t _ => ih s t).bind fun _ _ => errs_ok _
      | function arguments scope attributes =>
        exact (Errs.mapM fun t _ => ih s t).bind fun _ _ => errs_ok _
      | tuple elements attributes =>
        exact (Errs.mapM fun t _ => ih s t).bind fun _ _ => errs_ok _
      | union cases attributes =>
        refine Errs.bind (Errs.mapM fun c _ => ?_) fun _ _ => errs_ok _
        exact (Errs.mapM fun t _ => ih s.enterUnion t).bind fun _ _ => errs_ok _
      | impl trait implementation => exact ih s implementation
      | labeled label inner => exact (ih s inner).bind fun _ _ => errs_ok _
      | annotated directives inner => exact (ih s inner).bind fun _ _ => errs_ok _
      | _ => exact errs_ok _
    · intro s head
      refine (ih s head).bind fun solved _ => ?_
      cases solved with
      | parametric solved params attributes => exact errs_ite (errs_ok _) (ihhead s solved)
      | _ => exact errs_ok _

namespace Registry

theorem errs_solvedHead (R : Registry) (head : Ty) :
    (R.solvedHead head).Errs (fun e => R.solve head = .error e) := by
  refine Outcome.Errs.bind (fun _ => id) fun solved _ => ?_
  cases solved <;> exact Outcome.errs_ok _

theorem errs_family (R : Registry) (head : Ty) :
    (R.family head).Errs (fun e => R.solve head = .error e) := by
  refine Outcome.Errs.bind (R.errs_solvedHead head) fun solved _ => ?_
  cases solved <;> exact Outcome.errs_ok _

/-! ## Handing over -/

/-- A pair is handed over to one other pair at most. -/
theorem HandsOver.rightUnique (R : Registry) : Relator.RightUnique R.HandsOver := by
  intro p q r hq hr
  cases hq with
  | name hname ht =>
    cases hr with
    | name _ hu =>
      rw [ht] at hu
      cases hu
      rfl
    | _ => cases hname
  | labeled =>
    cases hr with
    | name hname => cases hname
    | labeled => rfl
  | annotated =>
    cases hr with
    | name hname => cases hname
    | annotated => rfl
  | method =>
    cases hr with
    | name hname => cases hname
    | method => rfl
  | represented ht himpl =>
    cases hr with
    | name hname => cases hname
    | represented hu himpl' =>
      rw [ht] at hu
      cases hu
      rw [himpl] at himpl'
      cases himpl'
      rfl

/-- The error is that of a name which the unification of `a` and `b` follows itself: one of the two
is such a name, or the head of the expected type or of what the actual type stands for is solved. -/
inductive LooksUp (R : Registry) (a b : Ty) (e : TypeError) : Prop
  | expected : R.resolve a = .error e → LooksUp R a b e
  | actual : R.resolve b = .error e → LooksUp R a b e
  | expectedHead {head : Ty} {params : List Ty} {attributes : Attributes} :
      a = .parametric head params attributes → R.solve head = .error e → LooksUp R a b e
  | actualHead {t head : Ty} {params : List Ty} {attributes : Attributes} :
      R.resolve b = .ok t → t.inner = .parametric head params attributes →
      R.solve head = .error e → LooksUp R a b e

theorem LooksUp.isLookup {R : Registry} {a b : Ty} {e : TypeError} (h : R.LooksUp a b e) :
    e.IsLookup := by
  cases h with
  | expected h => exact isLookup_of_resolve h
  | actual h => exact isLookup_of_resolve h
  | expectedHead _ h => exact (errs_solveWithin _).1 _ _ e h
  | actualHead _ _ h => exact (errs_solveWithin _).1 _ _ e h

end Registry

namespace Setting

open Outcome

variable {s : Setting} {go : Ty → Ty → Outcome Ty} {a b : Ty}

/-- The error is about `a` and `b` themselves: they do not fit, or a name is not found. -/
def Reports (s : Setting) (a b : Ty) (e : TypeError) : Prop :=
  e = .incompatible s.location a b ∨ s.types.LooksUp a b e

/-! ## One step after another -/

theorem errs_clash {α : Type} : (s.clash a b : Outcome α).Errs (s.Reports a b) :=
  errs_error (.inl rfl)

/-- What fails between arguments is reported on the types that they are arguments of. -/
theorem errs_unifyAll (left right : List Ty) :
    (s.unifyAll go a b left right).Errs (s.Reports a b) :=
  errs_ite (Errs.mapM fun _ _ => errs_mapError fun _ => .inl rfl) errs_clash

theorem errs_boundTrait : (s.boundTrait a).Errs (s.Reports a b) := by
  cases a with
  | parametric head params attributes =>
    refine Errs.bind (fun e he => .inr (.expectedHead rfl (s.types.errs_solvedHead head e he))) ?_
    intro solved _
    cases solved <;> exact errs_ok _
  | _ => exact errs_ok _

theorem errs_family_of_compares {head : Ty} (h : s.ComparesHead a b head) :
    (s.types.family head).Errs (s.Reports a b) := by
  intro e he
  have hsolve := s.types.errs_family head e he
  cases h with
  | expected heq => exact .inr (.expectedHead heq hsolve)
  | actual ht heq => exact .inr (.actualHead ht heq hsolve)

/-! ## From the call to the pair that is named -/

/-- The errors of a rule that hands nothing over are about its own types. -/
theorem Paired.reports {s' : Setting} {f : Ty → Ty} {h : Trait → Trait}
    {go' : Ty → Ty → Outcome Ty} {b' : Ty} {x y : Outcome Ty}
    (hxy : Paired s s' f h go go' a b b' x y) (hend : ∀ next, ¬ s.types.HandsOver (a, b) next) :
    x.Errs (s.Reports a b) := by
  induction hxy with
  | answer => exact errs_ok _
  | clash => exact errs_clash
  | expected _ ih =>
    refine (errs_liftM fun _ he => .inr (.expected he)).bind fun t ht => ?_
    exact ih t (liftM_eq_ok.1 ht)
  | actual _ ih =>
    refine (errs_liftM fun _ he => .inr (.actual he)).bind fun t ht => ?_
    exact ih t (liftM_eq_ok.1 ht)
  | bound _ ih => exact errs_boundTrait.bind fun trait? _ => ih trait?
  | family hhead _ ih => exact (errs_family_of_compares hhead).bind fun name _ => ih name
  | ask | traits => exact errs_ite (errs_ok _) errs_clash
  | components => exact (errs_unifyAll _ _).bind fun _ _ => errs_ok _
  | through hover => exact absurd hover (hend _)
  | methods ha hb hsame =>
    subst ha hb
    exact absurd (.method hsame) (hend _)
  | represented ha ht himpl =>
    subst ha
    exact absurd (.represented ht himpl) (hend _)
  | @attempt trait c t _ _ _ _ _ ih =>
    -- What fails between the implementation and the actual type is reported on the whole.
    cases go c t with
    | ok u => exact errs_ok _
    | error e => exact ih
    | outOfFuel => exact errs_outOfFuel

/-- **A pair that is not handed over is itself what the failure is about.** -/
theorem reports_of_not_handsOver {n : Nat} (h : ∀ next, ¬ s.types.HandsOver (a, b) next) :
    (s.unifyWithin (n + 1) a b).Errs (s.Reports a b) :=
  (paired_self n a b).reports h

/-- **Every failure is about the pair at which the handing over ends.** -/
theorem exists_reports {n : Nat} {e : TypeError} (he : s.unifyWithin n a b = .error e) :
    ∃ c d, ReflTransGen s.types.HandsOver (a, b) (c, d) ∧
      (∀ next, ¬ s.types.HandsOver (c, d) next) ∧ s.Reports c d e := by
  induction n generalizing a b with
  | zero => cases he
  | succ n ih =>
    by_cases h : ∃ next, s.types.HandsOver (a, b) next
    · obtain ⟨⟨c, d⟩, hnext⟩ := h
      obtain ⟨c', d', hreach, hend, hreports⟩ := ih (error_of_handsOver hnext he)
      exact ⟨c', d', .head hnext hreach, hend, hreports⟩
    · have hend := not_exists.1 h
      exact ⟨a, b, .refl, hend, reports_of_not_handsOver hend e he⟩

end Setting

/-- **What a failure of unification names.** A call is handed over from one pair of types to another
until a pair `(a, b)` that is not handed over, and there is one such end at most. If the call fails,
then `a` and `b` do not fit, and the error has the location of the call and the texts of both; or a
name that `a`, `b` or their heads need cannot be followed, and the error has no location. Only where
nothing is handed over are `a` and `b` the types of the call. -/
theorem unify_failure_names (R : Registry) (implements : Checker) (location : Location) (T₁ T₂ : Ty)
    {e : TypeError} (he : R.unify location T₁ T₂ implements = .error e) :
    ∃ a b, ReflTransGen R.HandsOver (T₁, T₂) (a, b) ∧ (∀ next, ¬ R.HandsOver (a, b) next) ∧
      (∀ last, ReflTransGen R.HandsOver (T₁, T₂) last → (∀ next, ¬ R.HandsOver last next) →
        last = (a, b)) ∧
      (e = ⟨.incompatibleTypes, some location,
          [("type1", a.representation), ("type2", b.representation)]⟩ ∨
        (e.code = .typeNotFound ∨ e.code = .cyclicAlias) ∧ e.location = none ∧
          R.LooksUp a b e) := by
  obtain ⟨a, b, hreach, hend, hreports⟩ := Setting.exists_reports he
  refine ⟨a, b, hreach, hend, ?_, ?_⟩
  · intro last hlast hlastend
    exact eq_of_ends (Registry.HandsOver.rightUnique R) hlast hlastend hreach hend
  · rcases hreports with rfl | hlooks
    · exact .inl rfl
    · exact .inr ⟨hlooks.isLookup.1, hlooks.isLookup.2, hlooks⟩

/-- Two types, and another name for one of them. -/
def roster : Registry :=
  (Builder.new.declareAll [.concrete "Int", .concrete "Char",
    .type "Age" ∅ [] (.reference "Int")]).2.build.value

theorem roster_facts :
    (roster.unify default (.labeled "of" (.reference "Age")) (.reference "Char") fun _ _ => false)
        = .error (.incompatible default (.concrete "Int" ∅) (.reference "Char")) ∧
      roster.resolve (.reference "Age") = .ok (.concrete "Int" ∅) ∧
      (roster.unify default (.reference "Word") (.reference "Char") fun _ _ => false)
        = .error (.typeNotFound "Word") := by
  decide +kernel

/-- The labelled name is handed over to the type it stands for, which the error names. A name that
is not declared is reported without the location of the call. -/
theorem unify_failure_names_roster :
    (∃ e, (roster.unify default (.labeled "of" (.reference "Age")) (.reference "Char") fun _ _ =>
        false) = .error e ∧
      e = ⟨.incompatibleTypes, some default, [("type1", "Int"), ("type2", "Char")]⟩) ∧
      ∃ e, (roster.unify default (.reference "Word") (.reference "Char") fun _ _ => false)
        = .error e ∧ e.code = .typeNotFound ∧ e.location = none := by
  obtain ⟨hage, hresolve, hword⟩ := roster_facts
  refine ⟨⟨_, hage, ?_⟩, ⟨_, hword, rfl, ?_⟩⟩
  · obtain ⟨a, b, -, -, hlast, hnames | ⟨hcode, -⟩⟩ := unify_failure_names roster _ _ _ _ hage
    · have hpair : (.concrete "Int" ∅, .reference "Char") = (a, b) := by
        refine hlast _ (.head .labeled (.single (.name rfl hresolve))) ?_
        intro next hnext
        cases hnext with
        | name hname => cases hname
      cases hpair
      exact hnames
    · rcases hcode with hcode | hcode <;> cases hcode
  · obtain ⟨a, b, -, -, -, hnames | ⟨-, hnone, -⟩⟩ := unify_failure_names roster _ _ _ _ hword
    · cases hnames
    · exact hnone

end TypeEngine

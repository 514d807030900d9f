import TypeEngine.Proofs.FirstOrder

/-!
# What the rules of unification answer

`Setting.Answers s go a b u` says that the rule for the expected type `a` gives `u` for the actual
type `b`, where `go` gives the results of its calls. There is a constructor for each way to succeed.
One step of unification succeeds exactly along these ways (`Setting.unifyWithin_succ_eq_ok`), so
results of unification are found, and taken apart, without opening a rule again.
-/

namespace TypeEngine

/-! ## Along three lists -/

/-- The property holds at every position of three lists of one length. -/
structure Along (P : Ty → Ty → Ty → Prop) (as bs us : List Ty) : Prop where
  length_actual : bs.length = as.length
  length_result : us.length = as.length
  pointwise : ∀ (i : Nat) a b u, as[i]? = some a → bs[i]? = some b → us[i]? = some u → P a b u

theorem exists_getElem? {α β : Type} {l : List α} {l' : List β} (h : l'.length = l.length) {i : Nat}
    {a : α} (ha : l[i]? = some a) : ∃ b, l'[i]? = some b := by
  obtain ⟨hi, -⟩ := List.getElem?_eq_some_iff.1 ha
  exact ⟨_, List.getElem?_eq_getElem (h ▸ hi)⟩

theorem forall₂_iff_getElem? {α β : Type} {P : α → β → Prop} {l : List α} {l' : List β} :
    List.Forall₂ P l l'
      ↔ l'.length = l.length ∧ ∀ (i : Nat) a b, l[i]? = some a → l'[i]? = some b → P a b := by
  rw [List.forall₂_iff_get, eq_comm]
  refine and_congr_right fun _ => ⟨fun h i a b ha hb => ?_, fun h i hi hi' => ?_⟩
  · obtain ⟨hi, rfl⟩ := List.getElem?_eq_some_iff.1 ha
    obtain ⟨hi', rfl⟩ := List.getElem?_eq_some_iff.1 hb
    exact h i hi hi'
  · exact h i _ _ (List.getElem?_eq_getElem hi) (List.getElem?_eq_getElem hi')

/-- A list that is chosen position by position. -/
theorem exists_list {α : Type} {P : Nat → α → Prop} {n : Nat} (h : ∀ i < n, ∃ a, P i a) :
    ∃ l : List α, l.length = n ∧ ∀ (i : Nat) a, l[i]? = some a → P i a := by
  choose f hf using h
  refine ⟨List.ofFn fun i : Fin n => f i i.isLt, by simp, fun i a ha => ?_⟩
  rw [List.getElem?_ofFn] at ha
  split_ifs at ha with hi
  · cases ha
    exact hf i hi

theorem exists_along {P : Ty → Ty → Ty → Prop} {as bs : List Ty} (hlength : bs.length = as.length)
    (h : ∀ (i : Nat) a b, as[i]? = some a → bs[i]? = some b → ∃ u, P a b u) :
    ∃ us, Along P as bs us := by
  have hposition (i : Nat) (hi : i < as.length) :
      ∃ u, ∀ a b, as[i]? = some a → bs[i]? = some b → P a b u := by
    have ha := List.getElem?_eq_getElem hi
    obtain ⟨b, hb⟩ := exists_getElem? hlength ha
    obtain ⟨u, hu⟩ := h i _ b ha hb
    refine ⟨u, fun a' b' ha' hb' => ?_⟩
    rw [ha] at ha'
    rw [hb] at hb'
    cases ha'
    cases hb'
    exact hu
  obtain ⟨us, hlen, hus⟩ := exists_list hposition
  exact ⟨us, hlength, hlen, fun i a b u ha hb hu => hus i u hu a b ha hb⟩

/-! ## The ways to succeed -/

namespace Ty

/-- Whether the type goes by its components. -/
def isStructure : Ty → Bool
  | .parametric .. | .function .. | .tuple .. => true
  | _ => false

/-- Whether a variable fits the type, whatever is inside. -/
def takesVariable : Ty → Bool
  | .concrete .. | .numeric .. | .union .. | .intersection .. => true
  | .parametric .. | .function .. | .tuple .. => true
  | _ => false

/-- Whether the type fits itself before anything is looked up. -/
def takesItself : Ty → Bool
  | .union .. | .method _ | .impl .. | .fixedTrait _ => true
  | _ => false

/-- Whether the type is compared as a whole with what the actual type stands for. -/
def isWhole : Ty → Bool
  | .union .. | .intersection .. | .trait _ => true
  | _ => false

/-- What a type that proves the trait by itself is taken for. -/
def proof? (trait : Trait) : Ty → Option Ty
  | .fixedTrait fixed => if fixed.name = trait.name then some (.fixedTrait fixed) else none
  | .trait other => if other.same trait then some (.fixedTrait other) else none
  | _ => none

/-- Whether the type shows the trait by its name. -/
def showsTrait (fixed : Trait) : Ty → Bool
  | .trait other | .impl other _ => other.name = fixed.name
  | _ => false

/-- What is compared before anything is looked up stands for itself. -/
theorem stopsWalk_of_same {a b : Ty} (ha : a.takesItself = true) (h : a.same b = true) :
    b.stopsWalk = true ∧ b.inner = b ∧ b.isParameter = false := by
  cases a with
  | union | method | impl | fixedTrait =>
    cases b <;> first | exact ⟨rfl, rfl, rfl⟩ | simp [same, sameUnder] at h
  | _ => cases ha

theorem inner_of_takesVariable {a : Ty} (ha : a.takesVariable = true) :
    a.stopsWalk = true ∧ a.inner = a ∧ a.isParameter = false := by
  cases a <;> first | exact ⟨rfl, rfl, rfl⟩ | cases ha

end Ty

namespace Setting

/-- `s.Answers go a b u`: the rule for `a` gives `u` for the actual type `b`, with `go` for its
calls. -/
inductive Answers (s : Setting) (go : Ty → Ty → Outcome Ty) : Ty → Ty → Ty → Prop
  /-- A variable takes what the actual type stands for. -/
  | parameter {name : String} {origin : Origin} {b t : Ty} : s.types.resolve b = .ok t →
      Answers s go (.parameter name origin) b t
  | absorbed {a b t : Ty} : a.takesVariable = true → s.types.resolve b = .ok t →
      t.inner.isParameter = true → Answers s go a b a
  /-- Names, labels and directives of the expected type are passed through. -/
  | name {a b t u : Ty} {name : String} : a.lookup? = some name → s.types.resolve a = .ok t →
      go t b = .ok u → Answers s go a b u
  | labeled {label : String} {t b u : Ty} : go t b = .ok u → Answers s go (.labeled label t) b u
  | annotated {directives : List Directive} {t b u : Ty} : go t b = .ok u →
      Answers s go (.annotated directives t) b u
  | concrete {name : String} {attributes : Attributes} {b t : Ty} : s.types.resolve b = .ok t →
      t.inner.same (.concrete name attributes) = true →
      Answers s go (.concrete name attributes) b t
  | numeric {kind kind' : Numeric} {attributes attributes' : Attributes} {b t : Ty} :
      s.types.resolve b = .ok t → t.inner = .numeric kind' attributes' →
      kind.canRepresent kind' = true →
      Answers s go (.numeric kind attributes) b (.numeric kind attributes)
  | represented {kind : Numeric} {attributes : Attributes} {trait : Trait} {b t u v : Ty} :
      s.types.resolve b = .ok t → t.inner = .impl trait u →
      go (.numeric kind attributes) u = .ok v →
      Answers s go (.numeric kind attributes) b (.numeric kind attributes)
  | itself {a b : Ty} : a.takesItself = true → a.same b = true → Answers s go a b a
  | whole {a b t : Ty} : a.isWhole = true → s.types.resolve b = .ok t → t.inner.same a = true →
      Answers s go a b a
  /-- A case label that is spelled like one of the union's. -/
  | label {cases : List Case} {attributes attributes' : Attributes} {label union : String} :
      cases.any (·.label == label) = true →
      Answers s go (.union cases attributes) (.constructor label union attributes')
        (.union cases attributes)
  | traits {params : List Ty} {attributes : Attributes} {b t : Ty} : s.types.resolve b = .ok t →
      params.all (s.hasTraitNamed t.inner) = true →
      Answers s go (.intersection params attributes) b (.intersection params attributes)
  /-- A trait that is applied to parameters takes itself, and every type that has it. -/
  | bound {a b t : Ty} {trait : Trait} : s.boundTrait a = .ok (some trait) →
      s.types.resolve b = .ok t → t.inner.isParameter = false → a.same t.inner = true →
      Answers s go a b a
  | implemented {a b t : Ty} {trait : Trait} : s.boundTrait a = .ok (some trait) →
      s.types.resolve b = .ok t → t.inner.isParameter = false → a.same t.inner = false →
      s.implements trait t.inner = true → Answers s go a b (.impl trait t.inner)
  /-- Compound types of one kind, component by component. -/
  | compound {a b t : Ty} {us : List Ty} : s.boundTrait a = .ok none → s.types.resolve b = .ok t →
      s.types.SameShell a t.inner →
      Along (fun c d u => go c d = .ok u) a.components t.inner.components us →
      Answers s go a b (a.rebuild us t.inner)
  | method {m : Method} {b u : Ty} : (Ty.method m).same b = false →
      go m.toFunction b.asFunction = .ok u → Answers s go (.method m) b u
  | proof {trait : Trait} {c b u : Ty} : b.proof? trait = some u →
      Answers s go (.impl trait c) b u
  | implementation {trait : Trait} {c b t u : Ty} : (Ty.impl trait c).same b = false →
      b.proof? trait = none → s.types.resolve b = .ok t → go c t = .ok u →
      Answers s go (.impl trait c) b (.impl trait u)
  /-- The implementation does not fit, but the actual type has the trait as well. -/
  | proven {trait : Trait} {c b t : Ty} {e : TypeError} : (Ty.impl trait c).same b = false →
      b.proof? trait = none → s.types.resolve b = .ok t → go c t = .error e →
      s.implements trait t = true → Answers s go (.impl trait c) b (.fixedTrait trait)
  | shown {fixed : Trait} {b : Ty} : b.showsTrait fixed = true →
      Answers s go (.fixedTrait fixed) b (.fixedTrait fixed)
  | confirmed {fixed : Trait} {b t : Ty} : s.types.resolve b = .ok t →
      s.implements fixed t = true → Answers s go (.fixedTrait fixed) b (.fixedTrait fixed)

variable {s : Setting} {go : Ty → Ty → Outcome Ty} {a b t u : Ty}

/-! ## What a rule gives is one of the answers -/

theorem unifyAll_eq_ok {left right us : List Ty} :
    s.unifyAll go a b left right = .ok us
      ↔ Along (fun a b u => go a b = .ok u) left right us := by
  have hmap (x : Outcome Ty) (f : TypeError → TypeError) (u : Ty) :
      x.mapError f = .ok u ↔ x = .ok u := by
    cases x <;> simp [Outcome.mapError]
  unfold unifyAll
  split_ifs with hlength
  · rw [Outcome.mapM_eq_ok, forall₂_iff_getElem?]
    simp only [hmap, List.length_zip, ← hlength, Nat.min_self, List.getElem?_zip_eq_some]
    constructor
    · rintro ⟨hus, h⟩
      exact ⟨hlength.symm, hus, fun i c d u hc hd hu => h i (c, d) u ⟨hc, hd⟩ hu⟩
    · intro h
      exact ⟨h.length_result, fun i p u hp hu => h.pointwise i p.1 p.2 u hp.1 hp.2 hu⟩
  · refine ⟨fun h => (by cases h), fun h => absurd h.length_actual.symm hlength⟩

theorem unifyStructure_eq_ok {right : Ty} :
    s.unifyStructure go a b right = .ok u
      ↔ s.types.SameShell a right ∧ ∃ us,
        Along (fun a b u => go a b = .ok u) a.components right.components us ∧
          u = a.rebuild us right := by
  unfold unifyStructure
  split
  · simp only [Outcome.bind_eq_ok, unifyAll_eq_ok, Outcome.pure_eq, Outcome.ok.injEq]
    constructor
    · rintro ⟨us, hus, rfl⟩
      exact ⟨.function, us, hus, rfl⟩
    · rintro ⟨-, us, hus, rfl⟩
      exact ⟨us, hus, rfl⟩
  · simp only [Outcome.bind_eq_ok, unifyAll_eq_ok, Outcome.pure_eq, Outcome.ok.injEq]
    constructor
    · rintro ⟨us, hus, rfl⟩
      exact ⟨.tuple, us, hus, rfl⟩
    · rintro ⟨-, us, hus, rfl⟩
      exact ⟨us, hus, rfl⟩
  · constructor
    · intro h
      obtain ⟨family, hfamily, h⟩ := Outcome.bind_eq_ok.1 h
      obtain ⟨family', hfamily', h⟩ := Outcome.bind_eq_ok.1 h
      split_ifs at h with heq
      · subst heq
        obtain ⟨us, hus, h⟩ := Outcome.bind_eq_ok.1 h
        cases h
        exact ⟨.parametric hfamily hfamily', us, unifyAll_eq_ok.1 hus, rfl⟩
      · cases h
    · rintro ⟨hshell, us, hus, rfl⟩
      cases hshell with
      | parametric hfamily hfamily' =>
        rw [hfamily, hfamily', Outcome.ok_bind, Outcome.ok_bind, if_pos rfl]
        exact Outcome.bind_eq_ok.2 ⟨us, unifyAll_eq_ok.2 hus, rfl⟩
  · next hfunction htuple hparametric =>
    refine ⟨fun h => (by cases h), ?_⟩
    rintro ⟨hshell, -⟩
    cases hshell with
    | function => exact absurd rfl (hfunction _ _ _ _ _ _ rfl)
    | tuple => exact absurd rfl (htuple _ _ _ _ rfl)
    | parametric => exact absurd rfl (hparametric _ _ _ _ _ _ rfl)

namespace Answers

/-- What is done with the type that the actual type stands for. -/
theorem of_resolve {k : Ty → Outcome Ty} (h : (liftM (s.types.resolve b) >>= k) = .ok u)
    (hk : ∀ t, s.types.resolve b = .ok t → k t = .ok u → s.Answers go a b u) :
    s.Answers go a b u := by
  obtain ⟨t, ht, h⟩ := Outcome.bind_eq_ok.1 h
  exact hk t (Outcome.liftM_eq_ok.1 ht) h

theorem of_ite {p : Prop} [Decidable p] {x y : Outcome Ty} (h : (if p then x else y) = .ok u)
    (hx : p → x = .ok u → s.Answers go a b u) (hy : ¬ p → y = .ok u → s.Answers go a b u) :
    s.Answers go a b u := by
  split_ifs at h with hp
  · exact hx hp h
  · exact hy hp h

theorem of_unifyConcrete {name : String} {attributes : Attributes}
    (h : s.unifyConcrete (.concrete name attributes) b = .ok u) :
    s.Answers go (.concrete name attributes) b u := by
  unfold unifyConcrete at h
  rw [Registry.resolve_of_settled rfl, Outcome.liftM_ok, Outcome.ok_bind] at h
  refine of_resolve h fun t ht h => of_ite h (fun hparam h => ?_) fun _ h => of_ite h ?_ ?_
  · cases h
    exact .absorbed rfl ht hparam
  · intro hsame h
    cases h
    exact .concrete ht hsame
  · intro _ h
    cases h

theorem of_unifyCompound (ha : a.takesVariable = true) (h : s.unifyCompound go a b = .ok u) :
    s.Answers go a b u := by
  refine of_resolve h fun t ht h => of_ite h (fun hparam h => ?_) fun hparam h => ?_
  · cases h
    exact .absorbed ha ht hparam
  · rw [Bool.not_eq_true] at hparam
    obtain ⟨trait?, htrait, h⟩ := Outcome.bind_eq_ok.1 h
    cases trait? with
    | none =>
      obtain ⟨hshell, us, hus, rfl⟩ := unifyStructure_eq_ok.1 h
      exact .compound htrait ht hshell hus
    | some trait =>
      refine of_ite h (fun hsame h => ?_) fun hsame h => of_ite h ?_ ?_
      · cases h
        exact .bound htrait ht hparam hsame
      · intro hhas h
        cases h
        exact .implemented htrait ht hparam (Bool.eq_false_iff.2 hsame) hhas
      · intro _ h
        cases h

theorem of_unifyUnion {cases : List Case} {attributes : Attributes}
    (h : s.unifyUnion cases (.union cases attributes) b = .ok u) :
    s.Answers go (.union cases attributes) b u := by
  have hresolved (h : unifyUnion.unifyResolved s (.union cases attributes) b = .ok u) :
      s.Answers go (.union cases attributes) b u := by
    refine of_resolve h fun t ht h => of_ite h (fun hcond h => ?_) fun _ h => ?_
    · cases h
      rcases Bool.or_eq_true_iff.1 hcond with hparam | hsame
      · exact .absorbed rfl ht hparam
      · exact .whole rfl ht hsame
    · cases h
  refine of_ite h (fun hsame h => ?_) fun _ h => ?_
  · cases h
    exact .itself rfl hsame
  · cases b with
    | constructor label union attributes' =>
      refine of_ite h (fun hlabel h => ?_) fun _ => hresolved
      cases h
      exact .label hlabel
    | _ => exact hresolved h

theorem of_unifyIntersection {params : List Ty} {attributes : Attributes}
    (h : s.unifyIntersection params (.intersection params attributes) b = .ok u) :
    s.Answers go (.intersection params attributes) b u := by
  refine of_resolve h fun t ht h => of_ite h (fun hcond h => ?_) fun _ h => ?_
  · cases h
    rcases Bool.or_eq_true_iff.1 hcond with hcond | hall
    · rcases Bool.or_eq_true_iff.1 hcond with hparam | hsame
      · exact .absorbed rfl ht hparam
      · exact .whole rfl ht hsame
    · exact .traits ht hall
  · cases h

theorem of_unifyTrait {trait : Trait} (h : s.unifyTrait (.trait trait) b = .ok u) :
    s.Answers go (.trait trait) b u := by
  refine of_resolve h fun t ht h => of_ite h (fun hsame h => ?_) fun _ h => ?_
  · cases h
    exact .whole rfl ht (Ty.same_comm _ _ ▸ hsame)
  · cases h

theorem of_unifyMethod {m : Method} (h : unifyMethod go m (.method m) b = .ok u) :
    s.Answers go (.method m) b u := by
  refine of_ite h (fun hsame h => ?_) fun hsame h => ?_
  · cases h
    exact .itself rfl hsame
  · refine .method (Bool.eq_false_iff.2 hsame) ?_
    cases b <;> exact h

theorem of_unifyImpl {trait : Trait} {c : Ty}
    (h : s.unifyImpl go trait c (.impl trait c) b = .ok u) :
    s.Answers go (.impl trait c) b u := by
  refine of_ite h (fun hsame h => ?_) fun hsame h => ?_
  · cases h
    exact .itself rfl hsame
  · rw [Bool.not_eq_true] at hsame
    have hresolved (hproof : b.proof? trait = none)
        (h : unifyImpl.unifyResolved s go trait c (.impl trait c) b = .ok u) :
        s.Answers go (.impl trait c) b u := by
      refine of_resolve h fun t ht h => ?_
      cases hgo : go c t with
      | ok v =>
        rw [hgo] at h
        cases h
        exact .implementation hsame hproof ht hgo
      | error e =>
        rw [hgo] at h
        refine of_ite h (fun hhas h => ?_) fun _ h => ?_
        · cases h
          exact .proven hsame hproof ht hgo hhas
        · cases h
      | outOfFuel =>
        rw [hgo] at h
        cases h
    cases b with
    | fixedTrait fixed =>
      refine of_ite h (fun hname h => ?_) fun hname h => hresolved (if_neg hname) h
      cases h
      exact .proof (if_pos hname)
    | trait other =>
      refine of_ite h (fun hsame h => ?_) fun hsame h => hresolved (if_neg hsame) h
      cases h
      exact .proof (if_pos hsame)
    | _ => exact hresolved rfl h

theorem of_unifyFixedTrait {fixed : Trait}
    (h : s.unifyFixedTrait fixed (.fixedTrait fixed) b = .ok u) :
    s.Answers go (.fixedTrait fixed) b u := by
  have hresolved (h : unifyFixedTrait.unifyResolved s fixed (.fixedTrait fixed) b = .ok u) :
      s.Answers go (.fixedTrait fixed) b u := by
    refine of_resolve h fun t ht h => of_ite h (fun hhas h => ?_) fun _ h => ?_
    · cases h
      exact .confirmed ht hhas
    · cases h
  refine of_ite h (fun hsame h => ?_) fun _ h => ?_
  · cases h
    exact .itself rfl hsame
  · cases b with
    | trait | impl =>
      refine of_ite h (fun hname h => ?_) fun _ => hresolved
      cases h
      exact .shown (decide_eq_true hname)
    | _ => exact hresolved h

theorem of_unifyNumeric {kind : Numeric} {attributes : Attributes}
    (h : s.unifyNumeric go kind (.numeric kind attributes) b = .ok u) :
    s.Answers go (.numeric kind attributes) b u := by
  refine of_resolve h fun t ht h => ?_
  cases hinner : t.inner with
  | parameter name origin =>
    rw [hinner] at h
    cases h
    exact .absorbed rfl ht (by rw [hinner]; rfl)
  | numeric kind' attributes' =>
    rw [hinner] at h
    refine of_ite h (fun hwide h => ?_) fun _ h => ?_
    · cases h
      exact .numeric ht hinner hwide
    · cases h
  | impl trait v =>
    rw [hinner] at h
    obtain ⟨w, hw, h⟩ := Outcome.bind_eq_ok.1 h
    cases h
    exact .represented ht hinner hw
  | _ =>
    rw [hinner] at h
    cases h

theorem of_unifyWithin {n : Nat} (h : s.unifyWithin (n + 1) a b = .ok u) :
    s.Answers (s.unifyWithin n) a b u := by
  cases a with
  | parameter => exact .parameter (Outcome.liftM_eq_ok.1 h)
  | reference | typeAlias | constructor =>
    obtain ⟨t, ht, h⟩ := Outcome.bind_eq_ok.1 h
    exact .name rfl (Outcome.liftM_eq_ok.1 ht) h
  | labeled => exact .labeled h
  | annotated => exact .annotated h
  | concrete => exact of_unifyConcrete h
  | parametric | function | tuple => exact of_unifyCompound rfl h
  | union => exact of_unifyUnion h
  | intersection => exact of_unifyIntersection h
  | trait => exact of_unifyTrait h
  | method => exact of_unifyMethod h
  | impl => exact of_unifyImpl h
  | fixedTrait => exact of_unifyFixedTrait h
  | numeric => exact of_unifyNumeric h

end Answers

/-! ## Every answer is what a rule gives -/

theorem unifyUnion_of_resolved {cases : List Case}
    (h : unifyUnion.unifyResolved s a b = .ok a) : s.unifyUnion cases a b = .ok a := by
  unfold unifyUnion
  split_ifs
  · rfl
  · cases b with
    | constructor label =>
      dsimp only
      split_ifs
      · rfl
      · exact h
    | _ => exact h

theorem unifyWithin_of_takesVariable {n : Nat} (ha : a.takesVariable = true)
    (ht : s.types.resolve b = .ok t) (hparam : t.inner.isParameter = true) :
    s.unifyWithin (n + 1) a b = .ok a := by
  have hcompound : s.unifyCompound (s.unifyWithin n) a b = .ok a := by
    rw [unifyCompound, ht, Outcome.liftM_ok, Outcome.ok_bind]
    exact if_pos hparam
  cases a with
  | parametric | function | tuple => exact hcompound
  | concrete =>
    rw [unifyWithin, unifyConcrete, Registry.resolve_of_settled rfl, ht, Outcome.liftM_ok,
      Outcome.ok_bind, Outcome.liftM_ok, Outcome.ok_bind]
    exact if_pos hparam
  | numeric kind attributes =>
    rw [unifyWithin, unifyNumeric, ht, Outcome.liftM_ok, Outcome.ok_bind]
    cases hinner : t.inner with
    | parameter => rfl
    | _ =>
      rw [hinner] at hparam
      cases hparam
  | union =>
    refine unifyUnion_of_resolved ?_
    rw [unifyUnion.unifyResolved, ht, Outcome.liftM_ok, Outcome.ok_bind, hparam]
    rfl
  | intersection =>
    rw [unifyWithin, unifyIntersection, ht, Outcome.liftM_ok, Outcome.ok_bind]
    dsimp only
    rw [hparam]
    rfl
  | _ => cases ha

theorem unifyWithin_of_isWhole {n : Nat} (ha : a.isWhole = true)
    (ht : s.types.resolve b = .ok t) (hsame : t.inner.same a = true) :
    s.unifyWithin (n + 1) a b = .ok a := by
  cases a with
  | union =>
    refine unifyUnion_of_resolved ?_
    rw [unifyUnion.unifyResolved, ht, Outcome.liftM_ok, Outcome.ok_bind, hsame, Bool.or_true]
    rfl
  | intersection =>
    rw [unifyWithin, unifyIntersection, ht, Outcome.liftM_ok, Outcome.ok_bind]
    dsimp only
    rw [hsame, Bool.or_true]
    rfl
  | trait =>
    rw [unifyWithin, unifyTrait, ht, Outcome.liftM_ok, Outcome.ok_bind, Ty.same_comm, hsame]
    rfl
  | _ => cases ha

theorem unifyWithin_of_takesItself {n : Nat} (ha : a.takesItself = true)
    (hsame : a.same b = true) : s.unifyWithin (n + 1) a b = .ok a := by
  cases a with
  | union | method | impl | fixedTrait => exact if_pos hsame
  | _ => cases ha

/-- Only a parametric type applies a trait. -/
theorem unifyWithin_of_boundTrait {n : Nat} {trait : Trait}
    (ha : s.boundTrait a = .ok (some trait)) (ht : s.types.resolve b = .ok t)
    (hparam : t.inner.isParameter = false) :
    s.unifyWithin (n + 1) a b = s.unifyBound trait a b t.inner := by
  cases a with
  | parametric =>
    rw [unifyWithin, unifyCompound, ht, Outcome.liftM_ok, Outcome.ok_bind]
    dsimp only
    rw [hparam, if_neg (by simp), ha]
    rfl
  | _ => cases ha

theorem unifyWithin_of_sameShell {n : Nat} {us : List Ty} (ha : s.boundTrait a = .ok none)
    (ht : s.types.resolve b = .ok t) (hshell : s.types.SameShell a t.inner)
    (hus : Along (fun c d u => s.unifyWithin n c d = .ok u) a.components t.inner.components us) :
    s.unifyWithin (n + 1) a b = .ok (a.rebuild us t.inner) := by
  have hcompound : s.unifyCompound (s.unifyWithin n) a b = .ok (a.rebuild us t.inner) := by
    rw [unifyCompound, ht, Outcome.liftM_ok, Outcome.ok_bind]
    dsimp only
    rw [if_neg (by simp [hshell.symm.isParameter_eq]), ha]
    exact unifyStructure_eq_ok.2 ⟨hshell, us, hus, rfl⟩
  generalize t.inner = y at hshell hcompound ⊢
  cases hshell <;> exact hcompound

theorem unifyImpl_of_resolved {trait : Trait} {c : Ty} (hsame : (Ty.impl trait c).same b = false)
    (hproof : b.proof? trait = none) :
    s.unifyImpl go trait c (.impl trait c) b
      = unifyImpl.unifyResolved s go trait c (.impl trait c) b := by
  unfold unifyImpl
  rw [hsame, if_neg (by simp)]
  cases b with
  | fixedTrait fixed =>
    rw [Ty.proof?] at hproof
    dsimp only
    split_ifs at hproof ⊢
    rfl
  | trait other =>
    rw [Ty.proof?] at hproof
    dsimp only
    split_ifs at hproof ⊢
    rfl
  | _ => rfl

theorem unifyImpl_of_proof {trait : Trait} {c : Ty} (hproof : b.proof? trait = some u) :
    s.unifyImpl go trait c (.impl trait c) b = .ok u := by
  cases b with
  | fixedTrait fixed =>
    rw [Ty.proof?] at hproof
    split_ifs at hproof with hname
    cases hproof
    unfold unifyImpl
    rw [if_neg (by simp [Ty.same, Ty.sameUnder])]
    exact if_pos hname
  | trait other =>
    rw [Ty.proof?] at hproof
    split_ifs at hproof with hsame
    cases hproof
    unfold unifyImpl
    rw [if_neg (by simp [Ty.same, Ty.sameUnder])]
    exact if_pos hsame
  | _ => cases hproof

theorem unifyFixedTrait_of_showsTrait {fixed : Trait} (h : b.showsTrait fixed = true) :
    s.unifyFixedTrait fixed (.fixedTrait fixed) b = .ok (.fixedTrait fixed) := by
  cases b with
  | trait | impl =>
    unfold unifyFixedTrait
    rw [if_neg (by simp [Ty.same, Ty.sameUnder])]
    exact if_pos (of_decide_eq_true h)
  | _ => cases h

theorem unifyFixedTrait_of_implements {fixed : Trait} (ht : s.types.resolve b = .ok t)
    (hhas : s.implements fixed t = true) : s.unifyFixedTrait fixed a b = .ok a := by
  have hresolved : unifyFixedTrait.unifyResolved s fixed a b = .ok a := by
    rw [unifyFixedTrait.unifyResolved, ht, Outcome.liftM_ok, Outcome.ok_bind]
    exact if_pos hhas
  unfold unifyFixedTrait
  split_ifs
  · rfl
  · cases b with
    | trait | impl =>
      dsimp only
      split_ifs
      · rfl
      · exact hresolved
    | _ => exact hresolved

/-- **One step of unification succeeds exactly with the answers of its rule.** -/
theorem unifyWithin_succ_eq_ok {n : Nat} :
    s.unifyWithin (n + 1) a b = .ok u ↔ s.Answers (s.unifyWithin n) a b u := by
  refine ⟨.of_unifyWithin, fun h => ?_⟩
  cases h with
  | parameter ht => exact Outcome.liftM_eq_ok.2 ht
  | absorbed ha ht hparam => exact unifyWithin_of_takesVariable ha ht hparam
  | name hname ht hu =>
    cases a with
    | reference | typeAlias | constructor =>
      exact Outcome.bind_eq_ok.2 ⟨_, Outcome.liftM_eq_ok.2 ht, hu⟩
    | _ => cases hname
  | labeled hu => exact hu
  | annotated hu => exact hu
  | concrete ht hsame =>
    have hparam : ¬ u.inner.isParameter = true := by
      cases hinner : u.inner <;> simp_all [Ty.same, Ty.sameUnder, Ty.isParameter]
    rw [unifyWithin, unifyConcrete, Registry.resolve_of_settled rfl, ht, Outcome.liftM_ok,
      Outcome.ok_bind, Outcome.liftM_ok, Outcome.ok_bind, if_neg hparam]
    exact if_pos hsame
  | numeric ht hinner hwide =>
    rw [unifyWithin, unifyNumeric, ht, Outcome.liftM_ok, Outcome.ok_bind, hinner]
    exact if_pos hwide
  | represented ht hinner hv =>
    rw [unifyWithin, unifyNumeric, ht, Outcome.liftM_ok, Outcome.ok_bind, hinner]
    exact Outcome.bind_eq_ok.2 ⟨_, hv, rfl⟩
  | itself ha hsame => exact unifyWithin_of_takesItself ha hsame
  | whole ha ht hsame => exact unifyWithin_of_isWhole ha ht hsame
  | label hlabel =>
    rw [unifyWithin]
    unfold unifyUnion
    rw [if_neg (by simp [Ty.same, Ty.sameUnder])]
    exact if_pos hlabel
  | traits ht hall =>
    rw [unifyWithin, unifyIntersection, ht, Outcome.liftM_ok, Outcome.ok_bind]
    exact if_pos (by simp only [hall, Bool.or_true])
  | bound htrait ht hparam hsame =>
    rw [unifyWithin_of_boundTrait htrait ht hparam]
    exact if_pos hsame
  | implemented htrait ht hparam hsame hhas =>
    rw [unifyWithin_of_boundTrait htrait ht hparam, unifyBound, hsame, if_neg (by simp)]
    exact if_pos hhas
  | compound htrait ht hshell hus => exact unifyWithin_of_sameShell htrait ht hshell hus
  | method hsame hu =>
    rw [unifyWithin]
    unfold unifyMethod
    rw [hsame, if_neg (by simp)]
    cases b <;> exact hu
  | proof hproof => exact unifyImpl_of_proof hproof
  | implementation hsame hproof ht hu =>
    rw [unifyWithin, unifyImpl_of_resolved hsame hproof, unifyImpl.unifyResolved, ht,
      Outcome.liftM_ok, Outcome.ok_bind, hu]
    rfl
  | proven hsame hproof ht he hhas =>
    rw [unifyWithin, unifyImpl_of_resolved hsame hproof, unifyImpl.unifyResolved, ht,
      Outcome.liftM_ok, Outcome.ok_bind, he]
    exact if_pos hhas
  | shown hname => exact unifyFixedTrait_of_showsTrait hname
  | confirmed ht hhas => exact unifyFixedTrait_of_implements ht hhas

/-- A compound type takes a variable, or goes by its components. -/
theorem unifyWithin_structure_eq_ok {n : Nat} (ha : a.isStructure = true)
    (hbound : s.boundTrait a = .ok none) :
    s.unifyWithin (n + 1) a b = .ok u ↔ ∃ t, s.types.resolve b = .ok t ∧
      (t.inner.isParameter = true ∧ u = a ∨ s.types.SameShell a t.inner ∧ ∃ us,
        Along (fun c d u => s.unifyWithin n c d = .ok u) a.components t.inner.components us ∧
          u = a.rebuild us t.inner) := by
  rw [unifyWithin_succ_eq_ok]
  constructor
  · intro h
    cases h with
    | absorbed _ ht hparam => exact ⟨_, ht, .inl ⟨hparam, rfl⟩⟩
    | compound _ ht hshell hus => exact ⟨_, ht, .inr ⟨hshell, _, hus, rfl⟩⟩
    | bound htrait | implemented htrait =>
      rw [hbound] at htrait
      cases htrait
    | name hkind | itself hkind | whole hkind => cases a <;> cases ha <;> cases hkind
    | _ => cases ha
  · rintro ⟨t, ht, ⟨hparam, rfl⟩ | ⟨hshell, us, hus, rfl⟩⟩
    · exact .absorbed (by cases u <;> first | rfl | cases ha) ht hparam
    · exact .compound hbound ht hshell hus

end Setting

end TypeEngine

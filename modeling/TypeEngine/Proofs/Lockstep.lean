import TypeEngine.Proofs.Descent
import TypeEngine.Proofs.Rules

/-!
# Two runs in lockstep

Two runs of a bounded computation are compared by `Outcome.Le`: where the first run ends with a
value, the second ends with the same value, and where the first fails, so does the second, if
errors are to count. The first run may lack fuel.

Solving is compared at two places that a `Simulation` relates. It has to say what becomes of names;
that the two descents stay together is shown once (`Simulation.le`). Unification is compared in two
settings that are `Alike` on some types (`Setting.Alike.le`), rule by rule as the two runs are
paired.

The first use is fuel: more of it does not change an outcome (`solveWithin_le_of_le`,
`Setting.unifyWithin_le_of_le`).
-/

namespace TypeEngine

/-! ## Comparing outcomes -/

namespace Outcome

variable {α β : Type} {errors : Bool}

/-- The value of the first outcome is the value of the second. If errors count, an error of the
first is also an error of the second. -/
def Le (errors : Bool) (x y : Outcome α) : Prop :=
  match x with
  | .ok a => y = .ok a
  | .error _ => errors = true → ∃ e, y = .error e
  | .outOfFuel => True

theorem Le.refl (x : Outcome α) : x.Le errors x := by
  cases x <;> simp [Le]

theorem le_error (e e' : TypeError) : (Outcome.error e : Outcome α).Le errors (.error e') :=
  fun _ => ⟨e', rfl⟩

theorem le_liftM {x y : Except TypeError α} (h : ∀ a, y = .ok a ↔ x = .ok a) :
    (liftM x : Outcome α).Le errors (liftM y) := by
  cases x with
  | ok a =>
    rw [(h a).2 rfl]
    exact .refl _
  | error e =>
    cases y with
    | ok a => cases (h a).1 rfl
    | error e' => exact le_error e e'

theorem Le.eq_ok {x y : Outcome α} (h : x.Le errors y) {a : α} (hx : x = .ok a) : y = .ok a := by
  rw [hx] at h
  exact h

/-- A first outcome that did not lack fuel has the value of the second. -/
theorem Le.eq_ok_of_ne {x y : Outcome α} (h : x.Le true y) (hx : x ≠ .outOfFuel) {a : α}
    (hy : y = .ok a) : x = .ok a := by
  cases x with
  | ok b =>
    rw [show y = .ok b from h] at hy
    exact hy
  | error e =>
    obtain ⟨e', he⟩ := h rfl
    rw [he] at hy
    cases hy
  | outOfFuel => exact absurd rfl hx

theorem Le.bind {x y : Outcome α} {f g : α → Outcome β} (h : x.Le errors y)
    (hfg : ∀ a, x = .ok a → (f a).Le errors (g a)) : (x >>= f).Le errors (y >>= g) := by
  cases x with
  | ok a =>
    rw [show y = .ok a from h]
    exact hfg a rfl
  | error e =>
    intro herrors
    obtain ⟨e', he⟩ := h herrors
    exact ⟨e', by rw [he, error_bind]⟩
  | outOfFuel => trivial

theorem Le.mapError {x y : Outcome α} (h : x.Le errors y) (f g : TypeError → TypeError) :
    (x.mapError f).Le errors (y.mapError g) := by
  cases x with
  | ok a =>
    rw [show y = .ok a from h]
    exact .refl _
  | error e =>
    intro herrors
    obtain ⟨e', he⟩ := h herrors
    exact ⟨g e', by rw [he]; rfl⟩
  | outOfFuel => trivial

theorem Le.orElse {x y z w : Outcome α} (h : x.Le true y) (hzw : z.Le true w) :
    (x.orElse fun _ => z).Le true (y.orElse fun _ => w) := by
  cases x with
  | ok a =>
    rw [show y = .ok a from h]
    exact .refl _
  | error e =>
    obtain ⟨e', he⟩ := h rfl
    rw [he]
    exact hzw
  | outOfFuel => trivial

theorem Le.mapM {f g : α → Outcome β} {l : List α} (h : ∀ a ∈ l, (f a).Le errors (g a)) :
    (l.mapM f).Le errors (l.mapM g) := by
  induction l with
  | nil => exact .refl _
  | cons a l ih =>
    rw [List.mapM_cons, List.mapM_cons]
    refine (h a (by simp)).bind fun b _ => ?_
    exact (ih fun c hc => h c (by simp [hc])).bind fun _ _ => .refl _

end Outcome

/-! ## Solving -/

/-- A relation between two places of solving and a type that descents keep. -/
structure Simulation (errors : Bool) (Q : Expansion → Expansion → Ty → Prop) : Prop where
  /-- It goes down to the parts of a type. -/
  part : ∀ {s s' : Expansion} {ty t : Ty}, Q s s' ty →
    Place.Part ⟨s.catalog, s.inUnion, ty⟩ ⟨s.catalog, s.inUnion, t⟩ → Q s s' t
  /-- It goes into union cases. -/
  case : ∀ {s s' : Expansion} {cases : List Case} {attributes : Attributes} {c : Case} {t : Ty},
    Q s s' (.union cases attributes) → c ∈ cases → t ∈ c.params → Q s.enterUnion s'.enterUnion t
  /-- It goes on to the head of what a head is solved to. -/
  head : ∀ {s s' : Expansion} {ty solved : Ty} {params : List Ty} {attributes : Attributes}
    {n : Nat}, Q s s' ty → solveWithin n s ty = .ok (.parametric solved params attributes) →
    Q s s' solved
  /-- A name is kept at both places or at none. -/
  keepsName : ∀ {s s' : Expansion} {ty : Ty} {name : String}, Q s s' ty → ty.target? = some name →
    (liftM (s.keepsName ty) : Outcome Bool).Le errors (liftM (s'.keepsName ty))
  /-- A name that is opened stands for the same type at both places. -/
  expand : ∀ {s s' t : Expansion} {ty u : Ty} {name : String}, Q s s' ty → ty.target? = some name →
    s.expand name ty = .ok (t, u) → ∃ t', s'.expand name ty = .ok (t', u) ∧ Q t t' u
  /-- If errors count, a name that cannot be opened cannot be opened at either place. -/
  expand_error : ∀ {s s' : Expansion} {ty : Ty} {name : String} {e : TypeError}, Q s s' ty →
    ty.target? = some name → s.expand name ty = .error e → errors = true →
    ∃ e', s'.expand name ty = .error e'

namespace Simulation

variable {errors : Bool} {Q : Expansion → Expansion → Ty → Prop}

/-- **Solving stays in lockstep.** -/
theorem le (hQ : Simulation errors Q) (n : Nat) :
    (∀ {m : Nat} {s s' : Expansion} {ty : Ty}, n ≤ m → Q s s' ty →
      (solveWithin n s ty).Le errors (solveWithin m s' ty)) ∧
    (∀ {m : Nat} {s s' : Expansion} {head : Ty}, n ≤ m → Q s s' head →
      (solveHeadWithin n s head).Le errors (solveHeadWithin m s' head)) := by
  induction n with
  | zero => exact ⟨fun {_ _ _ _} _ _ => trivial, fun {_ _ _ _} _ _ => trivial⟩
  | succ n ih =>
    obtain ⟨ih, ihHead⟩ := ih
    refine ⟨fun {m s s' ty} hm h => ?_, fun {m s s' head} hm h => ?_⟩
    · obtain ⟨m, rfl⟩ : ∃ m', m = m' + 1 := ⟨m - 1, by omega⟩
      have hm : n ≤ m := by omega
      have hall {s s' : Expansion} {ts : List Ty} (h : ∀ t ∈ ts, Q s s' t) :
          (ts.mapM (solveWithin n s)).Le errors (ts.mapM (solveWithin m s')) :=
        .mapM fun t ht => ih hm (h t ht)
      -- A name, kept or opened.
      have hname {name : String} (hname : ty.target? = some name) :
          (solveWithin (n + 1) s ty).Le errors (solveWithin (m + 1) s' ty) := by
        rw [solveWithin_target hname, solveWithin_target hname]
        refine (hQ.keepsName h hname).bind fun kept _ => ?_
        split_ifs
        · exact .refl _
        · cases hexpand : s.expand name ty with
          | error e =>
            intro herrors
            obtain ⟨e', he⟩ := hQ.expand_error h hname hexpand herrors
            exact ⟨e', by rw [he]; rfl⟩
          | ok p =>
            obtain ⟨t, u⟩ := p
            obtain ⟨t', hexpand', hq⟩ := hQ.expand h hname hexpand
            rw [hexpand']
            exact ih hm hq
      cases ty with
      | reference name => exact hname rfl
      | typeAlias name attributes => exact hname rfl
      | parametric head params attributes =>
        rw [solveWithin, solveWithin]
        refine (ihHead hm (hQ.part h .head)).bind fun H _ => ?_
        exact (hall fun t ht => hQ.part h (.param ht)).bind fun _ _ => .refl _
      | function arguments scope attributes =>
        rw [solveWithin, solveWithin]
        exact (hall fun t ht => hQ.part h (.argument ht)).bind fun _ _ => .refl _
      | tuple elements attributes =>
        rw [solveWithin, solveWithin]
        exact (hall fun t ht => hQ.part h (.element ht)).bind fun _ _ => .refl _
      | union cases attributes =>
        rw [solveWithin, solveWithin]
        refine Outcome.Le.bind (.mapM fun c hc => ?_) fun _ _ => .refl _
        exact (hall fun t ht => hQ.case h hc ht).bind fun _ _ => .refl _
      | impl trait implementation =>
        rw [solveWithin, solveWithin]
        exact ih hm (hQ.part h .implementation)
      | labeled label ty =>
        rw [solveWithin, solveWithin]
        exact (ih hm (hQ.part h .labeled)).bind fun _ _ => .refl _
      | annotated directives ty =>
        rw [solveWithin, solveWithin]
        exact (ih hm (hQ.part h .annotated)).bind fun _ _ => .refl _
      | _ => exact .refl _
    · obtain ⟨m, rfl⟩ : ∃ m', m = m' + 1 := ⟨m - 1, by omega⟩
      have hm : n ≤ m := by omega
      rw [solveHeadWithin, solveHeadWithin]
      refine (ih hm h).bind fun u hu => ?_
      cases u with
      | parametric solved params attributes =>
        dsimp only
        split_ifs
        · exact .refl _
        · exact ihHead hm (hQ.head h hu)
      | _ => exact .refl _

end Simulation

/-- **More fuel does not change what solving gives.** -/
theorem solveWithin_le_of_le {n m : Nat} (hnm : n ≤ m) (s : Expansion) (ty : Ty) :
    (solveWithin n s ty).Le true (solveWithin m s ty) := by
  have hsame : Simulation true fun s s' _ => s = s' := {
    part := fun h _ => h
    case := fun h _ _ => by rw [h]
    head := fun h _ => h
    keepsName := fun h _ => by rw [h]; exact .refl _
    expand := fun h _ hexpand => ⟨_, h ▸ hexpand, rfl⟩
    expand_error := fun h _ hexpand _ => ⟨_, h ▸ hexpand⟩ }
  exact (hsame.le n).1 hnm rfl

/-! ## Unification -/

namespace Setting

/-- Two settings do the same with the types that satisfy `L`. -/
structure Alike (s s' : Setting) (L : Ty → Prop) : Prop where
  implements : s'.implements = s.implements
  resolve : ∀ {a : Ty}, L a →
    (liftM (s.types.resolve a) : Outcome Ty).Le true (liftM (s'.types.resolve a))
  resolved : ∀ {a t : Ty}, L a → s.types.resolve a = .ok t → L t
  solvedHead : ∀ {head : Ty} {params : List Ty} {attributes : Attributes},
    L (.parametric head params attributes) →
    (s.types.solvedHead head).Le true (s'.types.solvedHead head)
  get? : ∀ {name : String} {params : List Ty} {attributes : Attributes},
    L (.intersection params attributes) → .reference name ∈ params →
    s'.types.get? name = s.types.get? name
  /-- The parts that unification goes on with. -/
  component : ∀ {a t : Ty}, L a → t ∈ a.components → L t
  method : ∀ {method : Method}, L (.method method) → L method.toFunction
  implementation : ∀ {trait : Trait} {t : Ty}, L (.impl trait t) → L t
  labeled : ∀ {label : String} {t : Ty}, L (.labeled label t) → L t
  annotated : ∀ {directives : List Directive} {t : Ty}, L (.annotated directives t) → L t

/-- The two actual types are one type, or two names for one type. -/
inductive Meant (s s' : Setting) (L : Ty → Prop) : Ty → Ty → Prop
  | same {b : Ty} : L b → Meant s s' L b b
  | names {name name' : String} {t : Ty} : s.types.resolve (.reference name) = .ok t →
      s'.types.resolve (.reference name') = .ok t → L t →
      Meant s s' L (.reference name) (.reference name')

variable {s s' : Setting} {L : Ty → Prop}

theorem Alike.inner (h : s.Alike s' L) {t : Ty} (ht : L t) : L t.inner := by
  induction t with
  | labeled label t ih => exact ih (h.labeled ht)
  | annotated directives t ih => exact ih (h.annotated ht)
  | _ => exact ht

theorem Meant.resolve (h : s.Alike s' L) {b b' : Ty} (hb : Meant s s' L b b') :
    (liftM (s.types.resolve b) : Outcome Ty).Le true (liftM (s'.types.resolve b')) := by
  cases hb with
  | same hL => exact h.resolve hL
  | names hr hr' _ =>
    rw [hr, hr']
    exact .refl _

theorem Meant.resolved (h : s.Alike s' L) {b b' t : Ty} (hb : Meant s s' L b b')
    (ht : s.types.resolve b = .ok t) : L t := by
  cases hb with
  | same hL => exact h.resolved hL ht
  | names hr _ hL =>
    rw [hr] at ht
    cases ht
    exact hL

theorem Meant.counterpart {b b' : Ty} (hb : Meant s s' L b b') : Counterpart id b b' := by
  cases hb with
  | same => exact .image b
  | names => exact .names _ _

/-- The recursive calls keep together. -/
def Follows (s s' : Setting) (L : Ty → Prop) (go go' : Ty → Ty → Outcome Ty) : Prop :=
  ∀ a b b', L a → Meant s s' L b b' → (go a b).Le true (go' a b')

variable {go go' : Ty → Ty → Outcome Ty} {a b b' : Ty}

theorem unifyAll_le (hgo : Follows s s' L go go') {left right : List Ty}
    (hleft : ∀ t ∈ left, L t) (hright : ∀ t ∈ right, L t) :
    (s.unifyAll go a b left right).Le true (s'.unifyAll go' a b' left right) := by
  unfold unifyAll
  split_ifs
  · refine .mapM fun p hp => (hgo _ _ _ ?_ (.same ?_)).mapError _ _
    · exact hleft _ (List.of_mem_zip hp).1
    · exact hright _ (List.of_mem_zip hp).2
  · exact Outcome.le_error _ _

namespace Alike

theorem family (h : s.Alike s' L) {head : Ty} {params : List Ty} {attributes : Attributes}
    (ha : L (.parametric head params attributes)) :
    (s.types.family head).Le true (s'.types.family head) :=
  (h.solvedHead ha).bind fun _ _ => .refl _

theorem boundTrait (h : s.Alike s' L) (ha : L a) :
    (s.boundTrait a).Le true (s'.boundTrait a) := by
  cases a with
  | parametric head params attributes => exact (h.solvedHead ha).bind fun _ _ => .refl _
  | _ => exact .refl _

theorem hasTraitNamed (h : s.Alike s' L) {params : List Ty} {attributes : Attributes}
    (ha : L (.intersection params attributes)) (right : Ty) {param : Ty} (hparam : param ∈ params) :
    s'.hasTraitNamed right param = s.hasTraitNamed right param := by
  cases param with
  | reference name =>
    rw [Setting.hasTraitNamed, Setting.hasTraitNamed, h.get? ha hparam, h.implements]
  | _ => rfl

theorem all_hasTraitNamed (h : s.Alike s' L) {params : List Ty} {attributes : Attributes}
    (ha : L (.intersection params attributes)) (right : Ty) :
    params.all (s'.hasTraitNamed right) = params.all (s.hasTraitNamed right) := by
  rw [Bool.eq_iff_iff, List.all_eq_true, List.all_eq_true]
  exact forall₂_congr fun param hparam => by rw [h.hasTraitNamed ha right hparam]

theorem handsOver (h : s.Alike s' L) {c d : Ty} (ha : L a)
    (hover : s.types.HandsOver (a, b) (c, d)) : L c := by
  cases hover with
  | name _ ht => exact h.resolved ha ht
  | labeled => exact h.labeled ha
  | annotated => exact h.annotated ha
  | method => exact h.method ha
  | represented => exact ha

/-- The steps of a rule keep together, if its calls do. -/
theorem le_of_paired (h : s.Alike s' L) (hgo : Follows s s' L go go') (ha : L a)
    (hb : Meant s s' L b b') {x y : Outcome Ty} (hxy : Paired s s' id id go go' a b b' x y) :
    x.Le true y := by
  have hclash : (s.clash a b : Outcome Ty).Le true (s'.clash a b') := Outcome.le_error _ _
  induction hxy with
  | answer => exact .refl _
  | clash => exact hclash
  | expected _ ih => exact (h.resolve ha).bind fun t ht => ih t (Outcome.liftM_eq_ok.1 ht)
  | actual _ ih => exact (hb.resolve h).bind fun t ht => ih t (Outcome.liftM_eq_ok.1 ht)
  | bound _ ih =>
    refine (h.boundTrait ha).bind fun trait? _ => ?_
    have hle := ih trait?
    rwa [Option.map_id] at hle
  | family hhead _ ih =>
    refine Outcome.Le.bind ?_ fun name _ => ih name
    cases hhead with
    | expected heq => exact h.family (heq ▸ ha)
    | actual ht heq => exact h.family (heq ▸ h.inner (hb.resolved h ht))
  | ask =>
    simp only [h.implements, id]
    split_ifs
    · exact .refl _
    · exact hclash
  | traits ty heq =>
    rw [List.map_id, id, id, h.all_hasTraitNamed (heq ▸ ha)]
    split_ifs
    · exact .refl _
    · exact hclash
  | components ht hmake =>
    simp only [List.map_id] at hmake ⊢
    have hright := h.inner (hb.resolved h ht)
    refine (unifyAll_le hgo (fun c => h.component ha) (fun d => h.component hright)).bind
      fun us _ => ?_
    rw [hmake]
    exact .refl _
  | through hover => exact hgo _ _ _ (h.handsOver ha hover) hb
  | methods hm hm' =>
    subst hm hm'
    cases hb with
    | same hL => exact hgo _ _ _ (h.method ha) (.same (h.method hL))
  | represented _ ht himpl =>
    have hinner := h.inner (hb.resolved h ht)
    rw [himpl] at hinner
    exact (hgo _ _ _ ha (.same (h.implementation hinner))).bind fun _ _ => .refl _
  | attempt heq ht _ ih =>
    subst heq
    refine Outcome.Le.orElse ?_ ih
    exact (hgo _ _ _ (h.implementation ha) (.same (hb.resolved h ht))).bind fun _ _ => .refl _

/-- **Unification stays in lockstep.** -/
theorem le (h : s.Alike s' L) {n m : Nat} (hnm : n ≤ m) {a b b' : Ty} (ha : L a)
    (hb : Meant s s' L b b') : (s.unifyWithin n a b).Le true (s'.unifyWithin m a b') := by
  induction n generalizing m a b b' with
  | zero => trivial
  | succ n ih =>
    obtain ⟨m, rfl⟩ : ∃ m', m = m' + 1 := ⟨m - 1, by omega⟩
    have hgo : Follows s s' L (s.unifyWithin n) (s'.unifyWithin m) :=
      fun _ _ _ ha hb => ih (by omega) ha hb
    exact h.le_of_paired hgo ha hb (paired .refl hb.counterpart n m a)

end Alike

/-- **More fuel does not change what unification gives.** -/
theorem unifyWithin_le_of_le (s : Setting) {n m : Nat} (hnm : n ≤ m) (a b : Ty) :
    (s.unifyWithin n a b).Le true (s.unifyWithin m a b) := by
  have hsame : s.Alike s fun _ => True := {
    implements := rfl
    resolve := fun _ => .refl _
    resolved := fun _ _ => trivial
    solvedHead := fun _ => .refl _
    get? := fun _ _ => rfl
    component := fun _ _ => trivial
    method := fun _ => trivial
    implementation := fun _ => trivial
    labeled := fun _ => trivial
    annotated := fun _ => trivial }
  exact hsame.le hnm trivial (.same trivial)

end Setting

end TypeEngine

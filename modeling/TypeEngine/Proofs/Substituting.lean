import TypeEngine.Proofs.Grounding
import TypeEngine.Proofs.Obliviousness

/-!
# Substitution without fuel

Substitution looks something up at a type (`Ty.key?`), opens the name that the type is
(`Ty.lookup?`), or goes on with its subjects (`Ty.subjects`) and puts the results in their places
(`Ty.refill`). `Setting.substituteStep` is one such step over the recursive call.

The fuel of `Setting.substitute` is no part of what it does. If substitution ends with any amount of
fuel, it ends with the fuel at hand, and in the same way (`Setting.substituteWithin_eq_substitute`).
So `Setting.substitute` satisfies its own equation (`Setting.substitute_eq`), in every registry and
for every type; it lacks fuel only where the equation has no end.

The argument is about the amount of fuel that a type needs. A type that opens a name needs as much
as any other type that opens this name, so on the way down, where the need becomes less with every
step, no name is opened twice. Only so many names are visible (`Registry.openings`), and between two
of them the descent goes into the nodes of one type (`lt_of_descent`, `holds_of_descent`).
-/

namespace TypeEngine

open Relation

/-! ## Outcomes with more fuel -/

namespace Outcome

variable {α β : Type}

/-- The second outcome is the first one, unless the first one lacked fuel. -/
def Settles (x y : Outcome α) : Prop :=
  x ≠ .outOfFuel → y = x

theorem Settles.refl (x : Outcome α) : x.Settles x :=
  fun _ => rfl

theorem Settles.bind {x y : Outcome α} {f g : α → Outcome β} (h : x.Settles y)
    (hfg : ∀ a, x = .ok a → (f a).Settles (g a)) : (x >>= f).Settles (y >>= g) := by
  intro hx
  cases x with
  | ok a =>
    rw [h (by simp), ok_bind, ok_bind]
    exact hfg a rfl hx
  | error e => rw [h (by simp), error_bind, error_bind]
  | outOfFuel => exact absurd rfl hx

theorem Settles.mapM {f g : α → Outcome β} {l : List α} (h : ∀ a ∈ l, (f a).Settles (g a)) :
    (l.mapM f).Settles (l.mapM g) := by
  induction l with
  | nil => exact .refl _
  | cons a l ih =>
    rw [List.mapM_cons, List.mapM_cons]
    refine (h a List.mem_cons_self).bind fun b _ => ?_
    exact (ih fun c hc => h c (List.mem_cons_of_mem a hc)).bind fun _ _ => .refl _

theorem mapM_congr {f g : α → Outcome β} {l : List α} (h : ∀ a ∈ l, f a = g a) :
    l.mapM f = l.mapM g := by
  induction l with
  | nil => rfl
  | cons a l ih =>
    rw [List.mapM_cons, List.mapM_cons, h a List.mem_cons_self,
      ih fun b hb => h b (List.mem_cons_of_mem a hb)]

theorem bind_ok_eq_outOfFuel {x : Outcome α} {f : α → β} :
    (x >>= fun a => .ok (f a)) = .outOfFuel ↔ x = .outOfFuel := by
  cases x with
  | ok a => simp
  | error e => simp
  | outOfFuel => simp

/-- Where a list lacks fuel and does not with more, there is a member that is the reason. -/
theorem exists_of_mapM_outOfFuel {f g : α → Outcome β} {l : List α}
    (h : ∀ a ∈ l, (f a).Settles (g a)) (hf : l.mapM f = .outOfFuel) (hg : l.mapM g ≠ .outOfFuel) :
    ∃ a ∈ l, f a = .outOfFuel ∧ g a ≠ .outOfFuel := by
  induction l with
  | nil => cases hf
  | cons a l ih =>
    rw [List.mapM_cons] at hf hg
    have ha := h a List.mem_cons_self
    cases hfa : f a with
    | outOfFuel =>
      refine ⟨a, List.mem_cons_self, hfa, fun hga => hg ?_⟩
      rw [hga, outOfFuel_bind]
    | error e =>
      rw [hfa, error_bind] at hf
      cases hf
    | ok b =>
      rw [ha (by simp [hfa]), hfa, ok_bind] at hg
      rw [hfa, ok_bind] at hf
      obtain ⟨c, hc, hfc, hgc⟩ := ih (fun c hc => h c (List.mem_cons_of_mem a hc))
        (bind_ok_eq_outOfFuel.1 hf) (mt bind_ok_eq_outOfFuel.2 hg)
      exact ⟨c, List.mem_cons_of_mem a hc, hfc, hgc⟩

end Outcome

/-! ## One step -/

namespace Ty

/-- The types that substitution goes on with, in their order. -/
def subjects : Ty → List Ty
  | .parametric _ params _ => params
  | .function arguments _ _ => arguments
  | .tuple elements _ => elements
  | .union cases _ => cases.flatMap (·.params)
  | .intersection params _ => params
  | .labeled _ ty | .annotated _ ty => [ty]
  | _ => []

/-- The cases with other parameters, dealt out from one list. -/
def refillCases : List Case → List Ty → List Case
  | [], _ => []
  | c :: cases, us =>
    ⟨c.label, us.take c.params.length⟩ :: refillCases cases (us.drop c.params.length)

/-- The type with other subjects. -/
def refill (ty : Ty) (us : List Ty) : Ty :=
  match ty with
  | .parametric head _ attributes => .parametric head us attributes
  | .function _ scope attributes => .function us scope attributes
  | .tuple _ attributes => .tuple us attributes
  | .union cases attributes => .union (refillCases cases us) attributes
  | .intersection _ attributes => .intersection us attributes
  | .labeled label inner => .labeled label (us.headD inner)
  | .annotated directives inner => .annotated directives (us.headD inner)
  | ty => ty

/-- The key whose binding replaces the type as a whole. -/
def key? : Ty → Option String
  | .parameter name _ => some name
  | .impl t _ => some t.mappingKey
  | _ => none

theorem key?_of_lookup? {ty : Ty} {name : String} (h : ty.lookup? = some name) :
    ty.key? = none := by
  cases ty <;> first | rfl | cases h

theorem subjects_subset_children (ty : Ty) : ty.subjects ⊆ ty.children := by
  cases ty <;> simp [subjects, children]

theorem weight_lt_of_mem_subjects {ty t : Ty} (h : t ∈ ty.subjects) : t.weight < ty.weight :=
  weight_lt_of_mem_children (ty.subjects_subset_children h)

theorem mapM_cases (f : Ty → Outcome Ty) (cases : List Case) :
    (cases.mapM fun c => do return (⟨c.label, ← c.params.mapM f⟩ : Case))
      = (cases.flatMap (·.params)).mapM f >>= fun us => .ok (refillCases cases us) := by
  induction cases with
  | nil => rfl
  | cons c cases ih =>
    rw [List.mapM_cons, ih, List.flatMap_cons, List.mapM_append]
    cases hparams : c.params.mapM f with
    | ok us =>
      have hlength : us.length = c.params.length := (Outcome.mapM_eq_ok.1 hparams).length_eq.symm
      cases (cases.flatMap (·.params)).mapM f with
      | ok vs => simp [refillCases, hlength]
      | _ => rfl
    | _ => rfl

end Ty

namespace Registry

/-- `R.Reads ty t`: the type `t` stands in `ty`, or it is what the name `ty` stands for in `R`.
Heads are not read. -/
inductive Reads (R : Registry) : Ty → Ty → Prop
  | subject {ty t : Ty} : t ∈ ty.subjects → Reads R ty t
  | name {ty t : Ty} {name : String} : ty.lookup? = some name → R.resolve ty = .ok t → Reads R ty t

theorem reads_inner {R : Registry} (ty : Ty) : ReflTransGen R.Reads ty ty.inner := by
  induction ty with
  | labeled label ty ih => exact .head (.subject (List.mem_singleton_self ty)) ih
  | annotated directives ty ih => exact .head (.subject (List.mem_singleton_self ty)) ih
  | _ => exact .refl

/-- A type reads what it comes to behind names and labels. -/
theorem reads_resolved {R : Registry} {ty t : Ty} (h : R.resolve ty = .ok t) :
    ReflTransGen R.Reads ty t.inner := by
  induction ty generalizing t with
  | reference | typeAlias | constructor => exact .head (.name rfl h) (reads_inner t)
  | labeled label ty ih =>
    obtain ⟨u, hu, rfl⟩ := resolve_labeled.1 h
    have hinner : ReflTransGen R.Reads ty u.inner := ih hu
    exact .head (.subject (List.mem_singleton_self ty)) hinner
  | _ =>
    rw [resolve_of_settled rfl] at h
    cases h
    exact reads_inner _

/-- Whether reading and unfolding the types of the list comes to types of the list only. -/
def closes (R : Registry) (S : List Ty) : Bool :=
  S.all fun ty => (ty.subjects ++ ty.parts).all (fun t => decide (t ∈ S)) &&
    match R.resolve ty with
    | .ok t => decide (t ∈ S)
    | .error _ => true

theorem mem_of_closes {R : Registry} {S : List Ty} {ty t : Ty} (h : R.closes S = true)
    (hty : ty ∈ S) (ht : R.Reads ty t ∨ R.Unfolds ty t) : t ∈ S := by
  have hall := List.all_eq_true.1 h ty hty
  rw [Bool.and_eq_true, List.all_eq_true] at hall
  obtain ⟨hparts, hname⟩ := hall
  have hresolved (hr : R.resolve ty = .ok t) : t ∈ S := by
    rw [hr] at hname
    exact of_decide_eq_true hname
  rcases ht with ht | ht
  · cases ht with
    | subject hmem => exact of_decide_eq_true (hparts t (List.mem_append_left _ hmem))
    | name _ hr => exact hresolved hr
  · cases ht with
    | part hmem => exact of_decide_eq_true (hparts t (List.mem_append_right _ hmem))
    | name _ hr => exact hresolved hr

theorem mem_of_reads {R : Registry} {S : List Ty} {ty u : Ty} (h : R.closes S = true)
    (hty : ty ∈ S) (hu : ReflTransGen R.Reads ty u) : u ∈ S := by
  induction hu with
  | refl => exact hty
  | tail _ hstep ih => exact mem_of_closes h ih (.inl hstep)

theorem mem_of_unfolds {R : Registry} {S : List Ty} {ty u : Ty} (h : R.closes S = true)
    (hty : ty ∈ S) (hu : ReflTransGen R.Unfolds ty u) : u ∈ S := by
  induction hu with
  | refl => exact hty
  | tail _ hstep ih => exact mem_of_closes h ih (.inr hstep)

end Registry

namespace Setting

variable (s : Setting) (σ : Bindings) (context : Ty)

/-- One step of substitution over the recursive call `go`. -/
def substituteStep (go : Ty → Outcome Ty) (ty : Ty) : Outcome Ty :=
  match ty.key? with
  | some key => liftM (σ.get s.location key context)
  | none =>
    match ty.lookup? with
    | some _ => liftM (s.types.resolve ty) >>= go
    | none => s.witness? σ context ty >>= fun found? =>
      match found? with
      | some found => .ok found
      | none => ty.subjects.mapM go >>= fun us => .ok (ty.refill us)

variable {s σ context}

/-- **Substitution is one step after another.** -/
theorem substituteWithin_succ (n : Nat) (ty : Ty) :
    s.substituteWithin σ context (n + 1) ty
      = s.substituteStep σ context (s.substituteWithin σ context n) ty := by
  have hsingle (t : Ty) : [t].mapM (s.substituteWithin σ context n)
      = s.substituteWithin σ context n t >>= fun u => .ok [u] := by
    rw [List.mapM_cons, List.mapM_nil]
    rfl
  cases ty with
  | parameter | impl | reference | typeAlias | constructor => rfl
  | labeled label inner | annotated directives inner =>
    rw [substituteWithin, substituteStep]
    simp only [Ty.key?, Ty.lookup?, Ty.subjects, witness?, boundTrait, Outcome.pure_eq,
      Outcome.ok_bind, hsingle, bind_assoc]
    rfl
  | union cases attributes =>
    rw [substituteWithin, Ty.mapM_cases, bind_assoc]
    rfl
  | parametric | function | tuple | intersection => rfl
  | concrete | trait | method | fixedTrait | numeric => rfl

theorem substituteStep_of_key {ty : Ty} {key : String} (hkey : ty.key? = some key)
    (go : Ty → Outcome Ty) :
    s.substituteStep σ context go ty = liftM (σ.get s.location key context) := by
  rw [substituteStep, hkey]

theorem substituteStep_of_lookup {ty : Ty} {name : String} (hname : ty.lookup? = some name)
    (go : Ty → Outcome Ty) :
    s.substituteStep σ context go ty = liftM (s.types.resolve ty) >>= go := by
  rw [substituteStep, Ty.key?_of_lookup? hname, hname]

theorem substituteStep_of_found {ty found : Ty} (hkey : ty.key? = none) (hname : ty.lookup? = none)
    (hwitness : s.witness? σ context ty = .ok (some found)) (go : Ty → Outcome Ty) :
    s.substituteStep σ context go ty = .ok found := by
  rw [substituteStep, hkey, hname, hwitness]
  rfl

theorem substituteStep_of_subjects {ty : Ty} (hkey : ty.key? = none) (hname : ty.lookup? = none)
    (hwitness : s.witness? σ context ty = .ok none) (go : Ty → Outcome Ty) :
    s.substituteStep σ context go ty = ty.subjects.mapM go >>= fun us => .ok (ty.refill us) := by
  rw [substituteStep, hkey, hname, hwitness]
  rfl

/-- A step depends on the recursive call at the subjects and behind the name only. -/
theorem substituteStep_congr {go go' : Ty → Outcome Ty} {ty : Ty}
    (hsubjects : ∀ t ∈ ty.subjects, go t = go' t)
    (hname : ∀ t, s.types.resolve ty = .ok t → go t = go' t) :
    s.substituteStep σ context go ty = s.substituteStep σ context go' ty := by
  unfold substituteStep
  cases ty.key? with
  | some key => rfl
  | none =>
    cases ty.lookup? with
    | some name =>
      cases hr : s.types.resolve ty with
      | error e => rfl
      | ok t => exact hname t hr
    | none =>
      dsimp only
      rw [Outcome.mapM_congr hsubjects]

/-! ## More fuel -/

theorem substituteStep_settles {go go' : Ty → Outcome Ty} (h : ∀ t, (go t).Settles (go' t))
    (ty : Ty) :
    (s.substituteStep σ context go ty).Settles (s.substituteStep σ context go' ty) := by
  unfold substituteStep
  cases ty.key? with
  | some key => exact .refl _
  | none =>
    cases ty.lookup? with
    | some name => exact Outcome.Settles.bind (.refl _) fun t _ => h t
    | none =>
      refine Outcome.Settles.bind (.refl _) fun found? _ => ?_
      cases found? with
      | some found => exact .refl _
      | none => exact (Outcome.Settles.mapM fun t _ => h t).bind fun _ _ => .refl _

/-- **More fuel does not change what substitution gives.** -/
theorem substituteWithin_settles {n m : Nat} (hnm : n ≤ m) (ty : Ty) :
    (s.substituteWithin σ context n ty).Settles (s.substituteWithin σ context m ty) := by
  induction n generalizing m ty with
  | zero => exact fun h => absurd rfl h
  | succ n ih =>
    obtain ⟨m, rfl⟩ : ∃ m', m = m' + 1 := ⟨m - 1, by omega⟩
    rw [substituteWithin_succ, substituteWithin_succ]
    exact substituteStep_settles (fun t => ih (by omega) t) ty

variable (s σ context) in
/-- Substitution into the type ends with `n + 1` units of fuel, and not with `n`. -/
def Needs (n : Nat) (ty : Ty) : Prop :=
  s.substituteWithin σ context n ty = .outOfFuel ∧
    s.substituteWithin σ context (n + 1) ty ≠ .outOfFuel

theorem Needs.unique {n m : Nat} {ty : Ty} (h : s.Needs σ context n ty)
    (h' : s.Needs σ context m ty) : n = m := by
  have hle {n m : Nat} (h : s.Needs σ context n ty) (h' : s.Needs σ context m ty) : n ≤ m := by
    by_contra hlt
    have := substituteWithin_settles (show m + 1 ≤ n by omega) ty h'.2
    exact h'.2 (this.symm.trans h.1)
  exact Nat.le_antisymm (hle h h') (hle h' h)

theorem exists_needs {n : Nat} {ty : Ty} (h : s.substituteWithin σ context n ty ≠ .outOfFuel) :
    ∃ m < n, s.Needs σ context m ty := by
  induction n with
  | zero => exact absurd rfl h
  | succ n ih =>
    by_cases hn : s.substituteWithin σ context n ty = .outOfFuel
    · exact ⟨n, Nat.lt_succ_self n, hn, h⟩
    · obtain ⟨m, hm, hneeds⟩ := ih hn
      exact ⟨m, Nat.lt_succ_of_lt hm, hneeds⟩

/-- Where more than one step is needed, a subject or what the name stands for is the reason. -/
theorem Needs.exists_next {n : Nat} {ty : Ty} (h : s.Needs σ context (n + 1) ty) :
    ∃ t, s.Needs σ context n t ∧
      (t ∈ ty.subjects ∨ ∃ name, ty.lookup? = some name ∧ s.types.resolve ty = .ok t) := by
  obtain ⟨hless, hmore⟩ := h
  rw [substituteWithin_succ] at hless hmore
  unfold substituteStep at hless hmore
  cases hkey : ty.key? with
  | some key =>
    rw [hkey] at hless
    exact absurd hless (Outcome.ends_liftM _)
  | none =>
    rw [hkey] at hless hmore
    cases hname : ty.lookup? with
    | some name =>
      rw [hname] at hless hmore
      cases hr : s.types.resolve ty with
      | error e =>
        rw [hr] at hless
        cases hless
      | ok t =>
        rw [hr] at hless hmore
        exact ⟨t, ⟨hless, hmore⟩, .inr ⟨name, rfl, rfl⟩⟩
    | none =>
      rw [hname] at hless hmore
      dsimp only at hless hmore
      cases hwitness : s.witness? σ context ty with
      | error e =>
        rw [hwitness] at hless
        cases hless
      | outOfFuel =>
        rw [hwitness] at hmore
        exact absurd rfl hmore
      | ok found? =>
        rw [hwitness, Outcome.ok_bind] at hless hmore
        cases found? with
        | some found => cases hless
        | none =>
          obtain ⟨t, ht, hless, hmore⟩ := Outcome.exists_of_mapM_outOfFuel
            (fun t _ => substituteWithin_settles (Nat.le_succ n) t)
            (Outcome.bind_ok_eq_outOfFuel.1 hless) (mt Outcome.bind_ok_eq_outOfFuel.2 hmore)
          exact ⟨t, ⟨hless, hmore⟩, .inl ht⟩

end Setting

/-! ## Names are opened once -/

/-- The cost of the names that are not in `seen`, and one step more for each. -/
def unspent (cost : Ty → Nat) (seen : List Ty) : List Ty → Nat
  | [] => 0
  | c :: names => (if c ∈ seen then 0 else cost c + 1) + unspent cost seen names

theorem unspent_cons_le (cost : Ty → Nat) (seen names : List Ty) (c : Ty) :
    unspent cost (c :: seen) names ≤ unspent cost seen names := by
  induction names with
  | nil => exact Nat.le_refl _
  | cons d names ih =>
    refine Nat.add_le_add ?_ ih
    by_cases hd : d ∈ seen
    · rw [if_pos hd, if_pos (List.mem_cons_of_mem c hd)]
    · rw [if_neg hd]
      split_ifs
      · exact Nat.zero_le _
      · exact Nat.le_refl _

/-- To open a name spends it. -/
theorem unspent_spend {cost : Ty → Nat} {seen names : List Ty} {c : Ty} (hc : c ∈ names)
    (hnew : c ∉ seen) :
    unspent cost (c :: seen) names + (cost c + 1) ≤ unspent cost seen names := by
  induction names with
  | nil => cases hc
  | cons d names ih =>
    rw [unspent, unspent]
    by_cases hd : d = c
    · subst hd
      rw [if_pos List.mem_cons_self, if_neg hnew]
      have := unspent_cons_le cost seen names d
      omega
    · have := ih ((List.mem_cons.1 hc).resolve_left (Ne.symm hd))
      simp only [List.mem_cons, hd, false_or]
      omega

theorem unspent_append (cost : Ty → Nat) (seen names names' : List Ty) :
    unspent cost seen (names ++ names') = unspent cost seen names + unspent cost seen names' := by
  induction names with
  | nil => simp [unspent]
  | cons d names ih => simp only [List.cons_append, unspent, ih, Nat.add_assoc]

theorem unspent_map {cost : Ty → Nat} {f : String → Ty} {k : Nat} (h : ∀ name, cost (f name) = k)
    (l : List String) : unspent cost [] (l.map f) = l.length * (k + 1) := by
  induction l with
  | nil => simp [unspent]
  | cons name l ih =>
    simp only [List.map_cons, unspent, List.not_mem_nil, if_false, h, ih, List.length_cons]
    ring

/-- **A descent in which the need of a type becomes less with every step has a bound.** Every step
goes to a smaller type or opens one of the names in `names`, behind which there is a type of limited
size. Since the name alone tells what is needed behind it, none is opened twice. -/
theorem lt_of_descent {needs : Nat → Ty → Prop} {opens : Ty → Option Ty} {cost : Ty → Nat}
    {names : List Ty}
    (hnext : ∀ {n : Nat} {ty : Ty}, needs (n + 1) ty → ∃ t, needs n t ∧
      (t.weight < ty.weight ∨ ∃ c ∈ names, opens ty = some c ∧ t.weight ≤ cost c))
    (hsame : ∀ {n m : Nat} {ty t c : Ty}, opens ty = some c → opens t = some c → needs n ty →
      needs m t → n = m)
    {n : Nat} {ty : Ty} (h : needs n ty) : n < ty.weight + unspent cost [] names := by
  suffices hseen : ∀ {n : Nat} {ty : Ty} {seen : List Ty}, needs n ty →
      (∀ c ∈ seen, ∀ {m : Nat} {t : Ty}, opens t = some c → needs m t → n < m) →
      n < ty.weight + unspent cost seen names from hseen h (by simp)
  intro n
  induction n with
  | zero =>
    intro ty seen _ _
    have := ty.weight_pos
    omega
  | succ n ih =>
    intro ty seen hty hseen
    obtain ⟨t, ht, hless | ⟨c, hc, hopens, hcost⟩⟩ := hnext hty
    · have := ih ht fun c hc m u hu hm => Nat.lt_of_succ_lt (hseen c hc hu hm)
      omega
    · -- The name was not opened before, or its need would be larger there.
      have hnew : c ∉ seen := fun hmem => Nat.lt_irrefl _ (hseen c hmem hopens hty)
      have hspend : unspent cost (c :: seen) names + (cost c + 1) ≤ unspent cost seen names :=
        unspent_spend hc hnew
      have := @ih t (c :: seen) ht fun d hd m u hu hm => by
        rcases List.mem_cons.1 hd with rfl | hd
        · rw [← hsame hopens hu hty hm]
          exact Nat.lt_succ_self n
        · exact Nat.lt_of_succ_lt (hseen d hd hu hm)
      omega

/-- **What holds after any number of steps holds after as many as the descent has.** Every step of
the descent is one less that is needed. -/
theorem holds_of_descent {holds : Nat → Ty → Prop} {opens : Ty → Option Ty} {cost : Ty → Nat}
    {names : List Ty} (hzero : ∀ ty, ¬ holds 0 ty)
    (hmono : ∀ {n m : Nat} {ty : Ty}, holds n ty → n ≤ m → holds m ty)
    (hnext : ∀ {n : Nat} {ty : Ty}, ¬ holds (n + 1) ty → holds (n + 2) ty →
      ∃ t, (¬ holds n t ∧ holds (n + 1) t) ∧
        (t.weight < ty.weight ∨ ∃ c ∈ names, opens ty = some c ∧ t.weight ≤ cost c))
    (hsame : ∀ {n : Nat} {ty c : Ty}, opens ty = some c → (holds n ty ↔ holds n c))
    {n : Nat} {ty : Ty} (h : holds n ty) : holds (ty.weight + unspent cost [] names) ty := by
  classical
  have hex : ∃ n, holds n ty := ⟨n, h⟩
  obtain ⟨m, hm⟩ : ∃ m, Nat.find hex = m + 1 := by
    refine Nat.exists_eq_succ_of_ne_zero fun hleast => hzero ty ?_
    exact hleast ▸ Nat.find_spec hex
  have hleast : ¬ holds m ty := Nat.find_min hex (by omega)
  have henough : holds (m + 1) ty := hm ▸ Nat.find_spec hex
  refine hmono henough (@lt_of_descent (fun n ty => ¬ holds n ty ∧ holds (n + 1) ty) opens cost
    names (fun h => hnext h.1 h.2) ?_ m ty ⟨hleast, henough⟩)
  rintro n m ty t c hty ht ⟨hless, hmore⟩ ⟨hless', hmore'⟩
  rw [hsame hty] at hless hmore
  rw [hsame ht] at hless' hmore'
  by_contra hne
  rcases Nat.lt_or_gt_of_ne hne with hlt | hlt
  · exact hless' (hmono hmore hlt)
  · exact hless (hmono hmore' hlt)

/-- What the type opens: of all types that open a name in the same way, the plainest. -/
def Ty.opening? : Ty → Option Ty
  | .reference name | .typeAlias name _ => some (.reference name)
  | .constructor _ owner _ => some (.constructor "" owner ∅)
  | _ => none

theorem Ty.exists_opening? {ty : Ty} {name : String} (h : ty.lookup? = some name) :
    ∃ c, ty.opening? = some c := by
  cases ty <;> first | exact ⟨_, rfl⟩ | cases h

namespace Registry

variable (R : Registry)

/-- All that can be opened in a registry. -/
def openings : List Ty :=
  R.visible.map .reference ++ R.visible.map fun name => .constructor "" name ∅

/-- How large a type can be behind a name. -/
def openingCost : Ty → Nat
  | .constructor .. => R.weight
  | _ => (R.weight + 2) * (R.weight + 2)

variable {R}

theorem resolve_typeAlias (name : String) (attributes : Attributes) :
    R.resolve (.typeAlias name attributes)
      = (R.resolve (.reference name)).map (·.addAttributes attributes) := by
  obtain ⟨n, hn⟩ := R.exists_walkFuel (.reference name)
  have hfuel : R.walkFuel (.typeAlias name attributes) = n + 1 := hn
  rw [resolve, resolve, resolveOwned, resolveOwned, hfuel, hn, Catalog.resolveWithin_typeAlias]
  cases R.resolveWithin (n + 1) [] (.reference name) <;> rfl

theorem resolve_constructor (label union : String) (attributes : Attributes) :
    R.resolve (.constructor label union attributes) = R.resolve (.constructor "" union ∅) := by
  obtain ⟨n, hn⟩ := R.exists_walkFuel (.constructor "" union ∅)
  have hfuel : R.walkFuel (.constructor label union attributes) = n + 1 := hn
  rw [resolve, resolve, resolveOwned, resolveOwned, hfuel, hn]
  rfl

/-- Types that open the same stand for the same, up to attributes. -/
theorem resolve_opening {ty c : Ty} (hc : ty.opening? = some c) :
    Ty.bare <$> R.resolve ty = Ty.bare <$> R.resolve c := by
  cases ty with
  | reference name =>
    cases hc
    rfl
  | typeAlias name attributes =>
    cases hc
    rw [resolve_typeAlias]
    cases R.resolve (.reference name) with
    | error e => rfl
    | ok t => exact congrArg Except.ok (Ty.bare_withAttributes _ t)
  | constructor label union attributes =>
    cases hc
    rw [resolve_constructor]
  | _ => cases hc

theorem weight_le_openingCost {ty t c : Ty} (hc : ty.opening? = some c)
    (ht : R.resolve ty = .ok t) : t.weight ≤ R.openingCost c := by
  cases ty with
  | reference | typeAlias =>
    cases hc
    exact weight_le_of_name rfl ht
  | constructor label union attributes =>
    cases hc
    obtain ⟨O, hwalk⟩ := resolve_eq_ok_iff.1 ht
    cases hwalk with
    | stop hstop => cases hstop
    | constructor hf =>
      obtain ⟨own, hsees⟩ := Catalog.exists_sees hf
      calc t.weight ≤ weightAll R.stored :=
            weight_le_weightAll (hsees.stored_subset hsees.mem_stored)
        _ = R.weight := by rw [R.toCatalog.weightAll_stored, R.weight_eq]
  | _ => cases hc

theorem mem_openings {ty t c : Ty} (hc : ty.opening? = some c) (ht : R.resolve ty = .ok t) :
    c ∈ R.openings := by
  cases ty with
  | reference | typeAlias =>
    cases hc
    exact List.mem_append_left _ (List.mem_map_of_mem (mem_visible_of_resolve rfl ht))
  | constructor =>
    cases hc
    exact List.mem_append_right _ (List.mem_map.2 ⟨_, mem_visible_of_resolve rfl ht, rfl⟩)
  | _ => cases hc

theorem unspent_openings (R : Registry) :
    unspent R.openingCost [] R.openings
      ≤ R.weight * ((R.weight + 2) * (R.weight + 2) + 1 + (R.weight + 1)) := by
  have hvisible : R.visible.length ≤ R.weight := by
    rw [R.toCatalog.length_visible, R.weight_eq, ← R.toCatalog.weightAll_stored]
    exact length_le_weightAll _
  have hsum : unspent R.openingCost [] R.openings
      = R.visible.length * ((R.weight + 2) * (R.weight + 2) + 1 + (R.weight + 1)) := by
    rw [openings, unspent_append, Nat.mul_add]
    exact congrArg₂ (· + ·) (unspent_map (f := .reference) (fun _ => rfl) R.visible)
      (unspent_map (f := fun name => .constructor "" name ∅) (fun _ => rfl) R.visible)
  rw [hsum]
  exact Nat.mul_le_mul_right _ hvisible

/-- The fuel of a descent covers a type and all names. -/
theorem weight_add_unspent_le_descentFuel (R : Registry) (ty : Ty) :
    ty.weight + unspent R.openingCost [] R.openings ≤ R.descentFuel ty := by
  have hunspent := R.unspent_openings
  have hr : R.reach [ty] = R.weight + ty.weight + 4 := by
    simp only [reach, weightAll]
    omega
  rw [descentFuel, walkFuel]
  generalize R.reach [ty] = r at hr ⊢
  have hcost : (R.weight + 2) * (R.weight + 2) + 1 + (R.weight + 1) ≤ r * r := by nlinarith
  have hone : ty.weight ≤ ty.weight * (r * r) := Nat.le_mul_of_pos_right _ (by nlinarith)
  calc ty.weight + unspent R.openingCost [] R.openings
      ≤ ty.weight * (r * r) + R.weight * (r * r) :=
        Nat.add_le_add hone (hunspent.trans (Nat.mul_le_mul_left _ hcost))
    _ = (ty.weight + R.weight) * (r * r) := by ring
    _ ≤ r * (r * r) := Nat.mul_le_mul_right _ (by omega)
    _ = r * r * r := by ring

theorem descentFuel_le_of_weight {ty t : Ty} (h : t.weight ≤ ty.weight) :
    R.descentFuel t ≤ R.descentFuel ty := by
  have hreach : R.reach [t] ≤ R.reach [ty] := by
    simp only [reach, weightAll]
    omega
  exact Nat.mul_le_mul (Nat.mul_le_mul hreach hreach) hreach

end Registry

/-! ## The fuel at hand is enough -/

namespace Setting

variable {s : Setting} {σ : Bindings} {context : Ty}

/-- Attributes do not tell how much fuel is needed. -/
theorem substituteWithin_outOfFuel_of_bare {n : Nat} {ty t : Ty} (h : ty.bare = t.bare) :
    s.substituteWithin σ context n ty = .outOfFuel
      ↔ s.substituteWithin σ context n t = .outOfFuel := by
  have hmap {x : Outcome Ty} : Ty.bare <$> x = .outOfFuel ↔ x = .outOfFuel := by
    cases x <;> simp
  rw [← hmap, ← substituteWithin_bare, h, substituteWithin_bare, hmap]

theorem substituteWithin_outOfFuel_of_opening {n : Nat} {ty c : Ty} (hc : ty.opening? = some c) :
    s.substituteWithin σ context n ty = .outOfFuel
      ↔ s.substituteWithin σ context n c = .outOfFuel := by
  cases n with
  | zero => exact iff_of_true rfl rfl
  | succ n =>
    obtain ⟨name, hname⟩ : ∃ name, ty.lookup? = some name := by
      cases ty <;> first | exact ⟨_, rfl⟩ | cases hc
    obtain ⟨name', hname'⟩ : ∃ name, c.lookup? = some name := by
      cases ty <;> cases hc <;> exact ⟨_, rfl⟩
    rw [substituteWithin_succ, substituteWithin_succ, substituteStep_of_lookup hname,
      substituteStep_of_lookup hname']
    have hopen := s.types.resolve_opening hc
    cases hty : s.types.resolve ty with
    | error e =>
      cases hr : s.types.resolve c with
      | error e' => simp
      | ok t =>
        rw [hty, hr] at hopen
        cases hopen
    | ok t =>
      cases hr : s.types.resolve c with
      | error e' =>
        rw [hty, hr] at hopen
        cases hopen
      | ok u =>
        rw [hty, hr] at hopen
        exact substituteWithin_outOfFuel_of_bare (Except.ok.inj hopen)

theorem Needs.of_opening {n : Nat} {ty c : Ty} (h : s.Needs σ context n ty)
    (hc : ty.opening? = some c) : s.Needs σ context n c := by
  obtain ⟨hless, hmore⟩ := h
  refine ⟨(substituteWithin_outOfFuel_of_opening hc).1 hless, fun hc' => hmore ?_⟩
  exact (substituteWithin_outOfFuel_of_opening hc).2 hc'

/-- What is needed is at hand. -/
theorem Needs.lt_descentFuel {n : Nat} {ty : Ty} (h : s.Needs σ context n ty) :
    n < s.types.descentFuel ty := by
  refine Nat.lt_of_lt_of_le (@lt_of_descent (s.Needs σ context) Ty.opening? s.types.openingCost
    s.types.openings ?_ ?_ n ty h) (s.types.weight_add_unspent_le_descentFuel ty)
  · intro n ty hty
    obtain ⟨t, ht, hmem | ⟨name, hname, hr⟩⟩ := hty.exists_next
    · exact ⟨t, ht, .inl (Ty.weight_lt_of_mem_subjects hmem)⟩
    · obtain ⟨c, hc⟩ := Ty.exists_opening? hname
      exact ⟨t, ht, .inr ⟨c, Registry.mem_openings hc hr, hc, Registry.weight_le_openingCost hc hr⟩⟩
  · intro n m ty t c hty ht hn hm
    exact (hn.of_opening hty).unique (hm.of_opening ht)

/-- **The fuel at hand is enough.** Substitution that lacks it lacks any larger amount. -/
theorem substituteWithin_eq_substitute {n : Nat} {ty : Ty} (hn : s.types.descentFuel ty ≤ n) :
    s.substituteWithin σ context n ty = s.substitute σ ty context := by
  by_cases h : s.substituteWithin σ context n ty = .outOfFuel
  · by_contra hne
    have hsettles : (s.substitute σ ty context).Settles (s.substituteWithin σ context n ty) :=
      substituteWithin_settles hn ty
    exact hne (hsettles fun hout => hne (h.trans hout.symm))
  · obtain ⟨m, -, hneeds⟩ := exists_needs h
    have hm := hneeds.lt_descentFuel
    rw [substitute, substituteWithin_settles (show m + 1 ≤ n by omega) ty hneeds.2,
      substituteWithin_settles (show m + 1 ≤ s.types.descentFuel ty from hm) ty hneeds.2]

/-- Whatever substitution gives with any amount of fuel, it gives with the fuel at hand. -/
theorem substitute_of_substituteWithin {n : Nat} {ty : Ty} {result : Outcome Ty}
    (h : s.substituteWithin σ context n ty = result) (hresult : result ≠ .outOfFuel) :
    s.substitute σ ty context = result := by
  rw [← substituteWithin_eq_substitute (Nat.le_max_right n (s.types.descentFuel ty)), ← h]
  exact substituteWithin_settles (Nat.le_max_left n (s.types.descentFuel ty)) ty (h ▸ hresult)

/-- **Substitution satisfies its equation.** -/
theorem substitute_eq (ty : Ty) :
    s.substitute σ ty context
      = s.substituteStep σ context (fun t => s.substitute σ t context) ty := by
  obtain ⟨n, hn, hresolved⟩ : ∃ n, s.types.descentFuel ty ≤ n ∧
      ∀ t, s.types.resolve ty = .ok t → s.types.descentFuel t ≤ n := by
    cases hr : s.types.resolve ty with
    | error e => exact ⟨_, Nat.le_refl _, fun t ht => by cases ht⟩
    | ok t =>
      refine ⟨_, Nat.le_max_left _ (s.types.descentFuel t), fun u hu => ?_⟩
      cases hu
      exact Nat.le_max_right _ _
  rw [← substituteWithin_eq_substitute (Nat.le_succ_of_le hn), substituteWithin_succ]
  refine substituteStep_congr (fun t ht => ?_) fun t ht => ?_
  · refine substituteWithin_eq_substitute (Nat.le_trans ?_ hn)
    exact Registry.descentFuel_le_of_weight (Ty.weight_lt_of_mem_subjects ht).le
  · exact substituteWithin_eq_substitute (hresolved t ht)

end Setting

end TypeEngine

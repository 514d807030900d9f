import Mathlib.Data.List.Forall2
import TypeEngine.Outcome

/-!
# Taking computations apart

What the result of a sequence of steps says about the steps. A computation in `Except` or `Outcome`
that gives a value had a value at every step, and one that fails has a first step that fails. The
same holds along a list (`mapM_eq_ok`, `exists_of_failure?_mapM`).

An `Outcome` fails in two ways, with an error and for want of fuel. `Outcome.failure?` tells both
without the type of the value, so a failure can be traced back from one step to another. A
computation has enough fuel if each of its steps has (`Outcome.ends_bind`, `Outcome.ends_mapM`).
-/

namespace TypeEngine

variable {α β ε : Type}

theorem except_bind_eq_ok {x : Except ε α} {f : α → Except ε β} {b : β} :
    (x >>= f) = .ok b ↔ ∃ a, x = .ok a ∧ f a = .ok b := by
  cases x <;> simp [bind, Except.bind]

theorem except_bind_eq_error {x : Except ε α} {f : α → Except ε β} {e : ε} :
    (x >>= f) = .error e ↔ x = .error e ∨ ∃ a, x = .ok a ∧ f a = .error e := by
  cases x <;> simp [bind, Except.bind]

theorem except_map_eq_ok {x : Except ε α} {f : α → β} {b : β} :
    x.map f = .ok b ↔ ∃ a, x = .ok a ∧ b = f a := by
  cases x <;> simp [Except.map, eq_comm]

theorem except_map_eq_error {x : Except ε α} {f : α → β} {e : ε} :
    x.map f = .error e ↔ x = .error e := by
  cases x <;> simp [Except.map]

/-- What holds of each member from some number on holds of all members from some number on. -/
theorem exists_bound {l : List α} {P : α → Nat → Prop}
    (h : ∀ a ∈ l, ∃ n, ∀ m, n ≤ m → P a m) : ∃ n, ∀ m, n ≤ m → ∀ a ∈ l, P a m := by
  induction l with
  | nil => exact ⟨0, fun _ _ _ ha => by cases ha⟩
  | cons a l ih =>
    obtain ⟨i, hi⟩ := h a List.mem_cons_self
    obtain ⟨j, hj⟩ := ih fun b hb => h b (List.mem_cons_of_mem a hb)
    refine ⟨max i j, fun m hm => List.forall_mem_cons.2 ⟨hi m (by omega), hj m (by omega)⟩⟩

namespace Outcome

theorem bind_eq_ok {x : Outcome α} {f : α → Outcome β} {b : β} :
    (x >>= f) = .ok b ↔ ∃ a, x = .ok a ∧ f a = .ok b := by
  cases x <;> simp

@[simp] theorem liftM_ok (a : α) : (liftM (Except.ok a : Except TypeError α) : Outcome α) = .ok a :=
  rfl

@[simp] theorem liftM_error (e : TypeError) :
    (liftM (Except.error e : Except TypeError α) : Outcome α) = .error e :=
  rfl

@[simp] theorem liftM_eq_ok {x : Except TypeError α} {a : α} :
    (liftM x : Outcome α) = .ok a ↔ x = .ok a := by
  cases x <;> simp

/-! ## Along a list -/

theorem mapM_eq_ok {f : α → Outcome β} {l : List α} {r : List β} :
    l.mapM f = .ok r ↔ List.Forall₂ (fun a b => f a = .ok b) l r := by
  induction l generalizing r with
  | nil =>
    cases r <;> simp
  | cons a l ih =>
    rw [List.mapM_cons, bind_eq_ok]
    constructor
    · rintro ⟨b, hb, h⟩
      obtain ⟨bs, hbs, h⟩ := bind_eq_ok.1 h
      cases h
      exact .cons hb (ih.1 hbs)
    · intro h
      cases h with
      | cons hb hbs => exact ⟨_, hb, bind_eq_ok.2 ⟨_, ih.2 hbs, rfl⟩⟩

theorem exists_of_mem_mapM {f : α → Outcome β} {l : List α} {r : List β} (h : l.mapM f = .ok r)
    {b : β} (hb : b ∈ r) : ∃ a ∈ l, f a = .ok b := by
  rw [mapM_eq_ok] at h
  induction h with
  | nil => cases hb
  | @cons a c l r hac _ ih =>
    rcases List.mem_cons.1 hb with rfl | hb
    · exact ⟨a, by simp, hac⟩
    · obtain ⟨d, hd, hdb⟩ := ih hb
      exact ⟨d, by simp [hd], hdb⟩

/-- Results along a list that are the members themselves. -/
theorem mapM_eq_self {f : α → Outcome α} {l : List α} (h : ∀ a ∈ l, f a = .ok a) :
    l.mapM f = .ok l := by
  rw [mapM_eq_ok]
  induction l with
  | nil => exact .nil
  | cons a l ih => exact .cons (h a (by simp)) (ih fun b hb => h b (by simp [hb]))

/-- The first member that fails with an error decides, if all before it succeed. -/
theorem mapM_eq_error {f : α → Outcome β} {before after : List α} {a : α} {e : TypeError}
    (hbefore : ∀ b ∈ before, ∃ v, f b = .ok v) (ha : f a = .error e) :
    (before ++ a :: after).mapM f = .error e := by
  induction before with
  | nil => rw [List.nil_append, List.mapM_cons, ha, error_bind]
  | cons b before ih =>
    obtain ⟨v, hv⟩ := hbefore b List.mem_cons_self
    rw [List.cons_append, List.mapM_cons, hv, ok_bind,
      ih fun c hc => hbefore c (List.mem_cons_of_mem b hc), error_bind]

/-- A member that lacks fuel decides, if no member before it fails with an error. -/
theorem mapM_eq_outOfFuel {f : α → Outcome β} {before after : List α} {a : α}
    (hbefore : ∀ b ∈ before, ∀ e, f b ≠ .error e) (ha : f a = .outOfFuel) :
    (before ++ a :: after).mapM f = .outOfFuel := by
  induction before with
  | nil => rw [List.nil_append, List.mapM_cons, ha, outOfFuel_bind]
  | cons b before ih =>
    rw [List.cons_append, List.mapM_cons]
    cases hb : f b with
    | ok v =>
      rw [ok_bind, ih fun c hc => hbefore c (List.mem_cons_of_mem b hc), outOfFuel_bind]
    | error e => exact absurd hb (hbefore b List.mem_cons_self e)
    | outOfFuel => rw [outOfFuel_bind]

/-- Two functions agree along a list, if they agree wherever all before succeeded. -/
theorem mapM_congr_of_ok {f g : α → Outcome β} {l : List α}
    (h : ∀ before a after, l = before ++ a :: after → (∀ b ∈ before, ∃ v, f b = .ok v) →
      g a = f a) :
    l.mapM g = l.mapM f := by
  induction l with
  | nil => rfl
  | cons a l ih =>
    rw [List.mapM_cons, List.mapM_cons, h [] a l rfl (by simp)]
    cases ha : f a with
    | ok v =>
      rw [ok_bind, ok_bind, ih]
      intro before b after hl hbefore
      refine h (a :: before) b after (by rw [hl]; rfl) ?_
      intro c hc
      rcases List.mem_cons.1 hc with rfl | hc
      · exact ⟨v, ha⟩
      · exact hbefore c hc
    | _ => rfl

/-! ## Failures -/

/-- Why there is no value: an error, or nothing for want of fuel. -/
def failure? : Outcome α → Option (Option TypeError)
  | .ok _ => none
  | .error e => some (some e)
  | .outOfFuel => some none

@[simp] theorem failure?_ok (a : α) : (Outcome.ok a).failure? = none := rfl

@[simp] theorem failure?_error (e : TypeError) :
    (Outcome.error e : Outcome α).failure? = some (some e) := rfl

@[simp] theorem failure?_outOfFuel : (outOfFuel : Outcome α).failure? = some none := rfl

theorem failure?_eq_none {x : Outcome α} : x.failure? = none ↔ ∃ a, x = .ok a := by
  cases x <;> simp

theorem failure?_bind_eq_none {x : Outcome α} {f : α → Outcome β} :
    (x >>= f).failure? = none ↔ ∃ a, x = .ok a ∧ (f a).failure? = none := by
  cases x <;> simp

theorem failure?_bind_eq_some {x : Outcome α} {f : α → Outcome β} {c : Option TypeError} :
    (x >>= f).failure? = some c
      ↔ x.failure? = some c ∨ ∃ a, x = .ok a ∧ (f a).failure? = some c := by
  cases x <;> simp

theorem failure?_liftM_eq_some {x : Except TypeError α} {c : Option TypeError} :
    (liftM x : Outcome α).failure? = some c ↔ ∃ e, x = .error e ∧ c = some e := by
  cases x <;> simp [eq_comm]

/-- A step that cannot fail leaves the failure as it is. -/
@[simp] theorem failure?_bind_ok (x : Outcome α) (f : α → β) :
    (x >>= fun a => .ok (f a)).failure? = x.failure? := by
  cases x <;> rfl

theorem failure?_mapM_eq_none {f : α → Outcome β} {l : List α}
    (h : (l.mapM f).failure? = none) : ∀ a ∈ l, (f a).failure? = none := by
  induction l with
  | nil => simp
  | cons a l ih =>
    rw [List.mapM_cons] at h
    obtain ⟨b, hb, h⟩ := failure?_bind_eq_none.1 h
    obtain ⟨bs, hbs, -⟩ := failure?_bind_eq_none.1 h
    intro c hc
    rcases List.mem_cons.1 hc with rfl | hc
    · exact failure?_eq_none.2 ⟨b, hb⟩
    · exact ih (failure?_eq_none.2 ⟨bs, hbs⟩) c hc

theorem exists_of_failure?_mapM {f : α → Outcome β} {l : List α} {c : Option TypeError}
    (h : (l.mapM f).failure? = some c) : ∃ a ∈ l, (f a).failure? = some c := by
  induction l with
  | nil => simp at h
  | cons a l ih =>
    rw [List.mapM_cons] at h
    rcases failure?_bind_eq_some.1 h with h | ⟨b, -, h⟩
    · exact ⟨a, by simp, h⟩
    · simp only [pure_eq, failure?_bind_ok] at h
      obtain ⟨d, hd, h⟩ := ih h
      exact ⟨d, by simp [hd], h⟩

/-! ## Enough fuel -/

theorem failure?_eq_some_none {x : Outcome α} : x.failure? = some none ↔ x = .outOfFuel := by
  cases x <;> simp

theorem ends_liftM (x : Except TypeError α) : (liftM x : Outcome α) ≠ .outOfFuel := by
  cases x <;> simp

theorem ends_bind {x : Outcome α} {f : α → Outcome β} (hx : x ≠ .outOfFuel)
    (hf : ∀ a, x = .ok a → f a ≠ .outOfFuel) : (x >>= f) ≠ .outOfFuel := by
  cases x with
  | ok a => exact hf a rfl
  | error e => simp
  | outOfFuel => exact absurd rfl hx

theorem ends_mapM {f : α → Outcome β} {l : List α} (h : ∀ a ∈ l, f a ≠ .outOfFuel) :
    l.mapM f ≠ .outOfFuel := by
  intro hl
  obtain ⟨a, ha, hfa⟩ := exists_of_failure?_mapM (failure?_eq_some_none.2 hl)
  exact h a ha (failure?_eq_some_none.1 hfa)

end Outcome

end TypeEngine

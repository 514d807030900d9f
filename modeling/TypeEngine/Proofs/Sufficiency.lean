import TypeEngine.Proofs.Compatibility
import TypeEngine.Proofs.Opening

/-!
# Fuel against any actual type

Unification follows the expected type. If all names of the expected type can be opened in `n` steps
(`Registry.Opened`), then it takes at most `n` steps into it, whatever the actual type is. The
actual type may well refer to itself: only as much of it is read as the expected type asks for.

There is one exception. A number type looks for a number behind implementations of traits, and goes
through as many as there are (`Registry.Counts`). If it finds one, the number of steps has a bound
for the reason that substitution has one: no name is opened twice (`Counts.of_weight`).

Together, two types of which the expected one can be opened are compatible exactly if they unify
with the fuel at hand (`Setting.compatible_iff_unify_of_opened`).
-/

namespace TypeEngine

/-! ## What the actual type stands for -/

/-- The type under its labels. -/
def Ty.unlabeled : Ty → Ty
  | .labeled _ ty => ty.unlabeled
  | ty => ty

namespace Registry

variable {R : Registry}

theorem resolve_unlabeled {ty t : Ty} (h : R.resolve ty = .ok t) :
    ∃ u, R.resolve ty.unlabeled = .ok u ∧ u.inner = t.inner := by
  induction ty generalizing t with
  | labeled label ty ih =>
    obtain ⟨u, hu, rfl⟩ := resolve_labeled.1 h
    have hunder : ∃ v, R.resolve ty.unlabeled = .ok v ∧ v.inner = u.inner := ih hu
    exact hunder
  | _ => exact ⟨t, h, rfl⟩

theorem resolve_of_unlabeled {ty u : Ty} (h : R.resolve ty.unlabeled = .ok u) :
    ∃ t, R.resolve ty = .ok t ∧ t.inner = u.inner := by
  induction ty with
  | labeled label ty ih =>
    obtain ⟨t, ht, hinner⟩ := ih h
    exact ⟨.labeled label t, resolve_labeled.2 ⟨t, ht, rfl⟩, hinner⟩
  | _ => exact ⟨u, h, rfl⟩

/-- What lies behind a type is not larger than the type, or than what a name can stand for. -/
theorem weight_inner_of_resolve {ty t : Ty} (h : R.resolve ty = .ok t) :
    t.inner.weight ≤ ty.weight ∨
      ∃ c ∈ R.openings, ty.unlabeled.opening? = some c ∧ t.inner.weight ≤ R.openingCost c := by
  induction ty generalizing t with
  | labeled label ty ih =>
    obtain ⟨u, hu, rfl⟩ := resolve_labeled.1 h
    refine (ih hu).imp_left fun hle => hle.trans ?_
    rw [Ty.weight]
    omega
  | reference | typeAlias | constructor =>
    exact .inr ⟨_, mem_openings rfl h, rfl, t.weight_inner_le.trans (weight_le_openingCost rfl h)⟩
  | _ =>
    rw [resolve_of_settled rfl] at h
    cases h
    exact .inl (Ty.weight_inner_le _)

theorem openingCost_le (R : Registry) (c : Ty) :
    R.openingCost c ≤ (R.weight + 2) * (R.weight + 2) := by
  unfold openingCost
  split
  · nlinarith
  · exact Nat.le_refl _

/-- Both types stand for the same, up to labels, directives and attributes. -/
def Alike (R : Registry) (a b : Ty) : Prop :=
  ∀ t, R.resolve a = .ok t → ∃ u, R.resolve b = .ok u ∧ u.inner.bare = t.inner.bare

theorem alike_of_bare_resolve {a b : Ty} (h : Ty.bare <$> R.resolve a = Ty.bare <$> R.resolve b) :
    R.Alike a b := by
  intro t ht
  rw [ht] at h
  cases hb : R.resolve b with
  | error e =>
    rw [hb] at h
    cases h
  | ok u =>
    rw [hb] at h
    refine ⟨u, rfl, ?_⟩
    rw [← Ty.inner_bare, ← Ty.inner_bare, Except.ok.inj h]

theorem alike_of_bare {a b : Ty} (h : a.bare = b.bare) : R.Alike a b := by
  refine alike_of_bare_resolve ?_
  rw [← resolve_bare, ← resolve_bare, h]

theorem Alike.trans {a b c : Ty} (hab : R.Alike a b) (hbc : R.Alike b c) : R.Alike a c := by
  intro t ht
  obtain ⟨u, hu, htu⟩ := hab t ht
  obtain ⟨v, hv, huv⟩ := hbc u hu
  exact ⟨v, hv, huv.trans htu⟩

theorem alike_unlabeled (ty : Ty) : R.Alike ty ty.unlabeled := by
  intro t ht
  obtain ⟨u, hu, hinner⟩ := resolve_unlabeled ht
  exact ⟨u, hu, by rw [hinner]⟩

theorem unlabeled_alike (ty : Ty) : R.Alike ty.unlabeled ty := by
  intro u hu
  obtain ⟨t, ht, hinner⟩ := resolve_of_unlabeled hu
  exact ⟨t, ht, by rw [hinner]⟩

/-! ## Numbers behind implementations -/

/-- `R.Counts kind n b`: behind less than `n` implementations of traits there is a number that
`kind` can represent, or a variable. -/
inductive Counts (R : Registry) (kind : Numeric) : Nat → Ty → Prop
  | parameter {n : Nat} {b t : Ty} : R.resolve b = .ok t → t.inner.isParameter = true →
      Counts R kind (n + 1) b
  | number {n : Nat} {b t : Ty} {kind' : Numeric} {attributes : Attributes} :
      R.resolve b = .ok t → t.inner = .numeric kind' attributes → kind.canRepresent kind' = true →
      Counts R kind (n + 1) b
  | implementation {n : Nat} {b t i : Ty} {trait : Trait} : R.resolve b = .ok t →
      t.inner = .impl trait i → Counts R kind n i → Counts R kind (n + 1) b

namespace Counts

variable {kind : Numeric} {n m : Nat} {b : Ty}

theorem mono (h : R.Counts kind n b) (hnm : n ≤ m) : R.Counts kind m b := by
  induction h generalizing m with
  | parameter ht hy =>
    obtain ⟨m, rfl⟩ : ∃ m', m = m' + 1 := ⟨m - 1, by omega⟩
    exact .parameter ht hy
  | number ht hy hwide =>
    obtain ⟨m, rfl⟩ : ∃ m', m = m' + 1 := ⟨m - 1, by omega⟩
    exact .number ht hy hwide
  | implementation ht hy _ ih =>
    obtain ⟨m, rfl⟩ : ∃ m', m = m' + 1 := ⟨m - 1, by omega⟩
    exact .implementation ht hy (ih (by omega))

/-- Only what the type stands for counts. -/
theorem of_alike {b' : Ty} (h : R.Counts kind n b) (hb : R.Alike b b') : R.Counts kind n b' := by
  induction h generalizing b' with
  | parameter ht hy =>
    obtain ⟨u, hu, hbare⟩ := hb _ ht
    refine .parameter hu ?_
    rw [← Ty.isParameter_bare, hbare, Ty.isParameter_bare, hy]
  | number ht hy hwide =>
    obtain ⟨u, hu, hbare⟩ := hb _ ht
    rw [hy, Ty.bare_numeric] at hbare
    cases hinner : u.inner with
    | numeric kind'' attributes' =>
      rw [hinner, Ty.bare_numeric] at hbare
      cases hbare
      exact .number hu hinner hwide
    | _ => simp [hinner] at hbare
  | implementation ht hy _ ih =>
    obtain ⟨u, hu, hbare⟩ := hb _ ht
    rw [hy, Ty.bare_impl] at hbare
    cases hinner : u.inner with
    | impl trait' i' =>
      rw [hinner, Ty.bare_impl] at hbare
      exact .implementation hu hinner (ih (alike_of_bare (Ty.impl.inj hbare).2.symm))
    | _ => simp [hinner] at hbare

theorem iff_of_opening {c : Ty} (hc : b.unlabeled.opening? = some c) :
    R.Counts kind n b ↔ R.Counts kind n c := by
  have hopen := R.resolve_opening hc
  constructor
  · intro h
    exact h.of_alike ((alike_unlabeled b).trans (alike_of_bare_resolve hopen))
  · intro h
    exact h.of_alike ((alike_of_bare_resolve hopen.symm).trans (unlabeled_alike b))

/-- **If a number is found at all, it is found in time.** -/
theorem of_weight (h : R.Counts kind n b) :
    R.Counts kind (b.weight + unspent R.openingCost [] R.openings) b := by
  refine @holds_of_descent (R.Counts kind) (fun b => b.unlabeled.opening?) R.openingCost R.openings
    (fun _ h => by cases h) mono ?_ iff_of_opening n b h
  intro n ty hless hmore
  -- The descent goes into implementations.
  cases hmore with
  | parameter ht hy => exact absurd (.parameter ht hy) hless
  | number ht hy hwide => exact absurd (.number ht hy hwide) hless
  | @implementation _ _ t i trait ht hy hi =>
    refine ⟨i, ⟨fun hi' => hless (.implementation ht hy hi'), hi⟩, ?_⟩
    have hlt : i.weight < t.inner.weight := by
      rw [hy, Ty.weight]
      omega
    rcases weight_inner_of_resolve ht with hle | ⟨c, hc, hopens, hcost⟩
    · exact .inl (by omega)
    · exact .inr ⟨c, hc, hopens, by omega⟩

end Counts

end Registry

theorem Registry.descentFuel_le_left (R : Registry) (a b : Ty) :
    R.descentFuel a ≤ R.reach [a, b] * R.reach [a, b] * R.reach [a, b] := by
  have hr : R.reach [a] ≤ R.reach [a, b] := by
    simp only [reach, weightAll]
    omega
  exact Nat.mul_le_mul (Nat.mul_le_mul hr hr) hr

theorem Registry.descentFuel_le_right (R : Registry) (a b : Ty) :
    R.descentFuel b ≤ R.reach [a, b] * R.reach [a, b] * R.reach [a, b] := by
  have hr : R.reach [b] ≤ R.reach [a, b] := by
    simp only [reach, weightAll]
    omega
  exact Nat.mul_le_mul (Nat.mul_le_mul hr hr) hr

theorem Registry.descentFuel_add_le_pairFuel (R : Registry) (a b : Ty) :
    R.descentFuel a + R.descentFuel b + (R.weight + 2) * (R.weight + 2) ≤ R.pairFuel a b := by
  have hr : R.weight + 4 ≤ R.reach [a, b] := by
    simp only [reach]
    omega
  have ha := R.descentFuel_le_left a b
  have hb := R.descentFuel_le_right a b
  rw [pairFuel]
  generalize R.reach [a, b] = r at hr ha hb ⊢
  have hweight : (R.weight + 2) * (R.weight + 2) ≤ r * r * r :=
    (Nat.mul_le_mul (by omega) (by omega)).trans (Nat.le_mul_of_pos_right _ (by omega))
  calc R.descentFuel a + R.descentFuel b + (R.weight + 2) * (R.weight + 2)
      ≤ 3 * (r * r * r) := by omega
    _ ≤ r * (r * r * r) := Nat.mul_le_mul_right _ (by omega)
    _ = r * r * (r * r) := by ring

/-! ## Steps of unification -/

theorem Ty.components_of_isStructure {ty : Ty} (h : ty.isStructure = true) :
    ty.components = ty.subjects := by
  cases ty <;> first | rfl | cases h

namespace Setting

variable {s : Setting} {a b : Ty} {n : Nat}

theorem exists_unifyWithin_numeric {kind : Numeric} {attributes : Attributes} :
    (∃ u, s.unifyWithin n (.numeric kind attributes) b = .ok u) ↔ s.types.Counts kind n b := by
  induction n generalizing b with
  | zero =>
    constructor
    · rintro ⟨u, hu⟩
      cases hu
    · intro h
      cases h
  | succ n ih =>
    simp only [unifyWithin_succ_eq_ok]
    constructor
    · rintro ⟨u, hu⟩
      cases hu with
      | absorbed _ ht hparam => exact .parameter ht hparam
      | numeric ht hinner hwide => exact .number ht hinner hwide
      | represented ht hinner hv => exact .implementation ht hinner (ih.1 ⟨_, hv⟩)
      | compound _ _ hshell => cases hshell
      | name hkind | itself hkind | whole hkind | bound hkind | implemented hkind => cases hkind
    · intro h
      cases h with
      | parameter ht hparam => exact ⟨_, .absorbed rfl ht hparam⟩
      | number ht hinner hwide => exact ⟨_, .numeric ht hinner hwide⟩
      | implementation ht hinner hi =>
        obtain ⟨v, hv⟩ := ih.2 hi
        exact ⟨_, .represented ht hinner hv⟩

/-- A type that goes by its components takes variables, and types of its shell whose components it
takes. -/
theorem exists_unifyWithin_structure (ha : a.isStructure = true) (hhead : s.types.PlainHead a) :
    (∃ u, s.unifyWithin (n + 1) a b = .ok u)
      ↔ ∃ t, s.types.resolve b = .ok t ∧ (t.inner.isParameter = true ∨
        s.types.SameShell a t.inner ∧
          List.Forall₂ (fun c d => ∃ u, s.unifyWithin n c d = .ok u) a.subjects
            t.inner.components) := by
  rw [← Ty.components_of_isStructure ha]
  exact exists_unifyWithin_compound n ha (boundTrait_of_plainHead hhead)

/-- Unification goes no deeper than the names of the expected type can be opened, and from there
through implementations only. -/
theorem exists_unifyWithin_of_opened {u : Ty} {M m : Nat} {v : Ty} (h : s.types.Opened n a u)
    (hM : (s.types.weight + 2) * (s.types.weight + 2) ≤ M) (hb : b.weight ≤ M)
    (hv : s.unifyWithin m a b = .ok v) :
    ∃ w, s.unifyWithin (n + (M + unspent s.types.openingCost [] s.types.openings)) a b = .ok w := by
  generalize hN : M + unspent s.types.openingCost [] s.types.openings = N
  induction h generalizing b m v with
  | @name n ty t u name hname ht _ ih =>
    cases m with
    | zero => cases hv
    | succ m =>
      rw [unifyWithin_of_lookup hname ht] at hv
      rw [Nat.add_right_comm, unifyWithin_of_lookup hname ht]
      exact ih hb hv
  | @node n ty us hname hstatic hhead hlength _ ih =>
    cases m with
    | zero => cases hv
    | succ m =>
      rw [Nat.add_right_comm]
      cases ty with
      | concrete | union | intersection | trait => exact ⟨v, hv⟩
      | labeled label ty | annotated directives ty =>
        obtain ⟨w, hw⟩ := exists_getElem? hlength (show [ty][0]? = some ty from rfl)
        exact ih 0 ty w rfl hw hb hv
      | numeric kind attributes =>
        refine exists_unifyWithin_numeric.2 ?_
        refine (exists_unifyWithin_numeric.1 ⟨v, hv⟩).of_weight.mono ?_
        omega
      | parametric | function | tuple =>
        obtain ⟨t, ht, h⟩ := (exists_unifyWithin_structure rfl hhead).1 ⟨v, hv⟩
        refine (exists_unifyWithin_structure rfl hhead).2 ⟨t, ht, h.imp_right ?_⟩
        rintro ⟨hshell, hall⟩
        obtain ⟨hlength', hpoint⟩ := forall₂_iff_getElem?.1 hall
        refine ⟨hshell, forall₂_iff_getElem?.2 ⟨hlength', fun i c d hc hd => ?_⟩⟩
        obtain ⟨x, hx⟩ := hpoint i c d hc hd
        obtain ⟨w, hw⟩ := exists_getElem? hlength hc
        refine ih i c w hc hw ?_ hx
        -- The components of the actual type are within the same bound.
        have hlt := Ty.weight_lt_of_mem_children
          (Ty.components_subset_children _ (List.mem_of_getElem? hd))
        rcases Registry.weight_inner_of_resolve ht with hle | ⟨o, -, -, hcost⟩
        · omega
        · have := s.types.openingCost_le o
          omega
      | reference | typeAlias | constructor => cases hname
      | parameter | method | impl | fixedTrait => cases hstatic

/-- **Enough fuel.** A type whose names can be opened is compatible with an actual type exactly if
it unifies with it. -/
theorem compatible_iff_unify_of_opened {u : Ty} (h : s.types.Opened n a u)
    (hn : n ≤ s.types.descentFuel a) : s.Compatible a b ↔ ∃ v, s.unify a b = .ok v := by
  refine ⟨?_, fun h => ⟨_, h⟩⟩
  rintro ⟨m, v, hv⟩
  obtain ⟨w, hw⟩ := exists_unifyWithin_of_opened h
    (Nat.le_add_left ((s.types.weight + 2) * (s.types.weight + 2)) b.weight)
    (Nat.le_add_right b.weight _) hv
  refine ⟨w, (s.unifyWithin_le_of_le ?_ a b).eq_ok hw⟩
  have hsum := s.types.descentFuel_add_le_pairFuel a b
  have hunspent := s.types.weight_add_unspent_le_descentFuel b
  omega

end Setting

end TypeEngine

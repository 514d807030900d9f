import TypeEngine.Proofs.Grounding
import TypeEngine.Proofs.Meets

/-!
# Compatible types

Two types are compatible if unification succeeds on them with enough fuel (`Setting.Compatible`);
where unification ends, that is to say if it succeeds (`Setting.compatible_iff_unify`).

What lies between the two types is said by kinds. Names, labels and directives of the expected type
are passed through, and a proper type compares itself with what the actual type stands for, behind
its labels and directives (`Setting.compatible_iff_accepts`).
-/

namespace TypeEngine

/-- The type itself is compared when it is expected: it is no name and no trait, and there is no
label or directive around it. -/
def Ty.isProper : Ty → Bool
  | .parameter .. | .concrete .. | .numeric .. | .union .. => true
  | .parametric .. | .function .. | .tuple .. => true
  | _ => false

namespace Setting

/-- Unification succeeds, with enough fuel. -/
def Compatible (s : Setting) (a b : Ty) : Prop :=
  ∃ n u, s.unifyWithin n a b = .ok u

/-- What a proper type `a` takes, when the actual type `b` stands for `y` behind labels and
directives: variables, and by the kind of `a` its like. Components have to be related. -/
def Accepts (R : Registry) (related : Ty → Ty → Prop) (a b y : Ty) : Prop :=
  y.isParameter = true ∨
    match a with
    | .parameter .. => True
    | .concrete .. => y.same a = true
    | .union cases _ => y.same a = true ∨
      ∃ label union attributes, b = .constructor label union attributes ∧
        cases.any (·.label == label) = true
    | .numeric kind _ => ∃ kind' attributes, y = .numeric kind' attributes ∧
      kind.canRepresent kind' = true
    | .parametric .. | .function .. | .tuple .. =>
      R.SameShell a y ∧ List.Forall₂ related a.components y.components
    | _ => False

variable {s : Setting} {a b t : Ty}

/-! ## One step of unification -/

/-- Two lists with a result at each position. -/
theorem exists_along_iff {P : Ty → Ty → Ty → Prop} {as bs : List Ty} :
    (∃ us, Along P as bs us) ↔ List.Forall₂ (fun a b => ∃ u, P a b u) as bs := by
  rw [forall₂_iff_getElem?]
  constructor
  · rintro ⟨us, hus⟩
    refine ⟨hus.length_actual, fun i c d hc hd => ?_⟩
    obtain ⟨v, hv⟩ := exists_getElem? hus.length_result hc
    exact ⟨v, hus.pointwise i c d v hc hd hv⟩
  · rintro ⟨hlength, hpoint⟩
    exact exists_along hlength hpoint

theorem exists_unifyWithin_compound (n : Nat) (ha : a.isStructure = true)
    (hbound : s.boundTrait a = .ok none) :
    (∃ u, s.unifyWithin (n + 1) a b = .ok u) ↔ ∃ t, s.types.resolve b = .ok t ∧
      (t.inner.isParameter = true ∨ s.types.SameShell a t.inner ∧
        List.Forall₂ (fun c d => ∃ u, s.unifyWithin n c d = .ok u) a.components
          t.inner.components) := by
  simp only [unifyWithin_structure_eq_ok ha hbound, ← exists_along_iff]
  constructor
  · rintro ⟨u, t, ht, ⟨hparam, -⟩ | ⟨hshell, us, hus, -⟩⟩
    · exact ⟨t, ht, .inl hparam⟩
    · exact ⟨t, ht, .inr ⟨hshell, us, hus⟩⟩
  · rintro ⟨t, ht, hparam | ⟨hshell, us, hus⟩⟩
    · exact ⟨a, t, ht, .inl ⟨hparam, rfl⟩⟩
    · exact ⟨_, t, ht, .inr ⟨hshell, us, hus, rfl⟩⟩

/-- What a rule for a proper type answers, it accepts. -/
theorem Answers.accepts {n : Nat} {u : Ty} (h : s.Answers (s.unifyWithin n) a b u)
    (ha : a.isProper = true) (hbound : s.boundTrait a = .ok none) (ht : s.types.resolve b = .ok t)
    (himpl : ∀ trait implementation, t.inner ≠ .impl trait implementation) :
    Accepts s.types (fun c d => ∃ u, s.unifyWithin n c d = .ok u) a b t.inner := by
  have hactual {t' : Ty} (ht' : s.types.resolve b = .ok t') : t' = t := by
    rw [ht] at ht'
    cases ht'
    rfl
  cases h with
  | parameter => exact .inr trivial
  | absorbed _ ht' hparam => exact .inl (hactual ht' ▸ hparam)
  | concrete ht' hsame => exact .inr (hactual ht' ▸ hsame)
  | numeric ht' hinner hwide => exact .inr ⟨_, _, hactual ht' ▸ hinner, hwide⟩
  | represented ht' hinner => exact absurd (hactual ht' ▸ hinner) (himpl _ _)
  | itself hself hsame =>
    -- A union stands for itself.
    obtain ⟨hstop, hinner, -⟩ := Ty.stopsWalk_of_same hself hsame
    rw [← hactual (Registry.resolve_of_settled (Ty.isSettled_of_stopsWalk hstop)), hinner]
    cases a with
    | union => exact .inr (.inl (Ty.same_comm _ _ ▸ hsame))
    | _ => cases ha <;> cases hself
  | whole hwhole ht' hsame =>
    rw [hactual ht'] at hsame
    cases a with
    | union => exact .inr (.inl hsame)
    | _ => cases ha <;> cases hwhole
  | label hlabel => exact .inr (.inr ⟨_, _, _, rfl, hlabel⟩)
  | bound htrait | implemented htrait =>
    rw [hbound] at htrait
    cases htrait
  | compound _ ht' hshell hus =>
    rw [hactual ht'] at hshell hus
    have hall := exists_along_iff.1 ⟨_, hus⟩
    cases a with
    | parametric | function | tuple => exact .inr ⟨hshell, hall⟩
    | _ => cases hshell
  | name hname => cases a <;> cases ha <;> cases hname
  | _ => cases ha

/-- **One step of unification.** A proper type takes the actual type if their components are
compatible with one unit of fuel less. -/
theorem exists_unifyWithin_succ (n : Nat) (ha : a.isProper = true)
    (hbound : s.boundTrait a = .ok none) (ht : s.types.resolve b = .ok t)
    (himpl : ∀ trait implementation, t.inner ≠ .impl trait implementation) :
    (∃ u, s.unifyWithin (n + 1) a b = .ok u)
      ↔ Accepts s.types (fun c d => ∃ u, s.unifyWithin n c d = .ok u) a b t.inner := by
  simp only [unifyWithin_succ_eq_ok]
  constructor
  · rintro ⟨u, hu⟩
    exact hu.accepts ha hbound ht himpl
  · rintro (hparam | h)
    · by_cases hvariable : a.takesVariable = true
      · exact ⟨a, .absorbed hvariable ht hparam⟩
      · cases a with
        | parameter => exact ⟨t, .parameter ht⟩
        | _ => first | exact absurd rfl hvariable | cases ha
    · cases a with
      | parameter => exact ⟨t, .parameter ht⟩
      | concrete => exact ⟨t, .concrete ht h⟩
      | numeric =>
        obtain ⟨kind', attributes', hinner, hwide⟩ := h
        exact ⟨_, .numeric ht hinner hwide⟩
      | union =>
        rcases h with hsame | ⟨label, union, attributes', rfl, hlabel⟩
        · exact ⟨_, .whole rfl ht hsame⟩
        · exact ⟨_, .label hlabel⟩
      | parametric | function | tuple =>
        obtain ⟨us, hus⟩ := exists_along_iff.2 h.2
        exact ⟨_, .compound hbound ht h.1 hus⟩
      | _ => cases ha

/-! ## Compatible types -/

theorem compatible_iff_answers :
    s.Compatible a b ↔ ∃ n u, s.Answers (s.unifyWithin n) a b u := by
  constructor
  · rintro ⟨n, u, hu⟩
    cases n with
    | zero => cases hu
    | succ n => exact ⟨n, u, unifyWithin_succ_eq_ok.1 hu⟩
  · rintro ⟨n, u, hu⟩
    exact ⟨n + 1, u, unifyWithin_succ_eq_ok.2 hu⟩

theorem compatible_of_step {a' : Ty} (h : ∀ n, s.unifyWithin (n + 1) a b = s.unifyWithin n a' b) :
    s.Compatible a b ↔ s.Compatible a' b := by
  constructor
  · rintro ⟨n, u, hu⟩
    cases n with
    | zero => cases hu
    | succ n => exact ⟨n, u, by rw [← h, hu]⟩
  · rintro ⟨n, u, hu⟩
    exact ⟨n + 1, u, by rw [h, hu]⟩

theorem compatible_labeled {label : String} :
    s.Compatible (.labeled label a) b ↔ s.Compatible a b :=
  compatible_of_step fun _ => rfl

theorem compatible_annotated {directives : List Directive} :
    s.Compatible (.annotated directives a) b ↔ s.Compatible a b :=
  compatible_of_step fun _ => rfl

theorem compatible_of_lookup {name : String} (hname : a.lookup? = some name)
    (ha : s.types.resolve a = .ok t) : s.Compatible a b ↔ s.Compatible t b :=
  compatible_of_step fun _ => unifyWithin_of_lookup hname ha

/-- The expected type may be resolved first. -/
theorem compatible_of_resolve (ha : s.types.resolve a = .ok t) :
    s.Compatible a b ↔ s.Compatible t b := by
  induction a generalizing t with
  | labeled label a ih =>
    obtain ⟨u, hu, rfl⟩ := Registry.resolve_labeled.1 ha
    rw [compatible_labeled, compatible_labeled]
    exact ih hu
  | reference | typeAlias | constructor => exact compatible_of_lookup rfl ha
  | _ =>
    rw [Registry.resolve_of_settled rfl] at ha
    cases ha
    rfl

/-- One amount of fuel for all components. -/
theorem exists_forall₂_unifyWithin {as bs : List Ty} (h : List.Forall₂ s.Compatible as bs) :
    ∃ n, List.Forall₂ (fun a b => ∃ u, s.unifyWithin n a b = .ok u) as bs := by
  induction h with
  | nil => exact ⟨0, .nil⟩
  | cons hab _ ih =>
    obtain ⟨n, u, hu⟩ := hab
    obtain ⟨m, hall⟩ := ih
    refine ⟨max n m, .cons ⟨u, ?_⟩ (hall.imp ?_)⟩
    · exact (s.unifyWithin_le_of_le (Nat.le_max_left n m) _ _).eq_ok hu
    · rintro c d ⟨v, hv⟩
      exact ⟨v, (s.unifyWithin_le_of_le (Nat.le_max_right n m) _ _).eq_ok hv⟩

/-- **A proper type is compatible with what it accepts.** -/
theorem compatible_iff_accepts (ha : a.isProper = true) (hbound : s.boundTrait a = .ok none)
    (ht : s.types.resolve b = .ok t)
    (himpl : ∀ trait implementation, t.inner ≠ .impl trait implementation) :
    s.Compatible a b ↔ Accepts s.types s.Compatible a b t.inner := by
  constructor
  · intro h
    obtain ⟨n, u, hu⟩ := compatible_iff_answers.1 h
    refine (hu.accepts ha hbound ht himpl).imp_right fun h => ?_
    cases a with
    | parametric | function | tuple =>
      obtain ⟨hshell, hall⟩ := h
      exact ⟨hshell, hall.imp fun c d h => ⟨n, h⟩⟩
    | _ => exact h
  · intro h
    suffices hfuel : ∃ n,
        Accepts s.types (fun c d => ∃ u, s.unifyWithin n c d = .ok u) a b t.inner by
      obtain ⟨n, hn⟩ := hfuel
      obtain ⟨u, hu⟩ := (exists_unifyWithin_succ n ha hbound ht himpl).2 hn
      exact ⟨n + 1, u, hu⟩
    rcases h with h | h
    · exact ⟨0, .inl h⟩
    · cases a with
      | parametric | function | tuple =>
        obtain ⟨hshell, hall⟩ := h
        obtain ⟨n, hn⟩ := exists_forall₂_unifyWithin hall
        exact ⟨n, .inr ⟨hshell, hn⟩⟩
      | _ => exact ⟨0, .inr h⟩

/-- Compatible types unify with the fuel at hand, if they do not refer to themselves. -/
theorem compatible_iff_unify (ha : s.types.Grounded a) (hb : s.types.Grounded b) :
    s.Compatible a b ↔ ∃ u, s.unify a b = .ok u := by
  refine ⟨?_, fun h => ⟨_, h⟩⟩
  rintro ⟨n, u, hu⟩
  have hmore := (s.unifyWithin_le_of_le (Nat.le_max_left n (s.types.pairFuel a b)) a b).eq_ok hu
  exact ⟨u, (s.unifyWithin_le_of_le (Nat.le_max_right n _) a b).eq_ok_of_ne
    (unify_ne_outOfFuel ha hb) hmore⟩

end Setting

end TypeEngine

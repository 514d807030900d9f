import TypeEngine.Proofs.WellFormed

/-!
# Failed registrations leave no trace

A registration may fail late, when its draft has declared case labels and added checks. All of that
goes with the draft: a failed registration changes nothing in the builder but the list of errors
(`Builder.register_of_error`), and no registration reads that list (`Builder.register_of_ok`).

So failed registrations can be deleted. `DeletesFailures` relates the attempts that were made to
those that are left when some of the failed ones never happened, and the run lemma
`Builder.registerAll_of_deletesFailures` says that the others come out as before. It also counts the
errors. Each failed attempt leaves the one error that it returned.
-/

namespace TypeEngine

/-- A registration that was tried, and what came of it. -/
structure Attempt where
  registration : Registration
  result : Except TypeError Ty

/-- The error of a failed attempt. -/
def Attempt.error? (a : Attempt) : Option TypeError :=
  match a.result with
  | .ok _ => none
  | .error e => some e

/-- The name and the type that a successful attempt registered. -/
def Attempt.accepted? (a : Attempt) : Option (String × Ty) :=
  match a.result with
  | .ok ty => some (a.registration.name, ty)
  | .error _ => none

/-- The second list is the first one without some of its failed attempts. -/
inductive DeletesFailures : List Attempt → List Attempt → Prop
  | nil : DeletesFailures [] []
  | keep (a : Attempt) {l m : List Attempt} : DeletesFailures l m →
      DeletesFailures (a :: l) (a :: m)
  | delete (r : Registration) (e : TypeError) {l m : List Attempt} : DeletesFailures l m →
      DeletesFailures (⟨r, .error e⟩ :: l) m

namespace DeletesFailures

/-- None of the failed attempts need be deleted. -/
theorem refl (l : List Attempt) : DeletesFailures l l := by
  induction l with
  | nil => exact .nil
  | cons a l ih => exact .keep a ih

/-- All of the failed attempts may be deleted. -/
theorem succeeded (l : List Attempt) : DeletesFailures l (l.filter (·.error?.isNone)) := by
  induction l with
  | nil => exact .nil
  | cons a l ih =>
    obtain ⟨r, result⟩ := a
    cases result with
    | ok ty => exact .keep _ ih
    | error e => exact .delete r e ih

end DeletesFailures

namespace Builder

/-- Registrations in order, each with its result. -/
def attempts (b : Builder) (rs : List Registration) : List Attempt :=
  List.zipWith Attempt.mk rs (b.registerAll rs).1

theorem attempts_cons (b : Builder) (r : Registration) (rs : List Registration) :
    b.attempts (r :: rs) = ⟨r, (b.register r).1⟩ :: (b.register r).2.attempts rs :=
  rfl

theorem registerAll_cons (b : Builder) (r : Registration) (rs : List Registration) :
    (b.registerAll (r :: rs)).2 = ((b.register r).2.registerAll rs).2 :=
  rfl

theorem attempts_registrations (b : Builder) (rs : List Registration) :
    (b.attempts rs).map (·.registration) = rs := by
  induction rs generalizing b with
  | nil => rfl
  | cons r rs ih => rw [attempts_cons, List.map_cons, ih]

/-! ## One registration -/

/-- The builder with other errors. -/
def withErrors (b : Builder) (errors : List TypeError) : Builder :=
  { b with errors }

/-- A registration that succeeds does not look at the errors. -/
theorem register_of_ok {b : Builder} {r : Registration} {ty : Ty}
    (h : (b.register r).1 = .ok ty) (errors : List TypeError) :
    (b.withErrors errors).register r = (.ok ty, (b.register r).2.withErrors errors) := by
  have hcreate : (b.withErrors errors).create r = b.create r := rfl
  rw [register] at h
  rw [register, register, hcreate]
  split at h
  · cases h
    rfl
  · cases h

/-- A registration that fails adds its error and changes nothing else. -/
theorem register_of_error {b : Builder} {r : Registration} {e : TypeError}
    (h : (b.register r).1 = .error e) (errors : List TypeError) :
    (b.withErrors errors).register r = (.error e, b.withErrors (errors ++ [e])) := by
  have hcreate : (b.withErrors errors).create r = b.create r := rfl
  rw [register] at h
  rw [register, hcreate]
  split at h
  · cases h
  · cases h
    rfl

/-! ## Many registrations -/

/-- **The other attempts come out as before,** and the errors are those of the attempts that were
made. -/
theorem registerAll_of_deletesFailures {b : Builder} {rs : List Registration} {left : List Attempt}
    (h : DeletesFailures (b.attempts rs) left) (errors : List TypeError) :
    (b.withErrors errors).attempts (left.map (·.registration)) = left ∧
      ((b.withErrors errors).registerAll (left.map (·.registration))).2
        = (b.registerAll rs).2.withErrors (errors ++ left.filterMap (·.error?)) := by
  induction rs generalizing b left errors with
  | nil =>
    cases h
    simp [attempts, registerAll, withErrors]
  | cons r rs ih =>
    rw [attempts_cons] at h
    cases hresult : (b.register r).1 with
    | ok ty =>
      have hregister := register_of_ok hresult errors
      rw [hresult] at h
      cases h with
      | keep _ h =>
        obtain ⟨hattempts, hbuilder⟩ := ih h errors
        rw [List.map_cons, attempts_cons, registerAll_cons, registerAll_cons, hregister]
        exact ⟨congrArg (List.cons _) hattempts, hbuilder⟩
    | error e =>
      have hregister := register_of_error hresult
      have hnext : (b.register r).2 = b.withErrors (b.errors ++ [e]) :=
        congrArg Prod.snd (hregister b.errors)
      rw [hresult, hnext] at h
      rw [registerAll_cons, hnext]
      cases h with
      | keep _ h =>
        obtain ⟨hattempts, hbuilder⟩ := ih h (errors ++ [e])
        rw [List.map_cons, attempts_cons, registerAll_cons, hregister]
        rw [List.append_assoc] at hbuilder
        exact ⟨congrArg (List.cons _) hattempts, hbuilder⟩
      | delete _ _ h => exact ih h errors

theorem registerAll_errors (b : Builder) (rs : List Registration) :
    (b.registerAll rs).2.errors = b.errors ++ (b.attempts rs).filterMap (·.error?) := by
  obtain ⟨-, h⟩ := registerAll_of_deletesFailures (.refl (b.attempts rs)) b.errors
  rw [attempts_registrations] at h
  exact congrArg Builder.errors h

theorem register_inherited (b : Builder) (r : Registration) :
    (b.register r).2.inherited = b.inherited := by
  rw [register]
  split <;> rfl

theorem registerAll_inherited (b : Builder) (rs : List Registration) :
    (b.registerAll rs).2.inherited = b.inherited := by
  induction rs generalizing b with
  | nil => rfl
  | cons r rs ih => exact (ih _).trans (register_inherited b r)

/-- The errors of the entries that a builder drops when it builds its registry. -/
def deferred (b : Builder) : List TypeError :=
  (settle b.parent b.entries.length b.entries).2

/-- **The errors of a built registry:** those of the parent, then those of the failed attempts, then
those of the dropped entries. -/
theorem registerAll_build_errors (b : Builder) (rs : List Registration) :
    (b.registerAll rs).2.build.errors
      = b.inherited ++ b.errors ++ (b.attempts rs).filterMap (·.error?)
        ++ (b.registerAll rs).2.deferred := by
  show (b.registerAll rs).2.inherited ++ (b.registerAll rs).2.errors ++ _ = _
  rw [registerAll_inherited, registerAll_errors, ← List.append_assoc]
  rfl

end Builder

/-- **Failed registrations are invisible.** If some of the failed attempts are deleted, then the
others have the results that they had, the same registry is built, and its errors lack just the
error of each deleted attempt. -/
theorem failed_registrations_invisible (b : Builder) (rs : List Registration) {left : List Attempt}
    (h : DeletesFailures (b.attempts rs) left) :
    b.attempts (left.map (·.registration)) = left ∧
      (b.registerAll (left.map (·.registration))).2.build.value = (b.registerAll rs).2.build.value ∧
      ∃ deferred,
        (b.registerAll rs).2.build.errors
          = b.inherited ++ b.errors ++ (b.attempts rs).filterMap (·.error?) ++ deferred ∧
        (b.registerAll (left.map (·.registration))).2.build.errors
          = b.inherited ++ b.errors ++ left.filterMap (·.error?) ++ deferred := by
  obtain ⟨hattempts, hbuilder⟩ := Builder.registerAll_of_deletesFailures h b.errors
  have hattempts : b.attempts (left.map (·.registration)) = left := hattempts
  have hbuilder : (b.registerAll (left.map (·.registration))).2
      = (b.registerAll rs).2.withErrors (b.errors ++ left.filterMap (·.error?)) := hbuilder
  refine ⟨hattempts, by rw [hbuilder]; rfl, (b.registerAll rs).2.deferred,
    b.registerAll_build_errors rs, ?_⟩
  rw [b.registerAll_build_errors, hattempts, hbuilder]
  rfl

/-- Declarations over the garden. The first shape fails in its second case, when the label of a
circle is already declared, so a circle can be declared by itself. Then nothing else can have that
name, and no trait can declare a method twice. -/
def shapes : List Declaration :=
  [.union "Shape" [⟨"Circle", [.reference "Int"]⟩, ⟨"Path", [.function [.reference "Int"]]⟩],
    .concrete "Circle",
    .trait "Draw" ∅ "a"
      [⟨"draw", false, [.parameter "a", .reference "Int"]⟩,
        ⟨"draw", false, [.parameter "a", .reference "Circle"]⟩],
    .union "Shape" [⟨"Disk", [.reference "Circle"]⟩, ⟨"Empty", []⟩],
    .concrete "Circle",
    .type "Moved" ∅ [] (.parametric "List" [.reference "Shape", .reference "Shape"])]

/-- The attempts to declare the shapes. -/
def shapeAttempts : List Attempt :=
  (Builder.withParent garden).attempts (shapes.map Declaration.registration)

theorem shapes_facts :
    shapeAttempts.map (·.error?.map (·.code))
        = [some .functionTooShort, none, some .duplicateMethod, none, some .alreadyRegistered,
          none] ∧
      ((Builder.withParent garden).registerAll
          (shapes.map Declaration.registration)).2.build.value.names
        = ["Circle", "Shape", "Disk", "Empty"] := by
  decide +kernel

theorem failed_registrations_invisible_shapes :
    DeletesFailures shapeAttempts (shapeAttempts.filter (·.error?.isNone)) ∧
      shapeAttempts.map (·.error?.map (·.code))
        = [some .functionTooShort, none, some .duplicateMethod, none, some .alreadyRegistered,
          none] ∧
      (Builder.withParent garden).attempts
          ((shapeAttempts.filter (·.error?.isNone)).map (·.registration))
        = shapeAttempts.filter (·.error?.isNone) ∧
      ((Builder.withParent garden).registerAll
          ((shapeAttempts.filter (·.error?.isNone)).map (·.registration))).2.build.value.names
        = ["Circle", "Shape", "Disk", "Empty"] := by
  obtain ⟨hcodes, hnames⟩ := shapes_facts
  have hdeletes := DeletesFailures.succeeded shapeAttempts
  obtain ⟨hattempts, hvalue, -⟩ := failed_registrations_invisible _ _ hdeletes
  exact ⟨hdeletes, hcodes, hattempts, by rw [hvalue]; exact hnames⟩

end TypeEngine

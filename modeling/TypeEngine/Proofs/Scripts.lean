import TypeEngine.Proofs.UpperBounds

/-!
# Scripts of matching

Matching a pattern against a type changes bindings in one way only: it binds keys, one after
another. Which keys, to which types and in which order depends on the pattern and the type, and not
on what is bound already. A `Script` is this list of requests, with the answer that matching gives
when all of them succeed.

`Setting.script` reads the script off the pattern and the type. Matching follows it
(`Setting.extract_eq_follow`), so what matching does to bindings follows from what a single binding
does to them (`Setting.addMapping_cases`), by induction on the requests.
-/

namespace TypeEngine

/-- The keys to bind, each to a type, and the answer when all of them could be bound. -/
structure Script where
  requests : List (String × Ty)
  ending : Outcome Bool

namespace Script

/-- Bind nothing. -/
def answer (result : Outcome Bool) : Script :=
  ⟨[], result⟩

/-- Bind one key. -/
def one (key : String) (ty : Ty) : Script :=
  ⟨[(key, ty)], .ok true⟩

/-- One script after another, up to the first that does not end well. -/
def inOrder : List Script → Script
  | [] => answer (.ok true)
  | first :: rest =>
    match first.ending with
    | .ok _ => ⟨first.requests ++ (inOrder rest).requests, (inOrder rest).ending⟩
    | _ => first

end Script

namespace Setting

variable (s : Setting)

/-! ## One binding -/

/-- **What a binding does:** it binds its key, or it remembers why its key, which is bound already,
could not be bound again. -/
theorem addMapping_cases (key : String) (ty : Ty) (σ : Bindings) :
    (∃ u, s.addMapping key ty σ = (.ok true, σ.bind key u)) ∨
      (∃ existing e, σ.mappings.get? key = some existing ∧
        s.addMapping key ty σ = (.error e, σ.remember key e)) ∨
      s.addMapping key ty σ = (.outOfFuel, σ) := by
  cases hkey : σ.mappings.get? key with
  | none => exact .inl ⟨ty, addMapping_of_unbound hkey ty⟩
  | some existing =>
    rw [addMapping, hkey]
    dsimp only
    cases (s.unify existing ty).orElse fun _ => s.unify ty existing with
    | ok u => exact .inl ⟨u, rfl⟩
    | error e => exact .inr (.inl ⟨existing, e, rfl, rfl⟩)
    | outOfFuel => exact .inr (.inr rfl)

/-! ## Following a script -/

/-- Bind keys one after another, up to the first failure. -/
def perform (ending : Outcome Bool) : List (String × Ty) → Bindings → Outcome Bool × Bindings
  | [], σ => (ending, σ)
  | (key, ty) :: requests, σ =>
    match s.addMapping key ty σ with
    | (.ok _, σ) => perform ending requests σ
    | stopped => stopped

/-- Do what a script asks for. -/
def follow (script : Script) (σ : Bindings) : Outcome Bool × Bindings :=
  s.perform script.ending script.requests σ

theorem perform_append (ending : Outcome Bool) (matched : Bool) (first rest : List (String × Ty))
    (σ : Bindings) :
    s.perform ending (first ++ rest) σ
      = match s.perform (.ok matched) first σ with
        | (.ok _, σ) => s.perform ending rest σ
        | stopped => stopped := by
  induction first generalizing σ with
  | nil => rfl
  | cons request first ih =>
    obtain ⟨key, ty⟩ := request
    rw [List.cons_append, perform, perform]
    rcases s.addMapping_cases key ty σ with ⟨u, h⟩ | ⟨_, e, -, h⟩ | h
    · rw [h]
      exact ih _
    · rw [h]
    · rw [h]

/-- A script that does not end well has no good answer, whatever is bound before. -/
theorem ending_of_perform {ending : Outcome Bool} {requests : List (String × Ty)}
    {σ σ' : Bindings} {matched : Bool} (h : s.perform ending requests σ = (.ok matched, σ')) :
    ending = .ok matched := by
  induction requests generalizing σ with
  | nil =>
    cases h
    rfl
  | cons request requests ih =>
    obtain ⟨key, ty⟩ := request
    rw [perform] at h
    rcases s.addMapping_cases key ty σ with ⟨u, hbind⟩ | ⟨_, e, -, hbind⟩ | hbind
    · rw [hbind] at h
      exact ih h
    · rw [hbind] at h
      cases h
    · rw [hbind] at h
      cases h

theorem follow_one (key : String) (ty : Ty) (σ : Bindings) :
    s.follow (.one key ty) σ = s.addMapping key ty σ := by
  rw [follow, Script.one, perform]
  rcases s.addMapping_cases key ty σ with ⟨u, h⟩ | ⟨_, e, -, h⟩ | h <;> rw [h]
  rfl

/-- Matching pairs one after another follows their scripts in this order. -/
theorem extractPairs_eq_follow {go : Ty → Ty → Bindings → Outcome Bool × Bindings}
    {script : Ty → Ty → Script}
    (h : ∀ pattern ty σ, go pattern ty σ = s.follow (script pattern ty) σ)
    (pairs : List (Ty × Ty)) (σ : Bindings) :
    extractPairs go pairs σ = s.follow (.inOrder (pairs.map fun p => script p.1 p.2)) σ := by
  induction pairs generalizing σ with
  | nil => rfl
  | cons pair pairs ih =>
    obtain ⟨pattern, ty⟩ := pair
    rw [extractPairs, h, List.map_cons, Script.inOrder]
    cases hend : (script pattern ty).ending with
    | ok matched =>
      dsimp only
      rw [follow, follow, hend, s.perform_append _ matched]
      obtain ⟨result, σ'⟩ := s.perform (.ok matched) (script pattern ty).requests σ
      cases result with
      | ok => exact ih σ'
      | _ => rfl
    | _ =>
      dsimp only
      cases hfollow : s.follow (script pattern ty) σ with
      | mk result σ' =>
        cases result with
        | ok =>
          rw [s.ending_of_perform hfollow] at hend
          cases hend
        | _ => rfl

/-! ## The script of a match -/

/-- Whether the type is a proven trait that has the trait. -/
def provesTrait (t : Trait) : Ty → Bool
  | .fixedTrait fixed => s.implements t (.trait fixed)
  | _ => false

/-- The script of a pattern that asks for a type with a trait. -/
def scriptImpl (t : Trait) (pattern ty : Ty) : Script :=
  match s.types.resolve ty with
  | .error e => .answer (.error e)
  | .ok resolved =>
    if s.provesTrait t resolved.inner then
      .one t.mappingKey resolved
    else if s.implements t resolved.inner then
      .one t.mappingKey (.impl t resolved.inner)
    else
      .answer (s.clash pattern ty)

/-- The script of a proven trait. -/
def scriptFixedTrait (fixed : Trait) (pattern ty : Ty) : Script :=
  match s.types.resolve ty with
  | .error e => .answer (.error e)
  | .ok resolved =>
    if s.implements fixed resolved.inner then
      .one fixed.mappingKey pattern
    else
      .answer (s.clash pattern ty)

/-- The script of a compound pattern. -/
def scriptCompound (go : Ty → Ty → Script) (pattern ty : Ty) : Script :=
  match s.plan pattern ty with
  | .ok .skip => .answer (.ok false)
  | .ok (.witness t actual) => .one pattern.representation (.impl t actual)
  | .ok (.pairs pairs) => .inOrder (pairs.map fun p => go p.1 p.2)
  | .error e => .answer (.error e)
  | .outOfFuel => .answer .outOfFuel

/-- The script of a match with bounded fuel. -/
def scriptWithin : Nat → Ty → Ty → Script
  | 0, _, _ => .answer .outOfFuel
  | n + 1, pattern, ty =>
    match pattern with
    | .parameter name _ => .one name ty
    | .reference .. | .typeAlias .. | .constructor .. =>
      match s.types.resolve pattern with
      | .ok resolved => scriptWithin n resolved ty
      | .error e => .answer (.error e)
    | .labeled _ inner | .annotated _ inner => scriptWithin n inner ty
    | .parametric .. | .function .. | .tuple .. | .union .. | .intersection .. =>
      s.scriptCompound (scriptWithin n) pattern ty
    | .impl t _ => s.scriptImpl t pattern ty
    | .fixedTrait fixed => s.scriptFixedTrait fixed pattern ty
    | .concrete .. | .trait _ | .method _ | .numeric .. => .answer (.ok false)

/-- What matching asks for. -/
def script (pattern ty : Ty) : Script :=
  s.scriptWithin (s.types.pairFuel pattern ty) pattern ty

theorem extractImpl_eq_follow (t : Trait) (pattern ty : Ty) (σ : Bindings) :
    s.extractImpl t pattern ty σ = s.follow (s.scriptImpl t pattern ty) σ := by
  have hproves : s.extractImpl t pattern ty σ
      = match s.types.resolve ty with
        | .error e => (.error e, σ)
        | .ok resolved =>
          if s.provesTrait t resolved.inner then
            s.addMapping t.mappingKey resolved σ
          else if s.implements t resolved.inner then
            s.addMapping t.mappingKey (.impl t resolved.inner) σ
          else
            (s.clash pattern ty, σ) := rfl
  rw [hproves, scriptImpl]
  cases s.types.resolve ty with
  | error e => rfl
  | ok resolved =>
    dsimp only
    split_ifs
    · rw [follow_one]
    · rw [follow_one]
    · rfl

theorem extractFixedTrait_eq_follow (fixed : Trait) (pattern ty : Ty) (σ : Bindings) :
    s.extractFixedTrait fixed pattern ty σ = s.follow (s.scriptFixedTrait fixed pattern ty) σ := by
  unfold extractFixedTrait scriptFixedTrait
  cases s.types.resolve ty with
  | error e => rfl
  | ok resolved =>
    dsimp only
    split_ifs
    · rw [follow_one]
    · rfl

theorem extractCompound_eq_follow {go : Ty → Ty → Bindings → Outcome Bool × Bindings}
    {script : Ty → Ty → Script}
    (h : ∀ pattern ty σ, go pattern ty σ = s.follow (script pattern ty) σ)
    (pattern ty : Ty) (σ : Bindings) :
    s.extractCompound go pattern ty σ = s.follow (s.scriptCompound script pattern ty) σ := by
  unfold extractCompound scriptCompound
  cases s.plan pattern ty with
  | error e => rfl
  | outOfFuel => rfl
  | ok plan =>
    cases plan with
    | skip => rfl
    | witness t actual => exact (s.follow_one _ _ σ).symm
    | pairs pairs => exact s.extractPairs_eq_follow h pairs σ

theorem extractWithin_eq_follow (n : Nat) (pattern ty : Ty) (σ : Bindings) :
    s.extractWithin n pattern ty σ = s.follow (s.scriptWithin n pattern ty) σ := by
  induction n generalizing pattern ty σ with
  | zero => rfl
  | succ n ih =>
    unfold extractWithin scriptWithin
    cases pattern with
    | parameter name origin => exact (s.follow_one name ty σ).symm
    | reference | typeAlias | constructor =>
      dsimp only
      generalize s.types.resolve _ = resolved
      cases resolved with
      | ok resolved => exact ih resolved ty σ
      | error e => rfl
    | labeled label inner => exact ih inner ty σ
    | annotated directives inner => exact ih inner ty σ
    | parametric | function | tuple | union | intersection =>
      exact s.extractCompound_eq_follow ih _ ty σ
    | impl t base => exact s.extractImpl_eq_follow t _ ty σ
    | fixedTrait fixed => exact s.extractFixedTrait_eq_follow fixed _ ty σ
    | concrete | trait | method | numeric => rfl

/-- **Matching follows its script.** -/
theorem extract_eq_follow (pattern ty : Ty) (σ : Bindings) :
    s.extract pattern ty σ = s.follow (s.script pattern ty) σ :=
  s.extractWithin_eq_follow _ pattern ty σ

end Setting

end TypeEngine

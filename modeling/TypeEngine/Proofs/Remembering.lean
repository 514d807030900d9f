import TypeEngine.Proofs.Scripts
import TypeEngine.Proofs.Substituting

/-!
# Remembered errors

Bindings change from call to call, and some calls fail halfway. The history of a run is the list of
its failed bindings (`failures`): for each the key, the type, what was bound just before, and the
error. Everything that bindings remember is in this list. The error of a key is that of its latest
failure (`errors_runBindings`), and calls that succeed afterwards do not take it back.

**One call.** A failed binding keeps all bindings as they were just before it and remembers its
error under its key (`Setting.perform_failed`). A call without a failed binding changes no error
(`Setting.errors_perform`). No call unbinds a key (`Setting.keeps_perform`).

**Substitution.** A type consults a key if substitution comes to it with everything before it
substituted (`Setting.Consults`). If the key has an error, that is the result
(`Setting.substitute_of_consults`). The exception is a trait applied to arguments: its text is a key
as well, but an error of this key counts as no binding at all, and substitution goes on with the
arguments (`Setting.substitute_of_forgotten`).
-/

namespace TypeEngine

/-- A binding that failed. -/
structure Failure where
  key : String
  ty : Ty
  /-- The bindings just before. -/
  before : Bindings
  error : TypeError
deriving DecidableEq

/-- Every key that is bound in the first bindings is bound in the second, too. -/
def Bindings.Keeps (σ σ' : Bindings) : Prop :=
  ∀ key ty, σ.mappings.get? key = some ty → ∃ ty', σ'.mappings.get? key = some ty'

/-- Every key with an error has a binding. -/
def Bindings.Backed (σ : Bindings) : Prop :=
  ∀ key e, σ.errors.get? key = some e → ∃ ty, σ.mappings.get? key = some ty

namespace Bindings

theorem Keeps.refl (σ : Bindings) : σ.Keeps σ :=
  fun _ ty h => ⟨ty, h⟩

theorem Keeps.trans {σ σ' σ'' : Bindings} (h : σ.Keeps σ') (h' : σ'.Keeps σ'') : σ.Keeps σ'' := by
  intro key ty hty
  obtain ⟨ty', hty'⟩ := h key ty hty
  exact h' key ty' hty'

theorem keeps_bind (σ : Bindings) (key : String) (ty : Ty) : σ.Keeps (σ.bind key ty) := by
  intro k t ht
  rw [bind, Table.get?_insert]
  split_ifs
  · exact ⟨ty, rfl⟩
  · exact ⟨t, ht⟩

theorem Backed.of_keeps {σ σ' : Bindings} (h : σ.Backed) (hkeeps : σ.Keeps σ')
    (herrors : σ'.errors = σ.errors) : σ'.Backed := by
  intro key e he
  obtain ⟨ty, hty⟩ := h key e (herrors ▸ he)
  exact hkeeps key ty hty

theorem Backed.remember {σ : Bindings} (h : σ.Backed) {key : String} {ty : Ty}
    (hkey : σ.mappings.get? key = some ty) (e : TypeError) : (σ.remember key e).Backed := by
  intro k e' he'
  by_cases hk : k = key
  · exact ⟨ty, hk ▸ hkey⟩
  · rw [Bindings.remember, Table.get?_insert, if_neg hk] at he'
    exact h k e' he'

end Bindings

/-! ## One call -/

namespace Setting

variable (s : Setting)

/-- The first of the requests that fails. -/
def failure? : List (String × Ty) → Bindings → Option Failure
  | [], _ => none
  | (key, ty) :: requests, σ =>
    match s.addMapping key ty σ with
    | (.ok _, after) => failure? requests after
    | (.error e, _) => some ⟨key, ty, σ, e⟩
    | (.outOfFuel, _) => none

variable {s} (ending : Outcome Bool) {requests : List (String × Ty)} {σ : Bindings}

theorem keeps_perform : σ.Keeps (s.perform ending requests σ).2 := by
  induction requests generalizing σ with
  | nil => exact .refl σ
  | cons request requests ih =>
    obtain ⟨key, ty⟩ := request
    rw [perform]
    rcases s.addMapping_cases key ty σ with ⟨u, h⟩ | ⟨_, e, -, h⟩ | h
    · rw [h]
      exact (σ.keeps_bind key u).trans ih
    · rw [h]
      exact .refl σ
    · rw [h]
      exact .refl σ

/-- Without a failed binding the errors stay as they are. -/
theorem errors_perform (hnone : s.failure? requests σ = none) :
    (s.perform ending requests σ).2.errors = σ.errors := by
  induction requests generalizing σ with
  | nil => rfl
  | cons request requests ih =>
    obtain ⟨key, ty⟩ := request
    rw [perform]
    rw [failure?] at hnone
    rcases s.addMapping_cases key ty σ with ⟨u, h⟩ | ⟨_, e, -, h⟩ | h
    · rw [h] at hnone ⊢
      exact ih hnone
    · rw [h] at hnone
      cases hnone
    · rw [h]

/-- **A failed binding** ends the matter. Its key is bound already, and what comes out is what there
was just before, with the error under its key. Up to there no error has changed. -/
theorem perform_failed {f : Failure} (hf : s.failure? requests σ = some f) :
    s.perform ending requests σ = (.error f.error, f.before.remember f.key f.error) ∧
      s.addMapping f.key f.ty f.before = (.error f.error, f.before.remember f.key f.error) ∧
      (∃ existing, f.before.mappings.get? f.key = some existing) ∧
      σ.Keeps f.before ∧ f.before.errors = σ.errors := by
  induction requests generalizing σ with
  | nil => cases hf
  | cons request requests ih =>
    obtain ⟨key, ty⟩ := request
    rw [failure?] at hf
    rw [perform]
    rcases s.addMapping_cases key ty σ with ⟨u, h⟩ | ⟨existing, e, hkey, h⟩ | h
    · rw [h] at hf ⊢
      obtain ⟨hperform, hfailed, hbound, hkeeps, herrors⟩ := ih hf
      exact ⟨hperform, hfailed, hbound, (σ.keeps_bind key u).trans hkeeps, herrors⟩
    · rw [h] at hf ⊢
      cases hf
      exact ⟨rfl, h, ⟨existing, hkey⟩, .refl σ, rfl⟩
    · rw [h] at hf
      cases hf

theorem backed_perform (hσ : σ.Backed) : (s.perform ending requests σ).2.Backed := by
  cases hf : s.failure? requests σ with
  | none => exact hσ.of_keeps (keeps_perform ending) (errors_perform ending hf)
  | some f =>
    obtain ⟨hperform, -, ⟨existing, hbound⟩, hkeeps, herrors⟩ := perform_failed ending hf
    rw [hperform]
    exact (hσ.of_keeps hkeeps herrors).remember hbound f.error

end Setting

namespace BindingCall

variable (R : Registry) (implements : Checker)

/-- The setting of a call. -/
def setting : BindingCall → Setting
  | .extract location .. | .addMapping location .. | .get location .. | .substitute location .. =>
    ⟨R, implements, location⟩

/-- What a call asks for. Look-ups and substitutions bind nothing. -/
def script : BindingCall → Script
  | .extract location pattern ty => Setting.script ⟨R, implements, location⟩ pattern ty
  | .addMapping _ key ty => .one key ty
  | .get .. | .substitute .. => .answer (.ok false)

/-- The binding that the call fails on. -/
def failure? (σ : Bindings) (call : BindingCall) : Option Failure :=
  (call.setting R implements).failure? (call.script R implements).requests σ

variable {R implements}

theorem run_snd (σ : Bindings) (call : BindingCall) :
    (call.run R implements σ).2
      = ((call.setting R implements).follow (call.script R implements) σ).2 := by
  cases call with
  | extract location pattern ty =>
    exact congrArg Prod.snd (Setting.extract_eq_follow ⟨R, implements, location⟩ pattern ty σ)
  | addMapping location key ty =>
    exact congrArg Prod.snd (Setting.follow_one ⟨R, implements, location⟩ key ty σ).symm
  | get | substitute => rfl

/-- The answer of a call with a failed binding. -/
theorem run_fst {σ : Bindings} {call : BindingCall} {f : Failure}
    (hf : call.failure? R implements σ = some f) :
    (call.run R implements σ).1
      = .matched ((call.setting R implements).follow (call.script R implements) σ).1 := by
  cases call with
  | extract location pattern ty =>
    exact congrArg (fun r => BindingAnswer.matched r.1)
      (Setting.extract_eq_follow ⟨R, implements, location⟩ pattern ty σ)
  | addMapping location key ty =>
    exact congrArg (fun r => BindingAnswer.matched r.1)
      (Setting.follow_one ⟨R, implements, location⟩ key ty σ).symm
  | get | substitute => cases hf

theorem keeps_run (σ : Bindings) (call : BindingCall) : σ.Keeps (call.run R implements σ).2 := by
  rw [run_snd]
  exact Setting.keeps_perform _

theorem backed_run {σ : Bindings} (hσ : σ.Backed) (call : BindingCall) :
    (call.run R implements σ).2.Backed := by
  rw [run_snd]
  exact Setting.backed_perform _ hσ

/-- **A call that fails on a key.** -/
theorem run_failed {σ : Bindings} {call : BindingCall} {f : Failure}
    (hf : call.failure? R implements σ = some f) :
    (call.run R implements σ).1 = .matched (.error f.error) ∧
      (call.setting R implements).addMapping f.key f.ty f.before
        = (.error f.error, (call.run R implements σ).2) ∧
      (call.run R implements σ).2 = f.before.remember f.key f.error ∧
      f.before.errors = σ.errors := by
  obtain ⟨hperform, hfailed, -, -, herrors⟩ :=
    Setting.perform_failed (call.script R implements).ending hf
  rw [run_fst hf, run_snd, Setting.follow, hperform]
  exact ⟨rfl, hfailed, rfl, herrors⟩

/-- A call that succeeds in matching has no failed binding. -/
theorem failure?_of_matched {σ : Bindings} {call : BindingCall} {matched : Bool}
    (h : (call.run R implements σ).1 = .matched (.ok matched)) :
    call.failure? R implements σ = none := by
  cases hf : call.failure? R implements σ with
  | none => rfl
  | some f =>
    rw [(run_failed hf).1] at h
    cases h

/-- **What a call does to the error of a key.** -/
theorem errors_run (σ : Bindings) (call : BindingCall) (key : String) :
    (call.run R implements σ).2.errors.get? key
      = match call.failure? R implements σ with
        | some f => if key = f.key then some f.error else σ.errors.get? key
        | none => σ.errors.get? key := by
  cases hf : call.failure? R implements σ with
  | none =>
    dsimp only
    rw [run_snd, Setting.follow, Setting.errors_perform _ hf]
  | some f =>
    obtain ⟨-, -, hafter, herrors⟩ := run_failed hf
    rw [hafter, Bindings.remember, Table.get?_insert, herrors]

end BindingCall

/-! ## Runs -/

section Runs

variable (R : Registry) (implements : Checker)

/-- The failed bindings of a run, in their order. -/
def failures : Bindings → List BindingCall → List Failure
  | _, [] => []
  | σ, call :: calls =>
    (call.failure? R implements σ).toList ++ failures (call.run R implements σ).2 calls

/-- The latest failure of a key. -/
def latest? (key : String) (failed : List Failure) : Option Failure :=
  (failed.filter fun f => key = f.key).getLast?

/-- The bindings after calls on fresh bindings. -/
def boundBy (calls : List BindingCall) : Bindings :=
  bindingsAfter ∅ (runBindings R implements ∅ calls)

variable {R implements}

theorem runBindings_cons (σ : Bindings) (call : BindingCall) (calls : List BindingCall) :
    runBindings R implements σ (call :: calls)
      = call.run R implements σ :: runBindings R implements (call.run R implements σ).2 calls :=
  rfl

theorem bindingsAfter_append (σ : Bindings) (calls later : List BindingCall) :
    bindingsAfter σ (runBindings R implements σ (calls ++ later))
      = bindingsAfter (bindingsAfter σ (runBindings R implements σ calls)) (runBindings R implements
          (bindingsAfter σ (runBindings R implements σ calls)) later) := by
  induction calls generalizing σ with
  | nil => rfl
  | cons call calls ih =>
    rw [List.cons_append, runBindings_cons, runBindings_cons, bindingsAfter_cons,
      bindingsAfter_cons]
    exact ih _

theorem keeps_runBindings (σ : Bindings) (calls : List BindingCall) :
    σ.Keeps (bindingsAfter σ (runBindings R implements σ calls)) := by
  induction calls generalizing σ with
  | nil => exact .refl σ
  | cons call calls ih =>
    rw [runBindings_cons, bindingsAfter_cons]
    exact (call.keeps_run σ).trans (ih _)

theorem backed_runBindings {σ : Bindings} (hσ : σ.Backed) (calls : List BindingCall) :
    (bindingsAfter σ (runBindings R implements σ calls)).Backed := by
  induction calls generalizing σ with
  | nil => exact hσ
  | cons call calls ih =>
    rw [runBindings_cons, bindingsAfter_cons]
    exact ih (call.backed_run hσ)

theorem latest?_append (key : String) (first rest : List Failure) :
    latest? key (first ++ rest) = (latest? key rest).or (latest? key first) := by
  rw [latest?, List.filter_append, List.getLast?_append]
  rfl

/-- **The error of a key after a run** is that of its latest failure, and without any it is what it
was before. -/
theorem errors_runBindings (σ : Bindings) (calls : List BindingCall) (key : String) :
    (bindingsAfter σ (runBindings R implements σ calls)).errors.get? key
      = ((latest? key (failures R implements σ calls)).map (·.error)).or (σ.errors.get? key) := by
  induction calls generalizing σ with
  | nil => rfl
  | cons call calls ih =>
    rw [runBindings_cons, bindingsAfter_cons, ih, failures, latest?_append, BindingCall.errors_run]
    cases latest? key (failures R implements (call.run R implements σ).2 calls) with
    | some g => rfl
    | none =>
      cases call.failure? R implements σ with
      | none => rfl
      | some f => by_cases hkey : key = f.key <;> simp [latest?, hkey]

theorem errors_boundBy (calls : List BindingCall) (key : String) :
    (boundBy R implements calls).errors.get? key
      = (latest? key (failures R implements ∅ calls)).map (·.error) := by
  rw [boundBy, errors_runBindings]
  exact Option.or_none

theorem boundBy_append (calls later : List BindingCall) :
    boundBy R implements (calls ++ later) = bindingsAfter (boundBy R implements calls)
      (runBindings R implements (boundBy R implements calls) later) :=
  bindingsAfter_append ∅ calls later

theorem boundBy_concat (calls : List BindingCall) (call : BindingCall) :
    boundBy R implements (calls ++ [call])
      = (call.run R implements (boundBy R implements calls)).2 := by
  rw [boundBy_append, runBindings_cons, bindingsAfter_cons]
  rfl

/-- A look-up reports the error of its key. -/
theorem Bindings.get_of_error {σ : Bindings} {key : String} {e : TypeError}
    (h : σ.errors.get? key = some e) (location : Location) (context : Ty) :
    σ.get location key context = .error e := by
  rw [Bindings.get, h]

end Runs

/-- **Bindings along a run.** Over any calls on fresh bindings: a key that is bound stays bound; a
key with an error is bound; a call that fails on a key answers with the error of a binding, which
leaves all bindings as they were just before it, and remembers this error for the key and nothing
for others; a call that fails on no key, as one that succeeds, changes no error; and once a key has
an error, all later look-ups of it report the latest. -/
theorem bindings_along_runs (R : Registry) (implements : Checker) (calls later : List BindingCall)
    (call : BindingCall) :
    (∀ key ty, (boundBy R implements calls).mappings.get? key = some ty →
        ∃ ty', (boundBy R implements (calls ++ later)).mappings.get? key = some ty') ∧
      (∀ key e, (boundBy R implements calls).errors.get? key = some e →
        ∃ ty, (boundBy R implements calls).mappings.get? key = some ty) ∧
      (∀ f, call.failure? R implements (boundBy R implements calls) = some f →
        (call.run R implements (boundBy R implements calls)).1 = .matched (.error f.error) ∧
        (call.setting R implements).addMapping f.key f.ty f.before
          = (.error f.error, boundBy R implements (calls ++ [call])) ∧
        (boundBy R implements (calls ++ [call])).mappings = f.before.mappings ∧
        ∀ key, (boundBy R implements (calls ++ [call])).errors.get? key
          = if key = f.key then some f.error else (boundBy R implements calls).errors.get? key) ∧
      (call.failure? R implements (boundBy R implements calls) = none →
        (boundBy R implements (calls ++ [call])).errors = (boundBy R implements calls).errors) ∧
      (∀ matched,
        (call.run R implements (boundBy R implements calls)).1 = .matched (.ok matched) →
        (boundBy R implements (calls ++ [call])).errors = (boundBy R implements calls).errors) ∧
      ∀ key e, (boundBy R implements calls).errors.get? key = some e → ∀ location context,
        (boundBy R implements (calls ++ later)).get location key context
          = .error (((latest? key (failures R implements (boundBy R implements calls) later)).map
              (·.error)).getD e) := by
  have hnone (h : call.failure? R implements (boundBy R implements calls) = none) :
      (boundBy R implements (calls ++ [call])).errors = (boundBy R implements calls).errors := by
    rw [boundBy_concat, BindingCall.run_snd]
    exact Setting.errors_perform _ h
  refine ⟨?_, ?_, ?_, hnone, ?_, ?_⟩
  · rw [boundBy_append]
    exact keeps_runBindings _ later
  · exact backed_runBindings (fun key e he => by cases he) calls
  · intro f hf
    obtain ⟨hanswer, hfailed, hafter, -⟩ := BindingCall.run_failed hf
    rw [boundBy_concat]
    refine ⟨hanswer, hfailed, ?_, fun key => ?_⟩
    · rw [hafter]
      rfl
    · rw [BindingCall.errors_run, hf]
  · intro matched hmatched
    exact hnone (BindingCall.failure?_of_matched hmatched)
  · intro key e he location context
    refine Bindings.get_of_error ?_ location context
    rw [boundBy_append, errors_runBindings, he]
    cases latest? key (failures R implements (boundBy R implements calls) later) <;> rfl

/-- Two types, and a trait of what can be printed. -/
def press : Registry :=
  (Builder.new.declareAll [.concrete "Int", .concrete "Char", .trait "Show" ∅ "a" []]).2.build.value

/-- All that is concrete can be printed. -/
def pressChecker : Checker
  | _, .concrete .. => true
  | _, _ => false

/-- The trait of the press. -/
def pressTrait : Trait :=
  ⟨"Show", "a", [], ∅⟩

/-- The trait applied to its parameter. -/
def pressShow : Ty :=
  .parametric (.reference "Show") [.parameter "a" .written] ∅

/-- First `Int` has the trait, and then a pair of `Int` and `Char` is matched. -/
def pressCalls : List BindingCall :=
  [.extract default pressShow (.reference "Int"),
    .extract default (.tuple [.parameter "a" .written, pressShow] ∅)
      (.tuple [.reference "Int", .reference "Char"] ∅)]

/-- `Int` once more. -/
def pressLater : List BindingCall :=
  [.addMapping default "(Show a)" (.impl pressTrait (.concrete "Int" ∅))]

def pressError : TypeError :=
  .incompatible default (.concrete "Char" ∅) (.concrete "Int" ∅)

theorem press_facts :
    (failures press pressChecker ∅ pressCalls).map (fun f => (f.key, f.error))
        = [("(Show a)", pressError)] ∧
      (boundBy press pressChecker pressCalls).errors.get? "(Show a)" = some pressError ∧
      failures press pressChecker (boundBy press pressChecker pressCalls) pressLater = [] ∧
      Setting.boundTrait ⟨press, pressChecker, default⟩ pressShow = .ok (some pressTrait) ∧
      pressShow.representation = "(Show a)" ∧
      Setting.substitute ⟨press, pressChecker, default⟩ (boundBy press pressChecker pressCalls)
        (.reference "Int") pressShow = .ok (.concrete "Int" ∅) ∧
      Setting.substitute ⟨press, pressChecker, default⟩ (boundBy press pressChecker pressCalls)
        (.parameter "a" .written) pressShow = .ok (.reference "Int") := by
  decide +kernel

/-- The second call binds `a` and then fails on the trait. A later binding of the trait succeeds,
and the error stays. -/
theorem bindings_along_runs_press :
    (boundBy press pressChecker pressCalls).errors.get? "(Show a)" = some pressError ∧
      (boundBy press pressChecker (pressCalls ++ pressLater)).get default "(Show a)" pressShow
        = .error pressError := by
  obtain ⟨-, herror, hlater, -⟩ := press_facts
  obtain ⟨-, -, -, -, -, hget⟩ := bindings_along_runs press pressChecker pressCalls pressLater
    (.get default "(Show a)" pressShow)
  refine ⟨herror, ?_⟩
  rw [hget "(Show a)" pressError herror default pressShow, hlater]
  rfl

/-! ## Substituting with errors -/

/-- The second bindings are the first ones without what they know of the key. -/
structure Bindings.Without (key : String) (σ σ' : Bindings) : Prop where
  mappings : ∀ k, σ'.mappings.get? k = if k = key then none else σ.mappings.get? k
  errors : ∀ k, σ'.errors.get? k = if k = key then none else σ.errors.get? k

theorem Bindings.Without.get_eq {key k : String} {σ σ' : Bindings} (h : σ.Without key σ')
    (hk : k ≠ key) (location : Location) (context : Ty) :
    σ'.get location k context = σ.get location k context := by
  rw [Bindings.get, Bindings.get, h.errors, h.mappings, if_neg hk, if_neg hk]

theorem Bindings.Without.get_key {key : String} {σ σ' : Bindings} (h : σ.Without key σ')
    (location : Location) (context : Ty) :
    σ'.get location key context = .error (.substitutionNotFound location key context) := by
  rw [Bindings.get, h.errors, h.mappings, if_pos rfl, if_pos rfl]

namespace Setting

variable {s : Setting} {σ : Bindings} {context : Ty} {key : String}

variable (s σ context key) in
/-- Substitution into the type asks for the binding of the key, and all that it does before
succeeds. -/
inductive Consults : Ty → Prop
  | here {ty : Ty} : ty.key? = some key → Consults ty
  | name {ty t : Ty} {name : String} : ty.lookup? = some name → s.types.resolve ty = .ok t →
      Consults t → Consults ty
  | subject {ty t : Ty} {before after : List Ty} : ty.key? = none → ty.lookup? = none →
      s.witness? σ context ty = .ok none → ty.subjects = before ++ t :: after →
      (∀ u ∈ before, ∃ v, s.substitute σ u context = .ok v) → Consults t → Consults ty

/-- **What consults a key with an error fails with this error.** -/
theorem substitute_of_consults {e : TypeError} (he : σ.errors.get? key = some e) {ty : Ty}
    (h : s.Consults σ context key ty) : s.substitute σ ty context = .error e := by
  induction h with
  | here hkey =>
    rw [substitute_eq, substituteStep_of_key hkey, Bindings.get_of_error he, Outcome.liftM_error]
  | name hname ht _ ih =>
    rw [substitute_eq, substituteStep_of_lookup hname, ht, Outcome.liftM_ok, Outcome.ok_bind, ih]
  | subject hkey hname hwitness hsubjects hbefore _ ih =>
    rw [substitute_eq, substituteStep_of_subjects hkey hname hwitness, hsubjects,
      Outcome.mapM_eq_error hbefore ih, Outcome.error_bind]

/-- A trait applied to arguments is neither a key nor a name. -/
theorem key?_of_boundTrait {ty : Ty} {t : Trait} (h : s.boundTrait ty = .ok (some t)) :
    ty.key? = none ∧ ty.lookup? = none := by
  cases ty <;> first | exact ⟨rfl, rfl⟩ | cases h

/-- A trait applied to arguments is looked up under its text, and an error counts as no binding. -/
theorem witness?_of_boundTrait {ty : Ty} {t : Trait} (h : s.boundTrait ty = .ok (some t)) :
    s.witness? σ context ty = .ok (σ.get s.location ty.representation context).toOption := by
  rw [witness?, h]
  rfl

/-- **The error of a trait is not reported.** Where the text of a trait with its arguments is a key
with an error, substitution goes on with the arguments. -/
theorem substitute_of_forgotten {e : TypeError} {ty : Ty} {t : Trait}
    (he : σ.errors.get? ty.representation = some e) (ht : s.boundTrait ty = .ok (some t)) :
    s.substitute σ ty context
      = ty.subjects.mapM (fun u => s.substitute σ u context) >>= fun us => .ok (ty.refill us) := by
  obtain ⟨hkey, hname⟩ := key?_of_boundTrait ht
  have hwitness : s.witness? σ context ty = .ok none := by
    rw [witness?_of_boundTrait ht, Bindings.get_of_error he]
    rfl
  rw [substitute_eq, substituteStep_of_subjects hkey hname hwitness]

theorem witness?_without {e : TypeError} {σ' : Bindings} (he : σ.errors.get? key = some e)
    (hσ' : σ.Without key σ') (ty : Ty) : s.witness? σ' context ty = s.witness? σ context ty := by
  cases ht : s.boundTrait ty with
  | ok trait? =>
    cases trait? with
    | none => rw [witness?, witness?, ht, Outcome.ok_bind, Outcome.ok_bind]
    | some t =>
      rw [witness?_of_boundTrait ht, witness?_of_boundTrait ht]
      by_cases hrep : ty.representation = key
      · rw [hrep, hσ'.get_key, Bindings.get_of_error he]
        rfl
      · rw [hσ'.get_eq hrep]
  | _ =>
    rw [witness?, witness?, ht]
    rfl

/-- **What does not consult the key does not depend on it,** whether or not the key is the text of a
trait that the type holds. -/
theorem substitute_without {e : TypeError} {σ' : Bindings} (he : σ.errors.get? key = some e)
    (hσ' : σ.Without key σ') {ty : Ty} (h : ¬ s.Consults σ context key ty) :
    s.substitute σ' ty context = s.substitute σ ty context := by
  suffices hwithin : ∀ (n : Nat) (ty : Ty), ¬ s.Consults σ context key ty →
      s.substituteWithin σ' context n ty = s.substituteWithin σ context n ty from hwithin _ ty h
  intro n
  induction n with
  | zero => exact fun ty _ => rfl
  | succ n ih =>
    intro ty hty
    rw [substituteWithin_succ, substituteWithin_succ]
    cases hkey : ty.key? with
    | some k =>
      have hk : k ≠ key := fun hk => hty (.here (hk ▸ hkey))
      rw [substituteStep_of_key hkey, substituteStep_of_key hkey, hσ'.get_eq hk]
    | none =>
      cases hname : ty.lookup? with
      | some name =>
        rw [substituteStep_of_lookup hname, substituteStep_of_lookup hname]
        cases ht : s.types.resolve ty with
        | error e => rfl
        | ok t => exact ih t fun hconsults => hty (.name hname ht hconsults)
      | none =>
        have hwitness' : s.witness? σ' context ty = s.witness? σ context ty :=
          witness?_without he hσ' ty
        cases hwitness : s.witness? σ context ty with
        | error e => simp only [substituteStep, hkey, hname, hwitness', hwitness]; rfl
        | outOfFuel => simp only [substituteStep, hkey, hname, hwitness', hwitness]; rfl
        | ok found? =>
          rw [hwitness] at hwitness'
          cases found? with
          | some found =>
            rw [substituteStep_of_found hkey hname hwitness',
              substituteStep_of_found hkey hname hwitness]
          | none =>
            rw [substituteStep_of_subjects hkey hname hwitness',
              substituteStep_of_subjects hkey hname hwitness]
            refine congrArg (· >>= fun us => .ok (ty.refill us)) (Outcome.mapM_congr_of_ok ?_)
            intro before t after hsubjects hbefore
            refine ih t fun hconsults => hty ?_
            refine .subject hkey hname hwitness hsubjects (fun u hu => ?_) hconsults
            obtain ⟨v, hv⟩ := hbefore u hu
            exact ⟨v, substitute_of_substituteWithin hv (by simp)⟩

end Setting

/-- **Substitution after a failed binding.** Let a key have a failure in a run on fresh bindings.
What consults the key fails, with the error of its latest failure. A trait with arguments whose text
is the key consults nothing: its arguments are substituted instead. What does not consult the key
gives the same as if neither the error nor a binding of the key had ever been. -/
theorem substitute_remembers (R : Registry) (implements : Checker) (calls : List BindingCall)
    {key : String} {f : Failure} (hf : latest? key (failures R implements ∅ calls) = some f)
    (location : Location) (context : Ty) :
    (∀ ty, Setting.Consults ⟨R, implements, location⟩ (boundBy R implements calls) context key ty →
        Setting.substitute ⟨R, implements, location⟩ (boundBy R implements calls) ty context
          = .error f.error) ∧
      (∀ ty t, Setting.boundTrait ⟨R, implements, location⟩ ty = .ok (some t) →
        ty.representation = key →
        Setting.substitute ⟨R, implements, location⟩ (boundBy R implements calls) ty context
          = ty.subjects.mapM (fun u => Setting.substitute ⟨R, implements, location⟩
              (boundBy R implements calls) u context) >>= fun us => .ok (ty.refill us)) ∧
      ∀ ty σ, (boundBy R implements calls).Without key σ →
        ¬ Setting.Consults ⟨R, implements, location⟩ (boundBy R implements calls) context key ty →
        Setting.substitute ⟨R, implements, location⟩ (boundBy R implements calls) ty context
          = Setting.substitute ⟨R, implements, location⟩ σ ty context := by
  have he : (boundBy R implements calls).errors.get? key = some f.error := by
    rw [errors_boundBy, hf]
    rfl
  refine ⟨?_, ?_, ?_⟩
  · intro ty hty
    exact Setting.substitute_of_consults he hty
  · intro ty t ht hkey
    exact Setting.substitute_of_forgotten (hkey ▸ he) ht
  · intro ty σ hσ hty
    exact (Setting.substitute_without he hσ hty).symm

/-- After the second call the trait has clashed. A type that has to have the trait cannot be
substituted, but the trait with its argument can. -/
theorem substitute_remembers_press :
    Setting.substitute ⟨press, pressChecker, default⟩ (boundBy press pressChecker pressCalls)
        (.tuple [.reference "Int", .impl pressTrait (.reference "Char")] ∅) pressShow
        = .error pressError ∧
      Setting.substitute ⟨press, pressChecker, default⟩ (boundBy press pressChecker pressCalls)
        pressShow pressShow = .ok (.parametric (.reference "Show") [.reference "Int"] ∅) := by
  obtain ⟨hfailed, -, -, htrait, hrep, hint, ha⟩ := press_facts
  obtain ⟨f, hfailures, hf⟩ := List.map_eq_singleton_iff.1 hfailed
  obtain ⟨hkey, herror⟩ := Prod.mk.inj hf
  have hlatest : latest? "(Show a)" (failures press pressChecker ∅ pressCalls) = some f := by
    rw [hfailures]
    simp [latest?, hkey]
  obtain ⟨hconsults, hforgotten, -⟩ :=
    substitute_remembers press pressChecker pressCalls hlatest default pressShow
  constructor
  · rw [← herror]
    refine hconsults _ (.subject rfl rfl rfl (show _ = [Ty.reference "Int"] ++ _ :: [] from rfl) ?_
      (.here rfl))
    intro u hu
    rw [List.mem_singleton.1 hu]
    exact ⟨_, hint⟩
  · rw [hforgotten pressShow pressTrait htrait hrep]
    change [Ty.parameter "a" .written].mapM _ >>= _ = _
    rw [List.mapM_cons, ha]
    rfl

end TypeEngine

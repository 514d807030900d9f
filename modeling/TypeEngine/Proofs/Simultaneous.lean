import TypeEngine.Proofs.Cycles
import TypeEngine.Proofs.Opening
import TypeEngine.Proofs.Remembering

/-!
# Simultaneous substitution

A template (`Registry.Template`) is a type without names, traits and methods, heads aside. Its
variables are the names of its parameters as they stand in it from left to right (`Ty.occurrences`),
and `Ty.instantiate` replaces all of them at one time: what is put in is not looked at again, and
all else stays.

Substitution into a template is that (`substitute_simultaneous`). It stops at the first variable
that has no binding or an error. So it succeeds exactly if there is no such variable, and the error
does not depend on what stands behind the first one.
-/

namespace TypeEngine

/-! ## Variables and instances -/

mutual

/-- The names of the parameters in a type, from left to right, heads aside. -/
def Ty.occurrences : Ty → List String
  | .parameter name _ => [name]
  | .parametric _ params _ => occurrencesAll params
  | .function arguments _ _ => occurrencesAll arguments
  | .tuple elements _ => occurrencesAll elements
  | .union cases _ => occurrencesCases cases
  | .intersection params _ => occurrencesAll params
  | .labeled _ ty => ty.occurrences
  | .annotated _ ty => ty.occurrences
  | .concrete .. | .reference .. | .typeAlias .. | .constructor .. | .numeric .. => []
  | .trait _ | .method _ | .impl .. | .fixedTrait _ => []

def occurrencesAll : List Ty → List String
  | [] => []
  | t :: ts => t.occurrences ++ occurrencesAll ts

def occurrencesCases : List Case → List String
  | [] => []
  | ⟨_, params⟩ :: cs => occurrencesAll params ++ occurrencesCases cs

end

mutual

/-- The type with all its variables replaced, heads aside; a variable without a binding stays. -/
def Ty.instantiate (bound : String → Option Ty) : Ty → Ty
  | .parameter name origin => (bound name).getD (.parameter name origin)
  | .parametric head params attributes => .parametric head (instantiateAll bound params) attributes
  | .function arguments scope attributes =>
    .function (instantiateAll bound arguments) scope attributes
  | .tuple elements attributes => .tuple (instantiateAll bound elements) attributes
  | .union cases attributes => .union (instantiateCases bound cases) attributes
  | .intersection params attributes => .intersection (instantiateAll bound params) attributes
  | .labeled label ty => .labeled label (ty.instantiate bound)
  | .annotated directives ty => .annotated directives (ty.instantiate bound)
  | .concrete name attributes => .concrete name attributes
  | .reference name => .reference name
  | .typeAlias name attributes => .typeAlias name attributes
  | .constructor label union attributes => .constructor label union attributes
  | .numeric kind attributes => .numeric kind attributes
  | .trait trait => .trait trait
  | .method method => .method method
  | .impl trait implementation => .impl trait implementation
  | .fixedTrait trait => .fixedTrait trait

def instantiateAll (bound : String → Option Ty) : List Ty → List Ty
  | [] => []
  | t :: ts => t.instantiate bound :: instantiateAll bound ts

def instantiateCases (bound : String → Option Ty) : List Case → List Case
  | [] => []
  | ⟨label, params⟩ :: cs => ⟨label, instantiateAll bound params⟩ :: instantiateCases bound cs

end

@[simp] theorem occurrencesAll_eq (ts : List Ty) :
    occurrencesAll ts = ts.flatMap Ty.occurrences := by
  induction ts with
  | nil => rfl
  | cons t ts ih => rw [occurrencesAll, ih, List.flatMap_cons]

theorem occurrencesCases_eq (cases : List Case) :
    occurrencesCases cases = (cases.flatMap (·.params)).flatMap Ty.occurrences := by
  induction cases with
  | nil => rfl
  | cons c cases ih =>
    rw [occurrencesCases, occurrencesAll_eq, ih, List.flatMap_cons, List.flatMap_append]

@[simp] theorem instantiateAll_eq (bound : String → Option Ty) (ts : List Ty) :
    instantiateAll bound ts = ts.map (Ty.instantiate bound) := by
  induction ts with
  | nil => rfl
  | cons t ts ih => rw [instantiateAll, ih, List.map_cons]

theorem instantiateCases_eq (bound : String → Option Ty) (cases : List Case) :
    instantiateCases bound cases
      = Ty.refillCases cases ((cases.flatMap (·.params)).map (Ty.instantiate bound)) := by
  induction cases with
  | nil => rfl
  | cons c cases ih =>
    rw [instantiateCases, instantiateAll_eq, ih, List.flatMap_cons, List.map_append,
      Ty.refillCases, List.take_left' (List.length_map ..), List.drop_left' (List.length_map ..)]

namespace Ty

/-- Where substitution goes on with the subjects, the variables are theirs, in the same order. -/
theorem occurrences_of_key? {ty : Ty} (h : ty.key? = none) :
    ty.occurrences = ty.subjects.flatMap occurrences := by
  cases ty with
  | parametric | function | tuple | intersection => exact occurrencesAll_eq _
  | union cases attributes => exact occurrencesCases_eq cases
  | labeled label inner => exact (List.append_nil inner.occurrences).symm
  | annotated directives inner => exact (List.append_nil inner.occurrences).symm
  | parameter => cases h
  | _ => rfl

theorem instantiate_of_key? {ty : Ty} (h : ty.key? = none) (bound : String → Option Ty) :
    ty.instantiate bound = ty.refill (ty.subjects.map (instantiate bound)) := by
  cases ty with
  | parametric head params attributes =>
    exact congrArg (Ty.parametric head · attributes) (instantiateAll_eq bound params)
  | function arguments scope attributes =>
    exact congrArg (Ty.function · scope attributes) (instantiateAll_eq bound arguments)
  | tuple elements attributes =>
    exact congrArg (Ty.tuple · attributes) (instantiateAll_eq bound elements)
  | intersection params attributes =>
    exact congrArg (Ty.intersection · attributes) (instantiateAll_eq bound params)
  | union cases attributes =>
    exact congrArg (Ty.union · attributes) (instantiateCases_eq bound cases)
  | parameter => cases h
  | _ => rfl

end Ty

/-! ## Templates -/

/-- The node may stand in a template. -/
def Ty.isTemplateNode : Ty → Bool
  | .parameter .. | .concrete .. | .numeric .. | .tuple .. | .function .. | .union .. => true
  | .labeled .. | .annotated .. | .parametric .. => true
  | _ => false

/-- **A type to put bindings into:** parameters, concrete types and numbers, tuples, functions,
unions, labels, directives and applications, with heads that can be solved and are no traits. -/
inductive Registry.Template (R : Registry) : Ty → Prop
  | node {ty : Ty} : ty.isTemplateNode = true → R.PlainHead ty →
      (∀ t ∈ ty.subjects, Template R t) → Template R ty

/-- There is a binding for the name, and none of its bindings clashed. -/
def Bindings.Has (σ : Bindings) (name : String) : Prop :=
  (∃ ty, σ.mappings.get? name = some ty) ∧ σ.errors.get? name = none

theorem Bindings.Has.get_eq {σ : Bindings} {name : String} (h : σ.Has name) (location : Location)
    (context : Ty) (origin : Origin) :
    σ.get location name context
      = .ok ((Ty.parameter name origin).instantiate σ.mappings.get?) := by
  obtain ⟨⟨ty, hty⟩, hnone⟩ := h
  rw [Bindings.get, hnone, hty, Ty.instantiate, hty]
  rfl

/-- The error for a name that has no binding or has clashed. -/
def Bindings.missing (σ : Bindings) (location : Location) (context : Ty) (name : String) :
    TypeError :=
  (σ.errors.get? name).getD (.substitutionNotFound location name context)

theorem Bindings.get_of_not_has {σ : Bindings} {name : String} (h : ¬ σ.Has name)
    (location : Location) (context : Ty) :
    σ.get location name context = .error (σ.missing location context name) := by
  cases herror : σ.errors.get? name with
  | some e => rw [Bindings.get_of_error herror, Bindings.missing, herror, Option.getD_some]
  | none =>
    have hnone : σ.mappings.get? name = none :=
      Option.eq_none_iff_forall_ne_some.2 fun ty hty => h ⟨⟨ty, hty⟩, herror⟩
    rw [Bindings.get, Bindings.missing, herror, hnone, Option.getD_none]

theorem exists_first_not {α : Type} {p : α → Prop} {l : List α} (h : ¬ ∀ a ∈ l, p a) :
    ∃ before a after, l = before ++ a :: after ∧ (∀ b ∈ before, p b) ∧ ¬ p a := by
  induction l with
  | nil => exact absurd (by simp) h
  | cons a l ih =>
    by_cases ha : p a
    · have hl : ¬ ∀ b ∈ l, p b := fun hl => h (List.forall_mem_cons.2 ⟨ha, hl⟩)
      obtain ⟨before, b, after, rfl, hbefore, hb⟩ := ih hl
      exact ⟨a :: before, b, after, rfl, List.forall_mem_cons.2 ⟨ha, hbefore⟩, hb⟩
    · exact ⟨[], a, l, rfl, by simp, ha⟩

/-- A member of a list of lists stands in one of them, with what is before it. -/
theorem exists_of_flatMap_eq {α β : Type} {f : α → List β} {l : List α} {before after : List β}
    {b : β} (h : l.flatMap f = before ++ b :: after) :
    ∃ first a rest before' after', l = first ++ a :: rest ∧ f a = before' ++ b :: after' ∧
      before = first.flatMap f ++ before' := by
  induction l generalizing before with
  | nil => simp at h
  | cons a l ih =>
    rw [List.flatMap_cons, List.append_eq_append_iff] at h
    rcases h with ⟨more, rfl, hrest⟩ | ⟨more, hfa, hmore⟩
    · obtain ⟨first, c, rest, before', after', rfl, hc, rfl⟩ := ih hrest
      exact ⟨a :: first, c, rest, before', after', rfl, hc, by simp⟩
    · cases more with
      | nil =>
        have hl : l.flatMap f = [] ++ b :: after := hmore.symm
        obtain ⟨first, c, rest, before', after', rfl, hc, hbefore⟩ := ih hl
        refine ⟨a :: first, c, rest, before', after', rfl, hc, ?_⟩
        rw [List.append_nil] at hfa
        rw [List.flatMap_cons, List.append_assoc, ← hbefore, List.append_nil, hfa]
      | cons d more =>
        obtain ⟨rfl, -⟩ := List.cons.inj hmore
        exact ⟨[], a, l, before, more, rfl, hfa, rfl⟩

namespace Setting

variable {s : Setting} (σ : Bindings) (context : Ty)

/-- A node of a template is a parameter, or substitution goes on with its subjects. -/
theorem substitute_template {ty : Ty} (hnode : ty.isTemplateNode = true)
    (hhead : s.types.PlainHead ty) :
    (∃ name origin, ty = .parameter name origin) ∨
      ty.key? = none ∧ s.substitute σ ty context
        = ty.subjects.mapM (fun t => s.substitute σ t context) >>= fun us =>
          .ok (ty.refill us) := by
  have hwitness : s.witness? σ context ty = .ok none := by
    rw [witness?, boundTrait_of_plainHead hhead]
    rfl
  by_cases hkey : ty.key? = none
  · have hname : ty.lookup? = none := by
      cases ty <;> first | rfl | cases hnode
    exact .inr ⟨hkey, by rw [substitute_eq, substituteStep_of_subjects hkey hname hwitness]⟩
  · refine .inl ?_
    cases ty with
    | parameter name origin => exact ⟨name, origin, rfl⟩
    | impl => cases hnode
    | _ => exact absurd rfl hkey

theorem substitute_parameter (name : String) (origin : Origin) :
    s.substitute σ (.parameter name origin) context = liftM (σ.get s.location name context) := by
  rw [substitute_eq, substituteStep_of_key rfl]

/-- **With all variables bound, the result is the instance.** -/
theorem substitute_of_has {ty : Ty} (h : s.types.Template ty)
    (hall : ∀ name ∈ ty.occurrences, σ.Has name) :
    s.substitute σ ty context = .ok (ty.instantiate σ.mappings.get?) := by
  induction h with
  | @node ty hnode hhead _ ih =>
    rcases substitute_template σ context hnode hhead with
      ⟨name, origin, rfl⟩ | ⟨hkey, hsubstitute⟩
    · have hhas : σ.Has name := hall name (List.mem_singleton_self name)
      rw [substitute_parameter, hhas.get_eq s.location context origin, Outcome.liftM_ok]
    · have hmap : ty.subjects.mapM (fun t => s.substitute σ t context)
          = .ok (ty.subjects.map (Ty.instantiate σ.mappings.get?)) := by
        rw [Outcome.mapM_eq_ok, List.forall₂_map_right_iff, List.forall₂_same]
        intro t ht
        refine ih t ht fun name hname => hall name ?_
        rw [Ty.occurrences_of_key? hkey]
        exact List.mem_flatMap_of_mem ht hname
      rw [hsubstitute, hmap, Outcome.ok_bind, Ty.instantiate_of_key? hkey]

/-- **The first variable without a binding, or with an error, is the one that is reported.** -/
theorem substitute_of_not_has {ty : Ty} (h : s.types.Template ty) {before after : List String}
    {name : String} (hall : ty.occurrences = before ++ name :: after)
    (hbefore : ∀ other ∈ before, σ.Has other) (hname : ¬ σ.Has name) :
    s.substitute σ ty context = .error (σ.missing s.location context name) := by
  induction h generalizing before after with
  | @node ty hnode hhead hsubjects ih =>
    rcases substitute_template σ context hnode hhead with
      ⟨own, origin, rfl⟩ | ⟨hkey, hsubstitute⟩
    · obtain rfl : own = name := by
        have hmem : name ∈ (Ty.parameter own origin).occurrences := by simp [hall]
        exact (List.mem_singleton.1 hmem).symm
      rw [substitute_parameter, Bindings.get_of_not_has hname, Outcome.liftM_error]
    · rw [Ty.occurrences_of_key? hkey] at hall
      obtain ⟨first, t, rest, before', after', hsplit, ht, rfl⟩ := exists_of_flatMap_eq hall
      have hmem : t ∈ ty.subjects := by simp [hsplit]
      have herror := ih t hmem ht fun other hother => hbefore other (List.mem_append_right _ hother)
      -- All subjects before `t` have only variables that are bound.
      have hfirst : ∀ u ∈ first, ∃ v, s.substitute σ u context = .ok v := by
        intro u hu
        have hu' : u ∈ ty.subjects := by simp [hsplit, hu]
        refine ⟨_, substitute_of_has σ context (hsubjects u hu') fun other hother => ?_⟩
        exact hbefore other (List.mem_append_left _ (List.mem_flatMap_of_mem hu hother))
      rw [hsubstitute, hsplit, Outcome.mapM_eq_error hfirst herror, Outcome.error_bind]

end Setting

/-- **Substitution into a template is simultaneous.** It succeeds exactly if every variable has a
binding and no error. The result is then the template with each variable replaced by its binding as
it is stored. Otherwise the first variable in the order of the text that fails is the reason: the
error is the one remembered for it, or says at the location that this variable of the context has no
binding. -/
theorem substitute_simultaneous (R : Registry) (implements : Checker) (location : Location)
    (σ : Bindings) (context : Ty) {T : Ty} (hT : R.Template T) :
    ((∃ U, Setting.substitute ⟨R, implements, location⟩ σ T context = .ok U) ↔
        ∀ name ∈ T.occurrences, σ.Has name) ∧
      (∀ U, Setting.substitute ⟨R, implements, location⟩ σ T context = .ok U →
        U = T.instantiate σ.mappings.get?) ∧
      ((¬ ∀ name ∈ T.occurrences, σ.Has name) → ∃ before name after,
        T.occurrences = before ++ name :: after ∧ (∀ other ∈ before, σ.Has other) ∧ ¬ σ.Has name ∧
        Setting.substitute ⟨R, implements, location⟩ σ T context
          = .error ((σ.errors.get? name).getD ⟨.substitutionNotFound, some location,
              [("param", name), ("type", context.representation)]⟩)) := by
  have hok (h : ∀ name ∈ T.occurrences, σ.Has name) :
      Setting.substitute ⟨R, implements, location⟩ σ T context
        = .ok (T.instantiate σ.mappings.get?) :=
    Setting.substitute_of_has σ context hT h
  have hfails (h : ¬ ∀ name ∈ T.occurrences, σ.Has name) :
      ∃ before name after, T.occurrences = before ++ name :: after ∧
        (∀ other ∈ before, σ.Has other) ∧ ¬ σ.Has name ∧
        Setting.substitute ⟨R, implements, location⟩ σ T context
          = .error (σ.missing location context name) := by
    obtain ⟨before, name, after, hsplit, hbefore, hname⟩ := exists_first_not h
    exact ⟨before, name, after, hsplit, hbefore, hname,
      Setting.substitute_of_not_has σ context hT hsplit hbefore hname⟩
  have hiff : (∃ U, Setting.substitute ⟨R, implements, location⟩ σ T context = .ok U) ↔
      ∀ name ∈ T.occurrences, σ.Has name := by
    refine ⟨?_, fun h => ⟨_, hok h⟩⟩
    rintro ⟨U, hU⟩
    by_contra h
    obtain ⟨-, name, -, -, -, -, herror⟩ := hfails h
    cases hU.symm.trans herror
  refine ⟨hiff, ?_, hfails⟩
  intro U hU
  exact Outcome.ok.inj (hU.symm.trans (hok (hiff.1 ⟨U, hU⟩)))

/-- A function of a labelled `a`, a box of a list of `b` and once more `a`. -/
def stencil : Ty :=
  .function [.labeled "of" (.parameter "a" .written),
    .union [⟨"Box", [.parametric (.reference "List") [.parameter "b" .written] ∅]⟩] ∅,
    .parameter "a" .written] .topLevel ∅

/-- `a` and `b` are bound to each other. -/
def crossed : Bindings :=
  ⟨.ofList [("a", .parameter "b" .written), ("b", .parameter "a" .written)], ∅⟩

/-- The bindings of `b` clashed, and nothing is bound to `a`. -/
def clashed : Bindings :=
  ⟨.ofList [("b", .numeric .int ∅)], .ofList [("b", .ofCode .incompatibleTypes)]⟩

theorem stencil_template : woodland.value.Template stencil := by
  have hhead : woodland.value.solvedHead (.reference "List") = .ok (.concrete "List" ∅) := by
    decide +kernel
  have hparameter (name : String) : woodland.value.Template (.parameter name .written) :=
    .node rfl trivial (by simp [Ty.subjects])
  have hlist : woodland.value.Template
      (.parametric (.reference "List") [.parameter "b" .written] ∅) :=
    .node rfl ⟨_, hhead, by simp⟩ (by simp [Ty.subjects, hparameter])
  have hbox : woodland.value.Template
      (.union [⟨"Box", [.parametric (.reference "List") [.parameter "b" .written] ∅]⟩] ∅) :=
    .node rfl trivial (by simp [Ty.subjects, hlist])
  have hlabeled : woodland.value.Template (.labeled "of" (.parameter "a" .written)) :=
    .node rfl trivial (by simp [Ty.subjects, hparameter])
  exact .node rfl trivial (by simp [stencil, Ty.subjects, hlabeled, hbox, hparameter])

/-- Crossed bindings are exchanged and not followed. Where `a` is missing and `b` clashed, the error
is about `a`, which stands first. -/
theorem substitute_simultaneous_stencil :
    (∃ U, Setting.substitute ⟨woodland.value, fun _ _ => false, default⟩ crossed stencil stencil
        = .ok U ∧
      U = .function [.labeled "of" (.parameter "b" .written),
        .union [⟨"Box", [.parametric (.reference "List") [.parameter "a" .written] ∅]⟩] ∅,
        .parameter "b" .written] .topLevel ∅) ∧
      Setting.substitute ⟨woodland.value, fun _ _ => false, default⟩ clashed stencil stencil
        = .error ⟨.substitutionNotFound, some default,
            [("param", "a"), ("type", stencil.representation)]⟩ := by
  have hnames : stencil.occurrences = ["a", "b", "a"] := rfl
  obtain ⟨hiff, hinstance, -⟩ := substitute_simultaneous woodland.value (fun _ _ => false) default
    crossed stencil stencil_template
  obtain ⟨-, -, hfails⟩ := substitute_simultaneous woodland.value (fun _ _ => false) default
    clashed stencil stencil_template
  have hmissing : ¬ clashed.Has "a" := by
    rintro ⟨⟨ty, hty⟩, -⟩
    cases hty
  constructor
  · have hhas : ∀ name ∈ stencil.occurrences, crossed.Has name := by
      rw [hnames]
      simp only [List.forall_mem_cons]
      exact ⟨⟨⟨_, rfl⟩, rfl⟩, ⟨⟨_, rfl⟩, rfl⟩, ⟨⟨_, rfl⟩, rfl⟩, by simp⟩
    obtain ⟨U, hU⟩ := hiff.2 hhas
    exact ⟨U, hU, hinstance U hU⟩
  · obtain ⟨before, name, after, hsplit, hbefore, -, herror⟩ :=
      hfails fun h => hmissing (h "a" (by simp [hnames]))
    -- The first name is `a`, so nothing stands before the one that fails.
    cases before with
    | nil =>
      rw [hnames] at hsplit
      obtain ⟨rfl, -⟩ := List.cons.inj hsplit
      exact herror
    | cons other before =>
      rw [hnames] at hsplit
      obtain ⟨rfl, -⟩ := List.cons.inj hsplit
      exact absurd (hbefore "a" List.mem_cons_self) hmissing

end TypeEngine

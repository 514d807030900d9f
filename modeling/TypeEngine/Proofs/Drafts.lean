import Mathlib.Logic.Relation
import TypeEngine.Proofs.Building

/-!
# What a draft secures

A draft makes types, one after the other, out of names and of the types it has made before, and it
leaves checks and case labels behind (`Drafting.Step`). It may drop a type that it has made, and go
on after a step that failed; the checks and labels stay. When the checks pass in the complete
registry and the case labels are registered there, all types that were made fit the registry: their
names are declared, their heads take as many parameters as they are given, their intersections are
of traits, and the cases of their unions are registered for the type they belong to (`Ty.Fits`).

The checks are steady: those that pass together keep passing when more names are declared
(`Check.Steady`). A single check need not be, because the number of parameters is only compared once
the head is declared. But then the head is required to be declared as well.

`Drafting.Step.sound` states both for one step, and `Drafting.Steps.sound` for any number of them. A
registration is regular if its type is made by such steps (`Registration.Regular`). That is so for
every declaration that puts in no type or check of its own (`Declaration.isPlain`,
`Declaration.regular`). `Drafting.Leads` follows its computation and finds the steps.
-/

namespace TypeEngine

/-! ## Steady checks -/

/-- Whatever is known here is known there, with the same type. -/
def Lookup.Extends (types types' : Lookup) : Prop :=
  ∀ name ty, types name = some ty → types' name = some ty

namespace Check

/-- All checks pass. -/
def Pass (types : Lookup) (checks : List Check) : Prop :=
  ∀ check ∈ checks, check types = none

/-- Checks that pass together keep passing when more names are declared. -/
def Steady (checks : List Check) : Prop :=
  ∀ ⦃types types' : Lookup⦄, Lookup.Extends types types' → Pass types checks → Pass types' checks

theorem pass_append {types : Lookup} {l m : List Check} :
    Pass types (l ++ m) ↔ Pass types l ∧ Pass types m := by
  simp only [Pass, List.mem_append]
  exact ⟨fun h => ⟨fun c hc => h c (.inl hc), fun c hc => h c (.inr hc)⟩,
    fun h c hc => hc.elim (h.1 c) (h.2 c)⟩

theorem declared_eq_none {name : String} {types : Lookup} :
    declared name types = none ↔ ∃ ty, types name = some ty := by
  rw [declared]
  cases types name <;> simp

theorem isTrait_eq_none {name : String} {types : Lookup} :
    isTrait name types = none ↔ ∃ ty trait, types name = some ty ∧ ty.inner = .trait trait := by
  rw [isTrait]
  cases types name with
  | none => simp
  | some ty => cases h : ty.inner <;> simp [h]

theorem applies_eq_none {name : String} {params : List Ty} {types : Lookup} {ty : Ty}
    (h : types name = some ty) :
    applies name params types = none ↔ ∃ head expected attributes,
      ty.inner = .parametric head expected attributes ∧ expected.length = params.length := by
  rw [applies, h]
  cases hty : ty.inner <;> simp [hty]

theorem steady_nil : Steady [] :=
  fun _ _ _ _ _ h => (nomatch h)

theorem Steady.append {l m : List Check} (hl : Steady l) (hm : Steady m) : Steady (l ++ m) := by
  intro types types' hext h
  obtain ⟨h₁, h₂⟩ := pass_append.1 h
  exact pass_append.2 ⟨hl hext h₁, hm hext h₂⟩

theorem steady_declared (name : String) : Steady [declared name] := by
  intro types types' hext h
  obtain ⟨ty, hty⟩ := declared_eq_none.1 (h (declared name) (by simp))
  simp only [Pass, List.mem_singleton, forall_eq]
  exact declared_eq_none.2 ⟨ty, hext name ty hty⟩

theorem steady_isTrait (name : String) : Steady [isTrait name] := by
  intro types types' hext h
  obtain ⟨ty, trait, hty, htrait⟩ := isTrait_eq_none.1 (h (isTrait name) (by simp))
  simp only [Pass, List.mem_singleton, forall_eq]
  exact isTrait_eq_none.2 ⟨ty, trait, hext name ty hty, htrait⟩

/-- The number of parameters is checked beside the declaration of the head, and only then is the
check steady. -/
theorem steady_applies (name : String) (params : List Ty) :
    Steady [declared name, applies name params] := by
  intro types types' hext h
  obtain ⟨ty, hty⟩ := declared_eq_none.1 (h (declared name) (by simp))
  have happlies := (applies_eq_none hty).1 (h (applies name params) (by simp))
  intro check hcheck
  rcases List.mem_pair.1 hcheck with rfl | rfl
  · exact declared_eq_none.2 ⟨ty, hext name ty hty⟩
  · exact (applies_eq_none (hext name ty hty)).2 happlies

end Check

/-! ## Types that fit a registry -/

namespace Ty

/-- The property holds of the type and of all types below it. -/
inductive Everywhere (P : Ty → Prop) : Ty → Prop
  | node {ty : Ty} : P ty → (∀ t ∈ ty.children, Everywhere P t) → Everywhere P ty

theorem Everywhere.leaf {P : Ty → Prop} {ty : Ty} (h : P ty) (hty : ty.children = []) :
    Everywhere P ty := by
  refine .node h ?_
  rw [hty]
  exact fun _ h => (nomatch h)

/-- What a type asks of the registered types, as far as its own node goes. It belongs to the entry
`owner`. -/
def FitsAt (types : Lookup) (owner : String) : Ty → Prop
  | .reference name | .typeAlias name _ => ∃ ty, types name = some ty
  | .parametric head params _ => ∀ name, head = .reference name →
      ∃ ty head' expected attributes, types name = some ty ∧
        ty.inner = .parametric head' expected attributes ∧ expected.length = params.length
  | .intersection params _ => ∀ t ∈ params, ∃ name ty trait,
      t = .reference name ∧ types name = some ty ∧ ty.inner = .trait trait
  | .function arguments _ _ => 2 ≤ arguments.length
  | .union cases _ => (cases.map (·.label)).Nodup ∧ ∀ c ∈ cases, ∃ attributes,
      types c.label = some (.constructor c.label owner attributes)
  | _ => True

/-- The type and all types below it fit the registered types. -/
def Fits (types : Lookup) (owner : String) : Ty → Prop :=
  Everywhere (FitsAt types owner)

/-- Whether the type is a case label. -/
def isConstructor : Ty → Bool
  | .constructor .. => true
  | _ => false

/-- No case label stands in the type. -/
def ConstructorFree : Ty → Prop :=
  Everywhere fun t => t.isConstructor = false

end Ty

/-! ## The steps of a draft -/

/-- The draft is honoured: its checks pass, and its case labels are registered. -/
structure Draft.Holds (d : Draft) (types : Lookup) : Prop where
  pass : Check.Pass types d.checks
  registered : ∀ p ∈ d.constructors, types p.1 = some p.2

namespace Drafting

/-- How far a draft has come: what it has collected, and the types it has made. -/
structure Stage where
  draft : Draft
  made : List Ty

/-- Nothing is collected or made. -/
def Stage.start : Stage :=
  ⟨⟨[], []⟩, []⟩

/-- A type that can be made out of those made before and of declared case labels, and the checks
that it leaves behind. -/
inductive Makes (item : Item) (labels : List String) (made : List Ty) : List Check → Ty → Prop
  | concrete : Makes item labels made [] (.concrete item.name item.attributes)
  | reference (name : String) : Makes item labels made [.declared name] (.reference name)
  | parameter (name : String) : Makes item labels made [] (.parameter name .written)
  | numeric (kind : Numeric) : Makes item labels made [] (.numeric kind item.attributes)
  | declared {params : List Ty} : params ⊆ made → Makes item labels made []
      (.parametric (.concrete item.name item.attributes) params item.attributes)
  | applied (name : String) {params : List Ty} : params ⊆ made →
      Makes item labels made [.declared name, .applies name params]
        (.parametric (.reference name) params item.attributes)
  | function {arguments : List Ty} : 2 ≤ arguments.length → arguments ⊆ made →
      Makes item labels made [] (.function arguments .topLevel item.attributes)
  | tuple {elements : List Ty} : elements ⊆ made →
      Makes item labels made [] (.tuple elements item.attributes)
  | union {cases : List Case} : (cases.map (·.label)).Nodup →
      (∀ c ∈ cases, c.label ∈ labels ∧ c.params ⊆ made) →
      Makes item labels made [] (.union cases item.attributes)
  | intersection (names : List String) : Makes item labels made (names.map .isTrait)
      (.intersection (names.map .reference) item.attributes)
  | labeled (label : String) {ty : Ty} : ty ∈ made →
      Makes item labels made [] (.labeled label ty)
  | trait {trait : Trait} : (∀ m ∈ trait.methods, m.arguments ⊆ made) →
      Makes item labels made [] (.trait trait)

/-- A draft makes one more type, or declares a case label. -/
inductive Step (item : Item) : Stage → Stage → Prop
  | make {d : Draft} {made : List Ty} {checks : List Check} {ty : Ty} :
      Makes item d.labels made checks ty →
      Step item ⟨d, made⟩ ⟨⟨d.checks ++ checks, d.constructors⟩, ty :: made⟩
  | declareCase {d : Draft} {made : List Ty} (label : String) :
      Step item ⟨d, made⟩ ⟨⟨d.checks, d.constructors
        ++ [(label, .constructor label item.name item.attributes)]⟩, made⟩

/-- A draft goes on, step by step. -/
abbrev Steps (item : Item) : Stage → Stage → Prop :=
  Relation.ReflTransGen (Step item)

/-- The checks are steady, the case labels stand for the registered type, and the types that were
made fit wherever the draft holds. -/
structure Stage.Sound (item : Item) (p : Stage) : Prop where
  steady : Check.Steady p.draft.checks
  stands : ∀ c ∈ p.draft.constructors, c.2 = .constructor c.1 item.name item.attributes
  free : ∀ t ∈ p.made, t.ConstructorFree
  fits : ∀ types, p.draft.Holds types → ∀ t ∈ p.made, t.Fits types item.name

section

variable {item : Item} {labels : List String} {made : List Ty} {checks : List Check} {ty : Ty}

theorem Makes.steady (h : Makes item labels made checks ty) : Check.Steady checks := by
  cases h with
  | reference name => exact Check.steady_declared name
  | applied name => exact Check.steady_applies name _
  | intersection names =>
    induction names with
    | nil => exact Check.steady_nil
    | cons name names ih => exact (Check.steady_isTrait name).append ih
  | _ => exact Check.steady_nil

/-- A type is made of types that were made before, of the concrete type of the registered name, and
of names that are checked. -/
theorem Makes.children (h : Makes item labels made checks ty) {t : Ty} (ht : t ∈ ty.children) :
    t ∈ made ∨ t = .concrete item.name item.attributes ∨
      ∃ name, t = .reference name ∧
        (Check.declared name ∈ checks ∨ Check.isTrait name ∈ checks) := by
  cases h with
  | concrete | reference | parameter | numeric => cases ht
  | declared hparams =>
    rcases List.mem_cons.1 ht with rfl | ht
    · exact .inr (.inl rfl)
    · exact .inl (hparams ht)
  | applied name hparams =>
    rcases List.mem_cons.1 ht with rfl | ht
    · exact .inr (.inr ⟨name, rfl, .inl (List.mem_cons_self ..)⟩)
    · exact .inl (hparams ht)
  | function _ harguments => exact .inl (harguments ht)
  | tuple helements => exact .inl (helements ht)
  | union _ hcases =>
    obtain ⟨c, hc, ht⟩ := List.mem_flatMap.1 ht
    exact .inl ((hcases c hc).2 ht)
  | intersection names =>
    obtain ⟨name, hname, rfl⟩ := List.mem_map.1 ht
    exact .inr (.inr ⟨name, rfl, .inr (List.mem_map_of_mem hname)⟩)
  | labeled _ hty =>
    rw [List.mem_singleton.1 ht]
    exact .inl hty
  | trait hmethods =>
    obtain ⟨m, hm, ht⟩ := List.mem_flatMap.1 ht
    exact .inl (hmethods m hm ht)

theorem Makes.constructorFree (h : Makes item labels made checks ty)
    (hmade : ∀ t ∈ made, t.ConstructorFree) : ty.ConstructorFree := by
  refine .node ?_ fun t ht => ?_
  · cases h <;> rfl
  · rcases h.children ht with ht | rfl | ⟨name, rfl, -⟩
    · exact hmade t ht
    · exact .leaf rfl rfl
    · exact .leaf rfl rfl

theorem Makes.fitsAt (h : Makes item labels made checks ty) {types : Lookup}
    (hpass : Check.Pass types checks)
    (hlabels : ∀ label ∈ labels,
      types label = some (.constructor label item.name item.attributes)) :
    ty.FitsAt types item.name := by
  cases h with
  | reference name => exact Check.declared_eq_none.1 (hpass _ (List.mem_singleton_self _))
  | declared => exact fun _ h => (nomatch h)
  | @applied name params =>
    rintro _ ⟨⟩
    obtain ⟨ty, hty⟩ := Check.declared_eq_none.1 (hpass (.declared name) (by simp))
    obtain ⟨head, expected, attributes, hinner, hlength⟩ :=
      (Check.applies_eq_none hty).1 (hpass (.applies name params) (by simp))
    exact ⟨ty, head, expected, attributes, hty, hinner, hlength⟩
  | function hlength => exact hlength
  | union hnodup hcases => exact ⟨hnodup, fun c hc => ⟨_, hlabels _ (hcases c hc).1⟩⟩
  | intersection names =>
    intro t ht
    obtain ⟨name, hname, rfl⟩ := List.mem_map.1 ht
    obtain ⟨ty, trait, hty, htrait⟩ :=
      Check.isTrait_eq_none.1 (hpass _ (List.mem_map_of_mem hname))
    exact ⟨name, ty, trait, rfl, hty, htrait⟩
  | _ => trivial

theorem Makes.fits (h : Makes item labels made checks ty) {types : Lookup}
    (hpass : Check.Pass types checks)
    (hlabels : ∀ label ∈ labels,
      types label = some (.constructor label item.name item.attributes))
    (hmade : ∀ t ∈ made, t.Fits types item.name) : ty.Fits types item.name := by
  refine .node (h.fitsAt hpass hlabels) fun t ht => ?_
  rcases h.children ht with ht | rfl | ⟨name, rfl, hname | hname⟩
  · exact hmade t ht
  · exact .leaf trivial rfl
  · exact .leaf (Check.declared_eq_none.1 (hpass _ hname)) rfl
  · obtain ⟨ty, -, hty, -⟩ := Check.isTrait_eq_none.1 (hpass _ hname)
    exact .leaf ⟨ty, hty⟩ rfl

variable {p q : Stage}

/-- **One step keeps what was made sound.** -/
theorem Step.sound (h : Step item p q) (hp : p.Sound item) : q.Sound item := by
  obtain ⟨hsteady, hstands, hfree, hfits⟩ := hp
  cases h with
  | @make d made checks ty hmakes =>
    refine ⟨hsteady.append hmakes.steady, hstands,
      List.forall_mem_cons.2 ⟨hmakes.constructorFree hfree, hfree⟩, fun types hholds => ?_⟩
    obtain ⟨hpass, hregistered⟩ := hholds
    obtain ⟨hbefore, hchecks⟩ := Check.pass_append.1 hpass
    have hmade := hfits types ⟨hbefore, hregistered⟩
    refine List.forall_mem_cons.2 ⟨hmakes.fits hchecks (fun label hlabel => ?_) hmade, hmade⟩
    obtain ⟨c, hc, rfl⟩ := List.mem_map.1 hlabel
    rw [hregistered c hc, hstands c hc]
  | declareCase label =>
    refine ⟨hsteady, ?_, hfree, fun types hholds => ?_⟩
    · exact List.forall_mem_append.2 ⟨hstands, by simp⟩
    · exact hfits types ⟨hholds.pass, fun c hc => hholds.registered c (List.mem_append_left _ hc)⟩

/-- **Whatever a draft makes is sound.** -/
theorem Steps.sound (h : Steps item .start p) : p.Sound item := by
  induction h with
  | refl => exact ⟨Check.steady_nil, by simp [Stage.start], by simp [Stage.start],
      by simp [Stage.start]⟩
  | tail _ hstep ih => exact hstep.sound ih

/-! ## Drafts that keep to the steps -/

theorem Step.made_subset (h : Step item p q) : p.made ⊆ q.made := by
  cases h with
  | make => exact List.subset_cons_self _ _
  | declareCase => exact List.Subset.refl _

theorem Steps.made_subset (h : Steps item p q) : p.made ⊆ q.made := by
  induction h with
  | refl => exact List.Subset.refl _
  | tail _ hstep ih => exact List.Subset.trans ih hstep.made_subset

theorem Step.labels_subset (h : Step item p q) : p.draft.labels ⊆ q.draft.labels := by
  cases h with
  | make => exact List.Subset.refl _
  | declareCase => exact List.map_subset _ (List.subset_append_left _ _)

theorem Steps.labels_subset (h : Steps item p q) : p.draft.labels ⊆ q.draft.labels := by
  induction h with
  | refl => exact List.Subset.refl _
  | tail _ hstep ih => exact List.Subset.trans ih hstep.labels_subset

/-- If the computation succeeds at this stage, it has taken steps to another one, at which `post`
holds of its result. -/
def Leads {α : Type} (item : Item) (p : Stage) (x : Drafting α) (post : α → Stage → Prop) : Prop :=
  Ensures item p.draft x fun a d => ∃ made, Steps item p ⟨d, made⟩ ∧ post a ⟨d, made⟩

variable {α β : Type} {P : α → Stage → Prop} {Q : β → Stage → Prop}

theorem Leads.bind {x : Drafting α} {f : α → Drafting β} (hx : Leads item p x P)
    (hf : ∀ a q, Steps item p q → P a q → Leads item q (f a) Q) : Leads item p (x >>= f) Q := by
  refine Ensures.bind hx ?_
  rintro a d₁ ⟨made₁, hsteps₁, hpost₁⟩ b d hrun
  obtain ⟨made, hsteps, hpost⟩ := hf a ⟨d₁, made₁⟩ hsteps₁ hpost₁ b d hrun
  exact ⟨made, hsteps₁.trans hsteps, hpost⟩

theorem leads_pure {a : α} (h : P a p) : Leads item p (pure a) P :=
  ensures_pure ⟨p.made, .refl, h⟩

theorem leads_throw (e : TypeError) (P : α → Stage → Prop) : Leads item p (throw e) P :=
  ensures_throw e _

theorem Leads.read {f : Item → Drafting β} (h : Leads item p (f item) Q) :
    Leads item p (MonadReader.read >>= f) Q :=
  Ensures.read h

theorem Leads.checked {x : Except TypeError α} {f : α → Drafting β}
    (h : ∀ a, Leads item p (f a) Q) : Leads item p (liftM x >>= f) Q :=
  Ensures.checked h

/-- A computation that leaves checks behind and returns a type makes this type. -/
theorem leads_make {x : Factory} {checks : List Check} {ty : Ty}
    (hmakes : Makes item p.draft.labels p.made checks ty)
    (hx : (x.run item).run p.draft
      = .ok (ty, ⟨p.draft.checks ++ checks, p.draft.constructors⟩)) :
    Leads item p x fun t q => t ∈ q.made := by
  intro t d hrun
  rw [hx] at hrun
  cases hrun
  exact ⟨ty :: p.made, .single (.make hmakes), List.mem_cons_self ..⟩

theorem leads_return {ty : Ty} (hmakes : Makes item p.draft.labels p.made [] ty) :
    Leads item p (pure ty) fun t q => t ∈ q.made :=
  leads_make hmakes (by rw [List.append_nil]; rfl)

theorem leads_reference (name : String) :
    Leads item p (reference name) fun t q => t ∈ q.made :=
  leads_make (.reference name) rfl

theorem leads_parametric (name : String) {params : List Ty} (hparams : params ⊆ p.made) :
    Leads item p (parametric name params) fun t q => t ∈ q.made := by
  rw [parametric]
  refine .read ?_
  split
  · split
    · exact leads_throw _ _
    · exact leads_return (.declared hparams)
  · refine leads_make (.applied name hparams) ?_
    show Except.ok (_, Draft.mk (p.draft.checks ++ [.declared name] ++ [.applies name params]) _)
      = _
    rw [List.append_assoc]
    rfl

theorem leads_function {arguments : List Ty} (harguments : arguments ⊆ p.made) :
    Leads item p (function arguments) fun t q => t ∈ q.made := by
  refine .read ?_
  split
  · exact leads_throw _ _
  · next hlength => exact leads_return (.function (Nat.le_of_not_lt hlength) harguments)

theorem leads_declareCase (label : String) :
    Leads item p (declareCase label) fun _ q =>
      label ∉ p.draft.labels ∧ label ∈ q.draft.labels := by
  intro a d hrun
  obtain ⟨-, -, hnew, rfl⟩ := ensures_declareCase label a d hrun
  refine ⟨p.made, .single (.declareCase label), hnew, ?_⟩
  exact List.mem_map.2 ⟨(label, _), List.mem_append_right _ (List.mem_singleton_self _), rfl⟩

/-- The names of an intersection are checked one by one, as if it was made at once. -/
theorem run_traitNames {names : List String} {d d' : Draft} {ts : List Ty}
    (h : ((traitNames names).run item).run d = .ok (ts, d')) :
    ts = names.map .reference ∧ d' = ⟨d.checks ++ names.map .isTrait, d.constructors⟩ := by
  induction names generalizing d d' ts with
  | nil =>
    cases h
    exact ⟨rfl, congrArg (Draft.mk · _) (List.append_nil _).symm⟩
  | cons name names ih =>
    rw [traitNames, run_bind, run_checked] at h
    obtain ⟨⟨_, d₁⟩, hchecked, h⟩ := except_bind_eq_ok.1 h
    obtain ⟨_, -, heq⟩ := except_map_eq_ok.1 hchecked
    cases heq
    obtain ⟨⟨rest, d₂⟩, hrest, h⟩ := except_bind_eq_ok.1 h
    obtain ⟨rfl, rfl⟩ := ih hrest
    cases h
    exact ⟨rfl, congrArg (Draft.mk · _) (List.append_assoc ..)⟩

theorem leads_intersection (names : List String) :
    Leads item p (intersection names) fun t q => t ∈ q.made := by
  refine .read fun t d hrun => ?_
  rw [run_bind] at hrun
  obtain ⟨⟨ts, d₁⟩, hnames, hrun⟩ := except_bind_eq_ok.1 hrun
  obtain ⟨rfl, rfl⟩ := run_traitNames hnames
  cases hrun
  exact ⟨_, .single (.make (.intersection names)), List.mem_cons_self ..⟩

theorem leads_methods {ms : List MethodDraft}
    (hms : ∀ m ∈ ms, ∀ q, Leads item q m.arguments fun ts r => ts ⊆ r.made)
    {declared : List Method} (hdeclared : ∀ m ∈ declared, m.arguments ⊆ p.made) :
    Leads item p (methods declared ms) fun r q => ∀ m ∈ r, m.arguments ⊆ q.made := by
  induction ms generalizing declared p with
  | nil => exact leads_pure hdeclared
  | cons m ms ih =>
    refine .read (.checked fun _ =>
      (hms m (by simp) p).bind fun arguments q hsteps harguments => ?_)
    dsimp only
    split
    · exact leads_throw _ _
    · refine ih (fun n hn => hms n (by simp [hn])) (List.forall_mem_append.2 ⟨?_, by simpa⟩)
      exact fun n hn => List.Subset.trans (hdeclared n hn) hsteps.made_subset

end

end Drafting

/-! ## Plain declarations -/

mutual

/-- The expression puts in no type of its own and no check of its own, and does not look at what is
registered. -/
def Expr.isPlain : Expr → Bool
  | .concrete | .reference _ | .parameter _ | .numeric _ | .intersection _ => true
  | .parametric _ arguments | .function arguments | .tuple arguments => arePlain arguments
  | .union cases => arePlainCases cases
  | .labeled _ body => body.isPlain
  | .raw _ | .existing _ | .ifTaken .. | .require .. => false

def arePlain : List Expr → Bool
  | [] => true
  | e :: es => e.isPlain && arePlain es

def arePlainCases : List (CaseOf Expr) → Bool
  | [] => true
  | ⟨_, params⟩ :: cases => arePlain params && arePlainCases cases

end

/-- The declaration is made of plain expressions. -/
def Declaration.isPlain : Declaration → Bool
  | .type _ _ _ body => body.isPlain
  | .trait _ _ _ methods => methods.all fun m => arePlain m.arguments

section

variable {item : Item}

mutual

theorem Expr.leads : (e : Expr) → e.isPlain = true → (p : Drafting.Stage) →
    Drafting.Leads item p e.draft fun t q => t ∈ q.made
  | .concrete, _, _ => .read (Drafting.leads_return .concrete)
  | .reference name, _, _ => Drafting.leads_reference name
  | .parameter name, _, _ => .checked fun _ => Drafting.leads_return (.parameter name)
  | .numeric kind, _, _ => .read (Drafting.leads_return (.numeric kind))
  | .parametric name arguments, h, p =>
    (leads_draftAll arguments h p).bind fun _ _ _ => Drafting.leads_parametric name
  | .function arguments, h, p =>
    (leads_draftAll arguments h p).bind fun _ _ _ => Drafting.leads_function
  | .tuple arguments, h, p =>
    (leads_draftAll arguments h p).bind fun _ _ _ helements =>
      .read (Drafting.leads_return (.tuple helements))
  | .union cases, h, p =>
    (leads_draftCases cases h p).bind fun _ _ _ hcases =>
      .read (Drafting.leads_return (.union hcases.1 fun c hc => (hcases.2 c hc).2))
  | .intersection traits, _, _ => Drafting.leads_intersection traits
  | .labeled label body, h, p =>
    (body.leads h p).bind fun _ _ _ hty => Drafting.leads_return (.labeled label hty)

theorem leads_draftAll : (es : List Expr) → arePlain es = true → (p : Drafting.Stage) →
    Drafting.Leads item p (draftAll es) fun ts q => ts ⊆ q.made
  | [], _, _ => Drafting.leads_pure (List.nil_subset _)
  | e :: es, h, p =>
    have hplain := Bool.and_eq_true_iff.1 h
    (e.leads hplain.1 p).bind fun _ q _ hty =>
      (leads_draftAll es hplain.2 q).bind fun _ _ hsteps hts =>
        Drafting.leads_pure (List.cons_subset.2 ⟨hsteps.made_subset hty, hts⟩)

theorem leads_draftCases : (cs : List (CaseOf Expr)) → arePlainCases cs = true →
    (p : Drafting.Stage) → Drafting.Leads item p (draftCases cs) fun r q =>
      (r.map (·.label)).Nodup ∧ ∀ c ∈ r,
        c.label ∉ p.draft.labels ∧ c.label ∈ q.draft.labels ∧ c.params ⊆ q.made
  | [], _, _ => Drafting.leads_pure ⟨List.nodup_nil, fun _ h => (nomatch h)⟩
  | ⟨label, params⟩ :: cs, h, p =>
    have hplain := Bool.and_eq_true_iff.1 h
    (Drafting.leads_declareCase label).bind fun _ p₁ hsteps₁ hlabel =>
      (leads_draftAll params hplain.1 p₁).bind fun ts p₂ hsteps₂ hts =>
        (leads_draftCases cs hplain.2 p₂).bind fun rest q hsteps hrest => Drafting.leads_pure <| by
          -- The labels of the other cases were new when this label was declared already.
          obtain ⟨hnodup, hcases⟩ := hrest
          have hlabel₂ := hsteps₂.labels_subset hlabel.2
          refine ⟨List.nodup_cons.2 ⟨fun hmem => ?_, hnodup⟩,
            List.forall_mem_cons.2 ⟨⟨hlabel.1, hsteps.labels_subset hlabel₂,
              List.Subset.trans hts hsteps.made_subset⟩, fun c hc => ?_⟩⟩
          · obtain ⟨c, hc, heq⟩ := List.mem_map.1 hmem
            exact (hcases c hc).1 (heq ▸ hlabel₂)
          · obtain ⟨hnew, hrest⟩ := hcases c hc
            exact ⟨fun hold => hnew (hsteps₂.labels_subset (hsteps₁.labels_subset hold)), hrest⟩

end

end

/-! ## Regular registrations -/

/-- A registration that makes its type by the steps of a draft, out of names and of types that it
has made before. -/
structure Registration.Regular (r : Registration) : Prop where
  lawful : r.Lawful
  steps : ∀ {lookup : Lookup} {ty : Ty} {d : Draft},
    (r.factory.run ⟨r.name, r.attributes, lookup⟩).run ⟨[], []⟩ = .ok (ty, d) →
      ∃ made, Drafting.Steps ⟨r.name, r.attributes, lookup⟩ .start ⟨d, made⟩ ∧ ty ∈ made

/-- **A plain declaration is regular.** -/
theorem Declaration.regular {d : Declaration} (h : d.isPlain = true) : d.registration.Regular := by
  have hleads (item : Item) :
      Drafting.Leads item .start d.registration.factory fun t q => t ∈ q.made := by
    cases d with
    | type name attributes directives body => exact body.leads h _
    | trait name attributes param methods =>
      have hmethods := List.all_eq_true.1 h
      refine .read (.checked fun _ => (Drafting.leads_methods (fun m hm q => ?_)
        (List.forall_mem_nil _)).bind fun r q _ hr => Drafting.leads_return (.trait hr))
      obtain ⟨n, hn, rfl⟩ := List.mem_map.1 hm
      exact leads_draftAll n.arguments (hmethods n hn) q
  exact ⟨d.lawful, fun hrun => hleads _ _ _ hrun⟩

/-- A plain declaration makes the registration. -/
def Registration.Plain (r : Registration) : Prop :=
  ∃ d : Declaration, d.isPlain = true ∧ d.registration = r

theorem Registration.Plain.regular {r : Registration} (h : r.Plain) : r.Regular := by
  obtain ⟨d, hd, rfl⟩ := h
  exact Declaration.regular hd

theorem regular_registrations {ds : List Declaration} (hds : ∀ d ∈ ds, d.isPlain = true) :
    ∀ r ∈ ds.map Declaration.registration, r.Regular := by
  intro r hr
  obtain ⟨d, hd, rfl⟩ := List.mem_map.1 hr
  exact Declaration.regular (hds d hd)

end TypeEngine

import TypeEngine.Proofs.Blame
import TypeEngine.Proofs.Recursion

/-!
# Which types take a variable

A type variable as the actual type is taken by every expected type, but for traits. What counts is
the core of the expected type: what is left when names are followed and labels, directives and
proofs of traits are taken off.

A name is followed in the catalog that declares it (`Catalog.HasCore`). Unification follows names in
this way only as far as resolving goes, which is up to the next directives or proof of a trait. What
is under these it reads in its own registry again (`Registry.ReadsCore`). The core in this second
sense decides (`unify_variable_iff`). In registries that are built in layers the first core is the
second; above a module, a name may be read as another type, or not at all.
-/

namespace TypeEngine

open Relation

/-! ## Cores -/

/-- The type is a name, or there is a label, a directive or a trait around another type. -/
def Ty.isCovered : Ty → Bool
  | .reference _ | .typeAlias .. | .constructor .. => true
  | .labeled .. | .annotated .. | .impl .. => true
  | _ => false

theorem Ty.isCovered_of_lookup? {ty : Ty} {name : String} (h : ty.lookup? = some name) :
    ty.isCovered = true := by
  cases ty <;> first | rfl | cases h

/-- `C.Uncovers ty O t`: what the name `ty` stands for, or what is in the cover of `ty`, is `t`, and
its names are those of `O`. -/
inductive Catalog.Uncovers (C : Catalog) : Ty → Catalog → Ty → Prop
  | name {ty : Ty} {O : Catalog} {t : Ty} {name : String} : ty.lookup? = some name →
      C.Walk [] ty O t → Uncovers C ty O t
  | labeled {label : String} {ty : Ty} : Uncovers C (.labeled label ty) C ty
  | annotated {directives : List Directive} {ty : Ty} : Uncovers C (.annotated directives ty) C ty
  | impl {trait : Trait} {ty : Ty} : Uncovers C (.impl trait ty) C ty

/-- The core of the type, with each name read in the catalog that it comes from. -/
inductive Catalog.HasCore : Catalog → Ty → Ty → Prop
  | core {C : Catalog} {ty : Ty} : ty.isCovered = false → HasCore C ty ty
  | step {C O : Catalog} {ty t core : Ty} : C.Uncovers ty O t → HasCore O t core →
      HasCore C ty core

namespace Registry

variable {R : Registry} {ty t core : Ty} {name : String} {seen : List String}

/-- What the name stands for, or what is in the cover, as far as the registry is concerned. -/
def Uncovers (R : Registry) (ty t : Ty) : Prop :=
  ∃ O, R.toCatalog.Uncovers ty O t

/-- The core of the type, with all names read in the registry. -/
def ReadsCore (R : Registry) (ty core : Ty) : Prop :=
  ReflTransGen R.Uncovers ty core ∧ core.isCovered = false

/-- No name comes again behind itself on the way to the core. -/
def Straight (R : Registry) (ty : Ty) : Prop :=
  ∀ t u name, ReflTransGen R.Uncovers ty t → t.lookup? = some name → TransGen R.Uncovers t u →
    u.lookup? ≠ some name

/-- All names on the way to the core can be resolved. -/
def FindsNames (R : Registry) (ty : Ty) : Prop :=
  ∀ t name, ReflTransGen R.Uncovers ty t → t.lookup? = some name → ∃ u, R.resolve t = .ok u

theorem uncovers_of_resolve (hname : ty.lookup? = some name) (ht : R.resolve ty = .ok t) :
    R.Uncovers ty t := by
  obtain ⟨O, hwalk⟩ := resolve_eq_ok_iff.1 ht
  exact ⟨O, .name hname hwalk⟩

theorem Uncovers.isCovered (h : R.Uncovers ty t) : ty.isCovered = true := by
  obtain ⟨O, h⟩ := h
  cases h with
  | name hname => exact Ty.isCovered_of_lookup? hname
  | _ => rfl

theorem Uncovers.rightUnique (R : Registry) : Relator.RightUnique R.Uncovers := by
  rintro ty t u ⟨O, ht⟩ ⟨P, hu⟩
  cases ht with
  | name hname hwalk =>
    cases hu with
    | name _ hwalk' => exact (hwalk.unique hwalk').2
    | _ => cases hname
  | _ =>
    cases hu with
    | name hname => cases hname
    | _ => rfl

theorem ReadsCore.not_uncovers (h : R.ReadsCore ty core) (next : Ty) : ¬ R.Uncovers core next := by
  intro hnext
  have hcore := h.2
  rw [hnext.isCovered] at hcore
  cases hcore

/-- A type has one core at most. -/
theorem ReadsCore.unique {core' : Ty} (h : R.ReadsCore ty core) (h' : R.ReadsCore ty core') :
    core' = core :=
  eq_of_ends (Uncovers.rightUnique R) h'.1 h'.not_uncovers h.1 h.not_uncovers

theorem Uncovers.unfolds (h : R.Uncovers ty t) : R.Unfolds ty t := by
  obtain ⟨O, h⟩ := h
  cases h with
  | name hname hwalk => exact .name hname (resolve_eq_ok_iff.2 ⟨O, hwalk⟩)
  | labeled => exact .part (List.mem_singleton_self t)
  | annotated => exact .part (List.mem_singleton_self t)
  | impl => exact .part (List.mem_singleton_self t)

/-- From a grounded type, the way to the core is straight. -/
theorem Grounded.straight (h : R.Grounded ty) : R.Straight ty := by
  have hle : R.Uncovers ≤ R.Unfolds := fun _ _ => Uncovers.unfolds
  intro t u name ht hname hu
  exact h.acyclic (ReflTransGen.mono hle _ _ ht) hname (TransGen.mono hle _ _ hu)

/-! ## The way to the core -/

/-- The way is straight, and the names in `seen` do not come. -/
structure StraightBelow (R : Registry) (seen : List String) (ty : Ty) : Prop where
  straight : R.Straight ty
  fresh : ∀ t name, ReflTransGen R.Uncovers ty t → t.lookup? = some name → name ∉ seen

/-- **Each step spends something,** a name or a node. -/
theorem StraightBelow.step (h : R.StraightBelow seen ty) (ht : R.Uncovers ty t) :
    ∃ seen', R.StraightBelow seen' t ∧ R.budget seen' t < R.budget seen ty := by
  have hstraight : R.Straight t := fun u v name hu => h.straight u v name (.head ht hu)
  have hfresh (u : Ty) (name : String) (hu : ReflTransGen R.Uncovers t u)
      (hname : u.lookup? = some name) : name ∉ seen := h.fresh u name (.head ht hu) hname
  have hpart (hweight : t.weight < ty.weight) :
      ∃ seen', R.StraightBelow seen' t ∧ R.budget seen' t < R.budget seen ty :=
    ⟨seen, ⟨hstraight, hfresh⟩, by unfold budget; omega⟩
  obtain ⟨O, huncovers⟩ := ht
  cases huncovers with
  | @name _ _ _ name hname hwalk =>
    have hresolve : R.resolve ty = .ok t := resolve_eq_ok_iff.2 ⟨O, hwalk⟩
    have hspent := budget_of_name hname hresolve (h.fresh ty name .refl hname)
    refine ⟨seen ++ [name], ⟨hstraight, ?_⟩, hspent⟩
    intro u other hu hother hmem
    rcases List.mem_append.1 hmem with hmem | hmem
    · exact hfresh u other hu hother hmem
    · rw [List.mem_singleton.1 hmem] at hother
      exact h.straight ty u name .refl hname (.head' ⟨O, .name hname hwalk⟩ hu) hother
  | labeled => exact hpart (by rw [Ty.weight]; omega)
  | annotated => exact hpart (by rw [Ty.weight]; omega)
  | impl => exact hpart (by rw [Ty.weight]; omega)

/-- **A straight way on which all names can be resolved comes to a core.** -/
theorem StraightBelow.exists_core (h : R.StraightBelow seen ty) (hnames : R.FindsNames ty) :
    ∃ core, R.ReadsCore ty core := by
  induction hn : R.budget seen ty using Nat.strong_induction_on generalizing seen ty with
  | _ n ih =>
    subst hn
    have hstep {t : Ty} (ht : R.Uncovers ty t) : ∃ core, R.ReadsCore ty core := by
      obtain ⟨seen', hbelow, hlt⟩ := h.step ht
      obtain ⟨core, hreach, hcore⟩ := ih _ hlt hbelow
        (fun u name hu hname => hnames u name (.head ht hu) hname) rfl
      exact ⟨core, .head ht hreach, hcore⟩
    have hname {name : String} (hname : ty.lookup? = some name) :
        ∃ core, R.ReadsCore ty core := by
      obtain ⟨t, ht⟩ := hnames ty name .refl hname
      exact hstep (uncovers_of_resolve hname ht)
    cases ty with
    | reference | typeAlias | constructor => exact hname rfl
    | labeled => exact hstep ⟨_, .labeled⟩
    | annotated => exact hstep ⟨_, .annotated⟩
    | impl => exact hstep ⟨_, .impl⟩
    | _ => exact ⟨_, .refl, rfl⟩

/-- **In layers, names are read alike.** The core with names read where they come from is the core
with all names read in the registry. -/
theorem readsCore_of_hasCore (hR : R.toCatalog.Layered) {C : Catalog} (hC : C.Under R.toCatalog)
    (h : C.HasCore ty core) : R.ReadsCore ty core := by
  induction h with
  | core hcore => exact ⟨.refl, hcore⟩
  | @step C O ty t core huncovers _ ih =>
    have hstep : R.Uncovers ty t ∧ O.Under R.toCatalog := by
      cases huncovers with
      | name hname hwalk =>
        exact ⟨uncovers_of_resolve hname (resolve_of_walk hR hC hname hwalk),
          (hwalk.under (hR.of_under hC)).trans hC⟩
      | labeled => exact ⟨⟨_, .labeled⟩, hC⟩
      | annotated => exact ⟨⟨_, .annotated⟩, hC⟩
      | impl => exact ⟨⟨_, .impl⟩, hC⟩
    obtain ⟨hreach, hcore⟩ := ih hstep.2
    exact ⟨.head hstep.1 hreach, hcore⟩

/-- The type stands for a variable: it is one, or a name for one, with labels and directives around
it. -/
def StandsForVariable (R : Registry) (b : Ty) : Prop :=
  ∃ t, R.resolve b = .ok t ∧ t.inner.isParameter = true

theorem StandsForVariable.parameter (R : Registry) (name : String) (origin : Origin) :
    R.StandsForVariable (.parameter name origin) :=
  ⟨_, resolve_of_settled rfl, rfl⟩

theorem StandsForVariable.labeled (h : R.StandsForVariable ty) (label : String) :
    R.StandsForVariable (.labeled label ty) := by
  obtain ⟨t, ht, hvariable⟩ := h
  exact ⟨.labeled label t, resolve_labeled.2 ⟨t, ht, rfl⟩, hvariable⟩

/-- A variable with labels and directives around it is its own resolution. -/
theorem standsForVariable_of_inner {t : Ty} (hvariable : t.inner.isParameter = true) :
    R.StandsForVariable t := by
  refine ⟨t, resolve_of_settled ?_, hvariable⟩
  induction t with
  | labeled label t ih => exact ih hvariable
  | reference | typeAlias | constructor => cases hvariable
  | _ => rfl

/-- What is its own resolution and no variable does not stand for one. -/
theorem not_standsForVariable (hstops : ty.stopsWalk = true)
    (hinner : ty.inner.isParameter = false) : ¬ R.StandsForVariable ty := by
  rintro ⟨t, ht, hvariable⟩
  rw [resolve_of_settled (Ty.isSettled_of_stopsWalk hstops)] at ht
  cases ht
  rw [hinner] at hvariable
  cases hvariable

end Registry

/-! ## One step -/

namespace Setting

variable {s : Setting} {go : Ty → Ty → Outcome Ty} {a b t : Ty} {n : Nat}

/-- A variable fits nothing that is compared before it is looked up, and proves no trait. -/
theorem not_same_of_standsForVariable (ha : a.takesItself = true)
    (hb : s.types.StandsForVariable b) : a.same b = false := by
  rw [Bool.eq_false_iff]
  intro hsame
  obtain ⟨hstop, hinner, hparam⟩ := Ty.stopsWalk_of_same ha hsame
  exact Registry.not_standsForVariable hstop (by rw [hinner]; exact hparam) hb

theorem proof?_of_standsForVariable (trait : Trait) (hb : s.types.StandsForVariable b) :
    b.proof? trait = none := by
  cases b with
  | trait | fixedTrait => exact absurd hb (Registry.not_standsForVariable rfl rfl)
  | _ => rfl

/-- A method takes a variable as the function that it stands for. -/
theorem exists_unifyMethod_variable {m : Method} (hb : s.types.StandsForVariable b) :
    ∃ u, s.unifyWithin (n + 2) (.method m) b = .ok u := by
  obtain ⟨t, ht, hvariable⟩ := id hb
  have hfunction : s.unifyWithin (n + 1) m.toFunction b = .ok m.toFunction :=
    unifyWithin_succ_eq_ok.2 (.absorbed rfl ht hvariable)
  have hasFunction : b.asFunction = b := by
    cases b with
    | method => exact absurd hb (Registry.not_standsForVariable rfl rfl)
    | _ => rfl
  rw [← hasFunction] at hfunction
  exact ⟨_, unifyWithin_succ_eq_ok.2 (.method (not_same_of_standsForVariable rfl hb) hfunction)⟩

/-- A trait takes no variable, and without implementations, a proven trait takes none. -/
theorem not_answers_variable {u : Ty} (hnone : ∀ trait ty, s.implements trait ty = false)
    (ha : (∃ trait, a = .trait trait) ∨ ∃ trait, a = .fixedTrait trait)
    (hb : s.types.StandsForVariable b) : ¬ s.Answers go a b u := by
  obtain ⟨t, ht, hvariable⟩ := id hb
  intro h
  rcases ha with ⟨trait, rfl⟩ | ⟨fixed, rfl⟩
  · cases h with
    | whole _ ht' hsame =>
      rw [ht] at ht'
      cases ht'
      cases hinner : t.inner <;> simp_all [Ty.isParameter, Ty.same, Ty.sameUnder]
    | compound _ _ hshell => cases hshell
    | absorbed hkind | name hkind | itself hkind | bound hkind | implemented hkind => cases hkind
  · cases h with
    | itself _ hsame =>
      rw [not_same_of_standsForVariable rfl hb] at hsame
      cases hsame
    | shown hname =>
      cases b with
      | trait | impl => exact Registry.not_standsForVariable rfl rfl hb
      | _ => cases hname
    | confirmed _ hhas =>
      rw [hnone] at hhas
      cases hhas
    | compound _ _ hshell => cases hshell
    | absorbed hkind | name hkind | whole hkind | bound hkind | implemented hkind => cases hkind

/-- Without implementations, a value of a trait takes a variable if its implementation does. -/
theorem exists_unifyImpl_variable {trait : Trait} {implementation : Ty}
    (hnone : ∀ trait ty, s.implements trait ty = false) (hb : s.types.StandsForVariable b)
    (ht : s.types.resolve b = .ok t) :
    (∃ u, s.unifyWithin (n + 1) (.impl trait implementation) b = .ok u)
      ↔ ∃ u, s.unifyWithin n implementation t = .ok u := by
  have hsame : (Ty.impl trait implementation).same b = false :=
    not_same_of_standsForVariable rfl hb
  have hproof := proof?_of_standsForVariable trait hb
  simp only [unifyWithin_succ_eq_ok]
  constructor
  · rintro ⟨u, hu⟩
    cases hu with
    | implementation _ _ ht' hu =>
      rw [ht] at ht'
      cases ht'
      exact ⟨_, hu⟩
    | itself _ hself =>
      rw [hsame] at hself
      cases hself
    | proof hproven =>
      rw [hproof] at hproven
      cases hproven
    | proven _ _ _ _ hhas =>
      rw [hnone] at hhas
      cases hhas
    | compound _ _ hshell => cases hshell
    | absorbed hkind | name hkind | whole hkind | bound hkind | implemented hkind => cases hkind
  · rintro ⟨u, hu⟩
    exact ⟨_, .implementation hsame hproof ht hu⟩

/-- **What is not covered takes a variable, but for traits.** -/
theorem exists_unifyWithin_core (hnone : ∀ trait ty, s.implements trait ty = false)
    (ha : a.isCovered = false) (hb : s.types.StandsForVariable b) :
    (∃ u, s.unifyWithin (n + 2) a b = .ok u)
      ↔ (∀ trait, a ≠ .trait trait) ∧ ∀ trait, a ≠ .fixedTrait trait := by
  obtain ⟨t, ht, hvariable⟩ := id hb
  cases a with
  | reference | typeAlias | constructor | labeled | annotated | impl => cases ha
  | parameter => exact iff_of_true ⟨t, unifyWithin_succ_eq_ok.2 (.parameter ht)⟩ (by simp)
  | concrete | numeric | union | intersection | parametric | function | tuple =>
    exact iff_of_true ⟨_, unifyWithin_succ_eq_ok.2 (.absorbed rfl ht hvariable)⟩ (by simp)
  | method => exact iff_of_true (exists_unifyMethod_variable hb) (by simp)
  | trait trait =>
    refine iff_of_false ?_ (by simp)
    rintro ⟨u, hu⟩
    exact not_answers_variable hnone (.inl ⟨trait, rfl⟩) hb (unifyWithin_succ_eq_ok.1 hu)
  | fixedTrait fixed =>
    refine iff_of_false ?_ (by simp)
    rintro ⟨u, hu⟩
    exact not_answers_variable hnone (.inr ⟨fixed, rfl⟩) hb (unifyWithin_succ_eq_ok.1 hu)

/-- **The core of the expected type decides.** -/
theorem exists_unifyWithin_variable {core : Ty} {seen : List String}
    (hnone : ∀ trait ty, s.implements trait ty = false) (ha : s.types.StraightBelow seen a)
    (hcore : s.types.ReadsCore a core) (hb : s.types.StandsForVariable b)
    (hn : s.types.budget seen a < n) :
    (∃ u, s.unifyWithin n a b = .ok u)
      ↔ (∀ trait, core ≠ .trait trait) ∧ ∀ trait, core ≠ .fixedTrait trait := by
  induction n generalizing a b seen with
  | zero => omega
  | succ n ih =>
    obtain ⟨hreach, hcovered⟩ := hcore
    rcases hreach.cases_head with rfl | ⟨a', hstep, hreach⟩
    · -- The budget is not zero, so there is fuel for the detour of a method.
      obtain ⟨m, rfl⟩ : ∃ m, n = m + 1 := by
        have := a.weight_pos
        unfold Registry.budget at hn
        exact ⟨n - 1, by omega⟩
      exact exists_unifyWithin_core hnone hcovered hb
    · obtain ⟨seen', ha', hlt⟩ := ha.step hstep
      have hnext {d : Ty} (hd : s.types.StandsForVariable d) :=
        ih ha' ⟨hreach, hcovered⟩ hd (by omega)
      obtain ⟨O, huncovers⟩ := hstep
      cases huncovers with
      | name hname hwalk =>
        rw [unifyWithin_of_lookup hname (Registry.resolve_eq_ok_iff.2 ⟨O, hwalk⟩)]
        exact hnext hb
      | labeled => exact hnext hb
      | annotated => exact hnext hb
      | impl =>
        obtain ⟨t, ht, hvariable⟩ := id hb
        rw [← hnext (Registry.standsForVariable_of_inner hvariable)]
        exact exists_unifyImpl_variable hnone hb ht

end Setting

/-- **Which types take a variable.** Without implementations of traits, let `b` be a variable, a
name for one, or one with labels around it, and let no name come again behind itself on the way to
the core of `T`. If all names on this way can be resolved, `T` has a core. It is the only one, and
`T` and `b` unify exactly if it is neither a trait nor the proof of a trait. This is the core with
all names read in the registry. In a registry that is built in layers, the core with each name read
where it is declared is the same. -/
theorem unify_variable_iff (R : Registry) (location : Location) {T b : Ty} (hT : R.Straight T)
    (hb : R.StandsForVariable b) :
    (R.FindsNames T → ∃ core, R.ReadsCore T core) ∧
      (∀ core, R.ReadsCore T core → (∀ other, R.ReadsCore T other → other = core) ∧
        ((∃ U, R.unify location T b (fun _ _ => false) = .ok U) ↔
          (∀ trait, core ≠ .trait trait) ∧ ∀ trait, core ≠ .fixedTrait trait)) ∧
      (R.toCatalog.Layered → ∀ core, R.toCatalog.HasCore T core → R.ReadsCore T core) := by
  have hbelow : R.StraightBelow [] T := ⟨hT, fun _ _ _ _ => List.not_mem_nil⟩
  refine ⟨hbelow.exists_core, ?_, fun hR core => Registry.readsCore_of_hasCore hR (.refl _)⟩
  intro core hcore
  have hfuel : R.budget [] T < R.pairFuel T b := by
    have := R.budget_add_lt_pairFuel T b
    omega
  refine ⟨fun other => hcore.unique, ?_⟩
  exact Setting.exists_unifyWithin_variable (s := ⟨R, fun _ _ => false, location⟩)
    (fun _ _ => rfl) hbelow hcore hb hfuel

/-- Items, a documented name for them, and a name for a variable. -/
def bench : Built :=
  (Builder.new.declareAll [.concrete "Item", .type "Tool" ∅ [⟨"doc", []⟩] (.reference "Item"),
    .type "Any" ∅ [] (.parameter "x")]).2.build

/-- Above the bench as a module, a trait with the name of the items. -/
def smithy : Built :=
  ((Builder.withParent (Registry.ofModules none [("Geo", bench)])).declareAll
    [.trait "Item" ∅ "a" []]).2.build

/-- What the name of the tools stands for. -/
def toolEntry : Ty :=
  .annotated [⟨"doc", []⟩] (.typeAlias "Item" ∅)

/-- The trait of the smithy. -/
def itemTrait : Trait :=
  ⟨"Item", "a", [], ∅⟩

theorem bench_facts :
    bench.value.resolve (.reference "Tool") = .ok toolEntry ∧
      bench.value.resolve (.typeAlias "Item" ∅) = .ok (.concrete "Item" ∅) ∧
      bench.value.resolve (.reference "Any") = .ok (.parameter "x" .written) := by
  decide +kernel

theorem smithy_facts :
    bench.value.entries.lookup "Tool" = some toolEntry ∧
      smithy.value.entries.lookup "Geo.Tool" = none ∧
      smithy.value.resolve (.reference "Geo.Tool") = .ok toolEntry ∧
      smithy.value.resolve (.typeAlias "Item" ∅) = .ok (.trait itemTrait) := by
  decide +kernel

theorem smithy_sees : smithy.value.Sees "Geo.Tool" bench.value.toCatalog "Tool" toolEntry := by
  obtain ⟨htool, hnone, -⟩ := smithy_facts
  have hmodule : (Registry.ofModules none [("Geo", bench)]).value.Sees "Geo.Tool"
      bench.value.toCatalog "Tool" toolEntry :=
    (Catalog.Sees.own htool).of_module "Geo" rfl (by decide) rfl
  exact hmodule.of_parent hnone

/-- Read in the module, the items are the core of its tools. -/
theorem smithy_hasCore :
    smithy.value.HasCore (.reference "Geo.Tool") (.concrete "Item" ∅) := by
  obtain ⟨O, hitem⟩ := Registry.resolve_eq_ok_iff.1 bench_facts.2.1
  have htool : smithy.value.Walk [] (.reference "Geo.Tool") bench.value.toCatalog toolEntry :=
    .reference List.not_mem_nil smithy_sees.find? (.stop rfl)
  exact .step (.name rfl htool) (.step .annotated (.step (.name rfl hitem) (.core rfl)))

/-- The name of the tools, then the directive, then the items: one step each. -/
theorem readsCore_tool {R : Registry} {name : String} {core : Ty} (hname : name ≠ "Item")
    (htool : R.resolve (.reference name) = .ok toolEntry)
    (hitem : R.resolve (.typeAlias "Item" ∅) = .ok core) (hcore : core.isCovered = false)
    (hbelow : R.Below [name, "Item"] core) :
    R.ReadsCore (.reference name) core ∧ R.Below [] (.reference name) := by
  have halias : R.Below [name] (.typeAlias "Item" ∅) :=
    .named rfl (by simpa using hname.symm) hitem hbelow
  have hentry : R.Below [name] toolEntry :=
    .node rfl (by simp [toolEntry]) (by simpa [toolEntry, Ty.parts] using halias)
  have hreach : ReflTransGen R.Uncovers toolEntry core :=
    .head ⟨_, .annotated⟩ (.single (Registry.uncovers_of_resolve rfl hitem))
  exact ⟨⟨.head (Registry.uncovers_of_resolve rfl htool) hreach, hcore⟩,
    .named rfl List.not_mem_nil htool hentry⟩

/-- The tools with a trait and a label around them take a variable, since their core is the items.
Above the module, the core of the imported tools is read as the trait. There they do not take a
variable, although their core in the module is the items. -/
theorem unify_variable_iff_bench :
    (∃ U, bench.value.unify default (.labeled "at" (.impl itemTrait (.reference "Tool")))
        (.labeled "of" (.reference "Any")) (fun _ _ => false) = .ok U) ∧
      (¬ ∃ U, smithy.value.unify default (.reference "Geo.Tool") (.parameter "p" .written)
        (fun _ _ => false) = .ok U) ∧
      smithy.value.HasCore (.reference "Geo.Tool") (.concrete "Item" ∅) := by
  obtain ⟨htool, hitem, hany⟩ := bench_facts
  obtain ⟨-, -, hgeo, htrait⟩ := smithy_facts
  refine ⟨?_, ?_, smithy_hasCore⟩
  · obtain ⟨⟨hreach, hcore⟩, hbelow⟩ := readsCore_tool (by decide) htool hitem rfl
      (.node rfl (by simp) (by simp [Ty.parts]))
    have himpl : bench.value.Below [] (.impl itemTrait (.reference "Tool")) :=
      .node rfl (by simp) (by simpa [Ty.parts] using hbelow)
    have hlabeled : bench.value.Below [] (.labeled "at" (.impl itemTrait (.reference "Tool"))) :=
      .node rfl (by simp) (by simpa [Ty.parts] using himpl)
    have hvariable : bench.value.StandsForVariable (.labeled "of" (.reference "Any")) :=
      .labeled ⟨_, hany, rfl⟩ "of"
    obtain ⟨-, hiff, -⟩ :=
      unify_variable_iff bench.value default hlabeled.grounded.straight hvariable
    refine ((hiff (.concrete "Item" ∅) ⟨?_, hcore⟩).2).2 (by simp)
    exact .head ⟨_, .labeled⟩ (.head ⟨_, .impl⟩ hreach)
  · obtain ⟨hcore, hbelow⟩ := readsCore_tool (by decide) hgeo htrait rfl
      (.node rfl (by simp) (by simp [Ty.parts]))
    obtain ⟨-, hiff, -⟩ := unify_variable_iff smithy.value default hbelow.grounded.straight
      (.parameter smithy.value "p" .written)
    intro hU
    exact ((hiff _ hcore).2.1 hU).1 itemTrait rfl

end TypeEngine

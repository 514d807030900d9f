import TypeEngine.Proofs.CaseLabels
import TypeEngine.Proofs.Sufficiency
import TypeEngine.Proofs.Unrolling

/-!
# The recursion of unification is finite

Solving and unification go the same way: into the parts of a type, and along its names. They part at
two kinds of type. Solving takes a method and a case label as they are, where unification goes on
with the function and with what the label stands for. So where what lies behind these comes to an
end (`Registry.Lucid`), a type that can be solved unfolds to the end
(`Registry.exists_unfoldsWithin`), and every chain of calls of unification ends
(`Setting.acc_of_unfoldsWithin`). The label of a union is no obstacle, because unification does not
look into unions (`Registry.exists_unfoldsWithin_label`).

The fuel at hand is enough. Attributes say nothing about how far a type unfolds
(`Registry.UnfoldsWithin.of_bare`), so on the way to the end no name is opened twice, and the number
of steps has a bound (`Registry.UnfoldsWithin.of_weight`).

The labels of a union that is nested in another type stand for that type, which can refer to itself.
Such a label can be solved, and its unification has no end (`unify_label_endless`).
-/

namespace TypeEngine

open Relation

/-! ## How far a type unfolds -/

theorem Ty.parts_bare (ty : Ty) : ty.bare.parts = ty.parts.map Ty.bare := by
  cases ty <;> simp [parts]

namespace Registry

variable {R : Registry} {ty t u : Ty} {n : Nat}

/-- Types with other attributes unfold in the same way. -/
theorem Unfolds.of_bare (h : R.Unfolds u t) (hbare : ty.bare = u.bare) :
    ∃ v, R.Unfolds ty v ∧ v.bare = t.bare := by
  cases h with
  | part hmem =>
    have hpart : t.bare ∈ ty.bare.parts := by
      rw [hbare, Ty.parts_bare]
      exact List.mem_map_of_mem hmem
    rw [Ty.parts_bare] at hpart
    obtain ⟨v, hv, hvt⟩ := List.mem_map.1 hpart
    exact ⟨v, .part hv, hvt⟩
  | name hname ht =>
    have hresolve : Ty.bare <$> R.resolve ty = Ty.bare <$> R.resolve u := by
      rw [← resolve_bare, ← resolve_bare, hbare]
    rw [ht] at hresolve
    cases hv : R.resolve ty with
    | error e =>
      rw [hv] at hresolve
      cases hresolve
    | ok v =>
      rw [hv] at hresolve
      rw [← Ty.lookup?_bare, ← hbare, Ty.lookup?_bare] at hname
      exact ⟨v, .name hname hv, Except.ok.inj hresolve⟩

theorem solve_ne_outOfFuel_of_bare (h : R.solve t ≠ .outOfFuel) (hbare : t.bare = u.bare) :
    R.solve u ≠ .outOfFuel := by
  intro hu
  have hsolve : Ty.bare <$> R.solve t = Ty.bare <$> R.solve u := by
    rw [← solve_bare, ← solve_bare, hbare]
  rw [hu] at hsolve
  cases ht : R.solve t with
  | outOfFuel => exact h ht
  | _ =>
    rw [ht] at hsolve
    cases hsolve

namespace UnfoldsWithin

theorem of_bare (h : R.UnfoldsWithin n ty) (hbare : ty.bare = u.bare) : R.UnfoldsWithin n u := by
  induction n generalizing ty u with
  | zero => exact h.elim
  | succ n ih =>
    refine ⟨?_, fun t ht => ?_⟩
    · rintro head params attributes rfl
      cases ty with
      | parametric head' params' attributes' =>
        rw [Ty.bare_parametric, Ty.bare_parametric] at hbare
        exact solve_ne_outOfFuel_of_bare (h.1 rfl) (Ty.parametric.inj hbare).1
      | _ => simp at hbare
    · obtain ⟨v, hv, hvt⟩ := ht.of_bare hbare
      exact ih (h.2 v hv) hvt

/-- Names that stand for the same unfold as far. -/
theorem of_resolve {name name' : String} (h : R.UnfoldsWithin n ty) (hname : ty.lookup? = some name)
    (hname' : u.lookup? = some name')
    (hresolve : Ty.bare <$> R.resolve ty = Ty.bare <$> R.resolve u) : R.UnfoldsWithin n u := by
  cases n with
  | zero => exact h.elim
  | succ n =>
    refine ⟨?_, fun t ht => ?_⟩
    · rintro head params attributes rfl
      cases hname'
    · cases ht with
      | part hmem =>
        rw [Ty.parts_of_lookup? hname'] at hmem
        cases hmem
      | name _ ht =>
        rw [ht] at hresolve
        cases hv : R.resolve ty with
        | error e =>
          rw [hv] at hresolve
          cases hresolve
        | ok v =>
          rw [hv] at hresolve
          exact (h.2 v (.name hname hv)).of_bare (Except.ok.inj hresolve)

theorem iff_of_opening {c : Ty} (hc : ty.opening? = some c) :
    R.UnfoldsWithin n ty ↔ R.UnfoldsWithin n c := by
  obtain ⟨name, hname⟩ : ∃ name, ty.lookup? = some name := by
    cases ty <;> first | exact ⟨_, rfl⟩ | cases hc
  obtain ⟨name', hname'⟩ : ∃ name, c.lookup? = some name := by
    cases ty <;> cases hc <;> exact ⟨_, rfl⟩
  have hresolve := R.resolve_opening hc
  exact ⟨fun h => h.of_resolve hname hname' hresolve,
    fun h => h.of_resolve hname' hname hresolve.symm⟩

/-- **If unfolding comes to an end at all, it does so in time.** -/
theorem of_weight (h : R.UnfoldsWithin n ty) :
    R.UnfoldsWithin (ty.weight + unspent R.openingCost [] R.openings) ty := by
  refine @holds_of_descent R.UnfoldsWithin Ty.opening? R.openingCost R.openings
    (fun _ h => h) mono ?_ iff_of_opening n ty h
  intro n ty hless hmore
  -- Some step leads to a type that takes all the steps that are left.
  obtain ⟨t, ht, hlong⟩ : ∃ t, R.Unfolds ty t ∧ ¬ R.UnfoldsWithin n t := by
    by_contra hnone
    push Not at hnone
    exact hless ⟨hmore.1, hnone⟩
  refine ⟨t, ⟨hlong, hmore.2 t ht⟩, ?_⟩
  cases ht with
  | part hmem => exact .inl (Ty.weight_lt_of_mem_parts hmem)
  | name hname hr =>
    obtain ⟨c, hc⟩ := Ty.exists_opening? hname
    exact .inr ⟨c, mem_openings hc hr, hc, weight_le_openingCost hc hr⟩

theorem of_descentFuel (h : R.UnfoldsWithin n ty) : R.UnfoldsWithin (R.descentFuel ty) ty :=
  h.of_weight.mono (R.weight_add_unspent_le_descentFuel ty)

end UnfoldsWithin

/-! ## Types that unfold to the end -/

theorem exists_unfoldsWithin_node (hname : ty.lookup? = none)
    (hhead : ∀ {head : Ty} {params : List Ty} {attributes : Attributes},
      ty = .parametric head params attributes → R.solve head ≠ .outOfFuel)
    (hparts : ∀ t ∈ ty.parts, ∃ n, R.UnfoldsWithin n t) : ∃ n, R.UnfoldsWithin n ty := by
  have hall (t : Ty) (ht : t ∈ ty.parts) : ∃ n, ∀ m, n ≤ m → R.UnfoldsWithin m t := by
    obtain ⟨n, hn⟩ := hparts t ht
    exact ⟨n, fun m hm => hn.mono hm⟩
  obtain ⟨n, hn⟩ := exists_bound hall
  refine ⟨n + 1, hhead, fun t ht => ?_⟩
  cases ht with
  | part hmem => exact hn n (Nat.le_refl n) t hmem
  | name hlookup =>
    rw [hname] at hlookup
    cases hlookup

theorem exists_unfoldsWithin_name {name : String} (hname : ty.lookup? = some name)
    (h : R.resolve ty = .ok t) (ht : ∃ n, R.UnfoldsWithin n t) : ∃ n, R.UnfoldsWithin n ty := by
  obtain ⟨n, hn⟩ := ht
  refine ⟨n + 1, ?_, fun u hu => ?_⟩
  · rintro head params attributes rfl
    cases hname
  · cases hu with
    | part hmem =>
      rw [Ty.parts_of_lookup? hname] at hmem
      cases hmem
    | name _ hu =>
      rw [h] at hu
      cases hu
      exact hn

/-- Unification does not look into unions. -/
theorem exists_unfoldsWithin_of_isUnion (h : ty.inner.isUnion = true) :
    ∃ n, R.UnfoldsWithin n ty := by
  induction ty with
  | labeled label ty ih | annotated directives ty ih =>
    refine exists_unfoldsWithin_node rfl (fun hparametric => by cases hparametric) fun t ht => ?_
    rw [List.mem_singleton.1 ht]
    exact ih h
  | union =>
    exact exists_unfoldsWithin_node rfl (fun hparametric => by cases hparametric)
      fun t ht => by cases ht
  | _ => cases h

/-- **The label of a union unfolds to the end.** -/
theorem exists_unfoldsWithin_label {label union : String} {attributes : Attributes}
    (h : R.get union = .ok t) (hunion : t.inner.isUnion = true) :
    ∃ n, R.UnfoldsWithin n (.constructor label union attributes) :=
  exists_unfoldsWithin_name rfl ((R.resolve_label label union attributes).trans h)
    (exists_unfoldsWithin_of_isUnion hunion)

/-- Unfolding the type comes to no method, and behind every case label that it comes to, it ends. -/
structure Lucid (R : Registry) (ty : Ty) : Prop where
  methods : ∀ method, ¬ ReflTransGen R.Unfolds ty (.method method)
  labels : ∀ {label union : String} {attributes : Attributes},
    ReflTransGen R.Unfolds ty (.constructor label union attributes) →
      ∃ n, R.UnfoldsWithin n (.constructor label union attributes)

theorem Lucid.unfolds (h : R.Lucid ty) (ht : R.Unfolds ty t) : R.Lucid t :=
  ⟨fun method hreach => h.methods method (.head ht hreach),
    fun hreach => h.labels (.head ht hreach)⟩

/-- Whether the type is no method and, if it is a case label, then that of a union. -/
def isClear (R : Registry) : Ty → Bool
  | .method _ => false
  | .constructor _ union _ =>
    match R.get union with
    | .ok t => t.inner.isUnion
    | .error _ => false
  | _ => true

/-- A type is lucid if it comes to clear types only. -/
theorem Lucid.of_closes {S : List Ty} (h : R.closes S = true) (hS : S.all R.isClear = true)
    (hty : ty ∈ S) : R.Lucid ty := by
  have hclear {u : Ty} (hu : ReflTransGen R.Unfolds ty u) : R.isClear u = true :=
    List.all_eq_true.1 hS u (mem_of_unfolds h hty hu)
  refine ⟨fun method hreach => ?_, fun {label union attributes} hreach => ?_⟩
  · cases hclear hreach
  · have hunion := hclear hreach
    rw [isClear] at hunion
    cases hget : R.get union with
    | error e =>
      rw [hget] at hunion
      cases hunion
    | ok t =>
      rw [hget] at hunion
      exact exists_unfoldsWithin_label hget hunion

/-- A name that resolves in a layer resolves to the same in the registry. -/
theorem resolve_of_walk (hR : R.toCatalog.Layered) {C O : Catalog} (hC : C.Under R.toCatalog)
    {name : String} (hname : ty.lookup? = some name) (h : C.Walk [] ty O t) :
    R.resolve ty = .ok t := by
  refine resolve_eq_ok_iff.2 ⟨O, ?_⟩
  cases ty with
  | reference => exact h.of_under hR hC
  | typeAlias =>
    cases h with
    | stop hstop => cases hstop
    | typeAlias h => exact .typeAlias (h.of_under hR hC)
  | constructor =>
    cases h with
    | stop hstop => cases hstop
    | constructor hf => exact .constructor (hR.find?_of_under hC hf)
  | _ => cases hname

/-- **A lucid type that can be solved unfolds to the end.** -/
theorem exists_unfoldsWithin (hR : R.toCatalog.Layered) {s : Expansion} {S : Ty}
    (hs : s.catalog.Under R.toCatalog) (hin : s.inUnion = false) (hty : R.Lucid ty)
    (h : solveWithin n s ty = .ok S) : ∃ m, R.UnfoldsWithin m ty := by
  induction n generalizing s ty S with
  | zero => cases h
  | succ n ih =>
    have hparts (hname : ty.lookup? = none)
        (hsolve : ∀ t ∈ ty.parts, ∃ u, solveWithin n s t = .ok u) :
        ∃ m, R.UnfoldsWithin m ty := by
      refine exists_unfoldsWithin_node hname (fun _ => R.solve_ne_outOfFuel hR _) fun t ht => ?_
      obtain ⟨u, hu⟩ := hsolve t ht
      exact ih hs hin (hty.unfolds (.part ht)) hu
    have hmapM {ts us : List Ty} (h : ts.mapM (solveWithin n s) = .ok us) (t : Ty) (ht : t ∈ ts) :
        ∃ u, solveWithin n s t = .ok u := by
      obtain ⟨u, -, hu⟩ := exists_of_mem_forall₂ (Outcome.mapM_eq_ok.1 h) ht
      exact ⟨u, hu⟩
    have htarget {name : String} (hname : ty.target? = some name)
        (hlookup : ty.lookup? = some name) : ∃ m, R.UnfoldsWithin m ty := by
      rw [solveWithin_target hname, Expansion.keepsName, hin] at h
      obtain ⟨kept, hkept, h⟩ := Outcome.bind_eq_ok.1 h
      cases hkept
      obtain ⟨⟨q, t⟩, hexpand, h⟩ := Outcome.bind_eq_ok.1 h
      obtain ⟨-, hwalk, hq⟩ := Expansion.expand_eq_ok (Outcome.liftM_eq_ok.1 hexpand)
      have hunder := (hwalk.under (hR.of_under hs)).trans hs
      have hqin : q.inUnion = false := by
        rw [hq]
        exact hin
      have hresolve := resolve_of_walk hR hs hlookup hwalk
      exact exists_unfoldsWithin_name hlookup hresolve
        (ih hunder hqin (hty.unfolds (.name hlookup hresolve)) h)
    cases ty with
    | reference | typeAlias => exact htarget rfl rfl
    | constructor => exact hty.labels .refl
    | method method => exact absurd .refl (hty.methods method)
    | parametric head params attributes =>
      rw [solveWithin] at h
      obtain ⟨H, -, h⟩ := Outcome.bind_eq_ok.1 h
      obtain ⟨us, hus, -⟩ := Outcome.bind_eq_ok.1 h
      exact hparts rfl (hmapM hus)
    | function | tuple =>
      rw [solveWithin] at h
      obtain ⟨us, hus, -⟩ := Outcome.bind_eq_ok.1 h
      exact hparts rfl (hmapM hus)
    | impl =>
      rw [solveWithin] at h
      exact hparts rfl fun t ht => ⟨S, by rw [List.mem_singleton.1 ht, h]⟩
    | labeled | annotated =>
      rw [solveWithin] at h
      obtain ⟨u, hu, -⟩ := Outcome.bind_eq_ok.1 h
      exact hparts rfl fun t ht => ⟨u, by rw [List.mem_singleton.1 ht, hu]⟩
    | _ => exact hparts rfl fun t ht => by cases ht

/-- The fuel of unification covers twice what both types may need. -/
theorem descentFuel_add_lt_pairFuel (R : Registry) (a b : Ty) :
    2 * (R.descentFuel a + R.descentFuel b) < R.pairFuel a b := by
  have ha := R.descentFuel_le_left a b
  have hb := R.descentFuel_le_right a b
  have hr : 4 < R.reach [a, b] := by
    have := a.weight_pos
    simp only [reach, weightAll]
    omega
  rw [pairFuel]
  generalize R.reach [a, b] = r at ha hb hr ⊢
  have hcube : 0 < r * r * r := Nat.mul_pos (Nat.mul_pos (by omega) (by omega)) (by omega)
  calc 2 * (R.descentFuel a + R.descentFuel b) < 5 * (r * r * r) := by omega
    _ ≤ r * (r * r * r) := Nat.mul_le_mul_right _ hr
    _ = r * r * (r * r) := by ring

end Registry

/-! ## Chains of calls -/

namespace Setting

variable {s : Setting} {a b : Ty} {j k : Nat}

/-- **Every chain of calls ends** from types that unfold to the end. -/
theorem acc_of_unfoldsWithin (ha : s.types.UnfoldsWithin j a) (hb : s.types.UnfoldsWithin k b) :
    Acc (fun next call => s.Calls call next) (a, b) := by
  induction hsteps : 2 * (j + k) + a.detour using Nat.strong_induction_on
    generalizing j k a b with
  | _ steps ih =>
    constructor
    rintro ⟨c, d⟩ hcalls
    obtain ⟨j', k', hc, hd, hlt⟩ := hcalls.descends ha hb
    exact ih _ (hsteps ▸ hlt) hc hd rfl

theorem unify_ne_outOfFuel_of_unfoldsWithin (ha : s.types.UnfoldsWithin j a)
    (hb : s.types.UnfoldsWithin k b) : s.unify a b ≠ .outOfFuel := by
  have hfuel := s.types.descentFuel_add_lt_pairFuel a b
  have hdetour := a.detour_le
  exact unifyWithin_ends_of_unfoldsWithin ha.of_descentFuel hb.of_descentFuel (by omega)

end Setting

/-- **Unification of lucid types that can be solved is a finite recursion.** No chain of its calls
goes on without end, it comes to a type or to an error, and more fuel comes to no other type. -/
theorem unify_recursion_finite {B : Built} (hB : BuiltInLayers B) {T₁ T₂ S₁ S₂ : Ty}
    (h₁ : B.value.solve T₁ = .ok S₁) (h₂ : B.value.solve T₂ = .ok S₂)
    (hT₁ : B.value.Lucid T₁) (hT₂ : B.value.Lucid T₂) (location : Location)
    (implements : Checker) :
    Acc (fun next call => Setting.Calls ⟨B.value, implements, location⟩ call next) (T₁, T₂) ∧
      B.value.unify location T₁ T₂ implements ≠ .outOfFuel ∧
      ∀ n U, B.value.pairFuel T₁ T₂ ≤ n →
        (Setting.unifyWithin ⟨B.value, implements, location⟩ n T₁ T₂ = .ok U ↔
          B.value.unify location T₁ T₂ implements = .ok U) := by
  have hR := hB.layered
  obtain ⟨j, hj⟩ := Registry.exists_unfoldsWithin hR (.refl _) rfl hT₁ h₁
  obtain ⟨k, hk⟩ := Registry.exists_unfoldsWithin hR (.refl _) rfl hT₂ h₂
  have hends := Setting.unify_ne_outOfFuel_of_unfoldsWithin
    (s := ⟨B.value, implements, location⟩) hj hk
  refine ⟨Setting.acc_of_unfoldsWithin hj hk, hends, fun n U hn => ?_⟩
  have hle := Setting.unifyWithin_le_of_le ⟨B.value, implements, location⟩ hn T₁ T₂
  exact ⟨hle.eq_ok_of_ne hends, hle.eq_ok⟩

/-- Trees, which are made of trees, and rows of them. -/
def arboretum : Built :=
  (Builder.new.declareAll
    [.concrete "Int",
      .union "Tree" [⟨"Leaf", []⟩, ⟨"Node", [.reference "Tree", .reference "Int"]⟩],
      .type "Row" ∅ [] (.tuple [.reference "Tree", .labeled "size" (.reference "Int")])]).2.build

/-- A row whose tree is given by its label. -/
def leafRow : Ty :=
  .tuple [.constructor "Leaf" "Tree" ∅, .reference "Int"] ∅

/-- What the two rows come to. -/
def rowTypes : List Ty :=
  [.reference "Row", .tuple [.reference "Tree", .labeled "size" (.reference "Int")] ∅,
    .reference "Tree", .union [⟨"Leaf", []⟩, ⟨"Node", [.reference "Tree", .reference "Int"]⟩] ∅,
    .labeled "size" (.reference "Int"), .labeled "size" (.concrete "Int" ∅), .reference "Int",
    .concrete "Int" ∅, leafRow, .constructor "Leaf" "Tree" ∅]

theorem arboretum_facts :
    arboretum.value.closes rowTypes = true ∧ rowTypes.all arboretum.value.isClear = true ∧
      .reference "Row" ∈ rowTypes ∧ leafRow ∈ rowTypes ∧
      arboretum.value.solve (.reference "Row")
        = .ok (.tuple [.union [⟨"Leaf", []⟩, ⟨"Node", [.reference "Tree", .concrete "Int" ∅]⟩] ∅,
          .labeled "size" (.concrete "Int" ∅)] ∅) ∧
      arboretum.value.solve leafRow
        = .ok (.tuple [.constructor "Leaf" "Tree" ∅, .concrete "Int" ∅] ∅) := by
  decide +kernel

/-- A row of trees and a row of a leaf: the union of the trees refers to itself, and so does what
the label stands for. -/
theorem unify_recursion_finite_arboretum :
    (∃ S, arboretum.value.solve (.reference "Row") = .ok S) ∧
      (∃ S, arboretum.value.solve leafRow = .ok S) ∧
      arboretum.value.Lucid (.reference "Row") ∧ arboretum.value.Lucid leafRow ∧
      ∀ location implements,
        Acc (fun next call => Setting.Calls ⟨arboretum.value, implements, location⟩ call next)
            (.reference "Row", leafRow) ∧
          arboretum.value.unify location (.reference "Row") leafRow implements ≠ .outOfFuel := by
  obtain ⟨hcloses, hclear, hrow, hleaf, hsolve, hsolve'⟩ := arboretum_facts
  have hlayers : BuiltInLayers arboretum := .root (lawful_registrations _)
  have hlucid : arboretum.value.Lucid (.reference "Row") := .of_closes hcloses hclear hrow
  have hlucid' : arboretum.value.Lucid leafRow := .of_closes hcloses hclear hleaf
  refine ⟨⟨_, hsolve⟩, ⟨_, hsolve'⟩, hlucid, hlucid', fun location implements => ?_⟩
  obtain ⟨hcalls, hends, -⟩ :=
    unify_recursion_finite hlayers hsolve hsolve' hlucid hlucid' location implements
  exact ⟨hcalls, hends⟩

/-! ## A label without an end -/

/-- A type that is its own first element, with a union next to it. -/
def chains : Built :=
  (Builder.new.declareAll
    [.type "Chain" ∅ [] (.tuple [.reference "Chain", .union [⟨"Link", []⟩]])]).2.build

/-- What a chain stands for. -/
def chain : Ty :=
  .tuple [.reference "Chain", .union [⟨"Link", []⟩] ∅] ∅

/-- The label of the nested union, as the registry has it. -/
def link : Ty :=
  .constructor "Link" "Chain" ∅

/-- What the label comes to. -/
def linkTypes : List Ty :=
  [link, chain, .reference "Chain", .union [⟨"Link", []⟩] ∅]

theorem chains_facts :
    chains.errors.isEmpty = true ∧ chains.value.get "Link" = .ok link ∧
      chains.value.solve link = .ok link ∧ chains.value.resolve link = .ok chain ∧
      chains.value.resolve (.reference "Chain") = .ok chain ∧
      chains.value.closes linkTypes = true := by
  decide +kernel

/-- **The unification of a label that stands for a chain has no end,** although the registry is
built without an error and finds the label, and the label can be solved and comes to no method. -/
theorem unify_label_endless :
    BuiltInLayers chains ∧ chains.errors = [] ∧ chains.value.get "Link" = .ok link ∧
      chains.value.solve link = .ok link ∧
      (∀ method, ¬ ReflTransGen chains.value.Unfolds link (.method method)) ∧
      ∀ location implements n,
        Setting.unifyWithin ⟨chains.value, implements, location⟩ n link link = .outOfFuel := by
  obtain ⟨herrors, hget, hsolve, hlink, hchain, hcloses⟩ := chains_facts
  refine ⟨.root (lawful_registrations _), List.isEmpty_iff.1 herrors, hget, hsolve,
    fun method hreach => ?_, fun location implements n => ?_⟩
  · have hmem := Registry.mem_of_unfolds hcloses List.mem_cons_self hreach
    simp [linkTypes, link, chain] at hmem
  · -- A chain waits for its first element, which is a chain.
    have hloop : TransGen (Setting.Waits ⟨chains.value, implements, location⟩)
        (.reference "Chain", .reference "Chain") (.reference "Chain", .reference "Chain") :=
      .head (.name rfl hchain) (.single (.first hchain rfl rfl))
    have hreach : ReflTransGen (Setting.Waits ⟨chains.value, implements, location⟩)
        (link, link) (.reference "Chain", .reference "Chain") :=
      .head (.name rfl hlink) (.single (.first hlink rfl rfl))
    exact Setting.unifyWithin_endless hreach hloop n

end TypeEngine

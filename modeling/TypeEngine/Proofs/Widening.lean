import Mathlib.Data.List.Forall2
import Mathlib.Data.List.Perm.Basic
import TypeEngine.Proofs.Preorder
import TypeEngine.Proofs.Simultaneous

/-!
# Binding number types

A parameter that is matched with number types one after another is bound to the widest of them, in
whatever order they come, and whether they are given as they are or by name. The types have to be of
one category: integers and fractions clash, and the clash is remembered for the parameter
(`matching_numbers_widens`).

The registry may be any: what two number types unify to depends on their kinds alone
(`Setting.unify_of_hasKind`). One more match widens the binding or clashes
(`Setting.addMapping_widens`, `Setting.addMapping_clashes`), and the two runs follow by induction.
-/

namespace TypeEngine

/-! ## Widths -/

namespace Numeric

/-- The wider of two kinds of one category. -/
def wider (a b : Numeric) : Numeric :=
  if a.canRepresent b then a else b

/-- All kinds are integers, or all are fractions. -/
def OneCategory (kinds : List Numeric) : Prop :=
  ∀ a ∈ kinds, ∀ b ∈ kinds, a.isInteger = b.isInteger

/-- One of the kinds, and none of them is wider. -/
def IsWidest (kinds : List Numeric) (widest : Numeric) : Prop :=
  widest ∈ kinds ∧ ∀ kind ∈ kinds, kind.size ≤ widest.size

instance (kinds : List Numeric) : Decidable (OneCategory kinds) :=
  inferInstanceAs (Decidable (∀ a ∈ kinds, ∀ b ∈ kinds, a.isInteger = b.isInteger))

instance (kinds : List Numeric) (widest : Numeric) : Decidable (IsWidest kinds widest) :=
  inferInstanceAs (Decidable (_ ∧ _))

variable {a b widest : Numeric} {kinds kinds' : List Numeric}

theorem wider_eq_or (a b : Numeric) : a.wider b = a ∨ a.wider b = b := by
  rw [wider]
  split_ifs
  · exact .inl rfl
  · exact .inr rfl

theorem isInteger_wider (h : a.isInteger = b.isInteger) : (a.wider b).isInteger = a.isInteger := by
  rcases wider_eq_or a b with heq | heq
  · rw [heq]
  · rw [heq, h]

theorem size_wider (h : a.isInteger = b.isInteger) : (a.wider b).size = max a.size b.size := by
  rw [wider, canRepresent, h, beq_self_eq_true, Bool.true_and]
  simp only [decide_eq_true_eq]
  split_ifs with hle
  · exact (max_eq_left hle).symm
  · exact (max_eq_right (Nat.le_of_not_le hle)).symm

/-- Of one category there is one kind of each width. -/
theorem eq_of_size_eq (h : a.isInteger = b.isInteger) (hsize : a.size = b.size) : a = b := by
  cases a <;> cases b <;> simp_all [isInteger, size]

theorem oneCategory_cons :
    OneCategory (a :: kinds) ↔ ∀ b ∈ kinds, b.isInteger = a.isInteger := by
  constructor
  · intro h b hb
    exact h b (List.mem_cons_of_mem _ hb) a List.mem_cons_self
  · intro h b hb c hc
    have hfirst : ∀ d ∈ a :: kinds, d.isInteger = a.isInteger :=
      List.forall_mem_cons.2 ⟨rfl, h⟩
    rw [hfirst b hb, hfirst c hc]

theorem OneCategory.perm (hperm : kinds'.Perm kinds) (h : OneCategory kinds) :
    OneCategory kinds' := by
  intro a ha b hb
  exact h a (hperm.mem_iff.1 ha) b (hperm.mem_iff.1 hb)

theorem IsWidest.perm (hperm : kinds'.Perm kinds) (h : IsWidest kinds widest) :
    IsWidest kinds' widest := by
  refine ⟨hperm.mem_iff.2 h.1, ?_⟩
  intro a ha
  exact h.2 a (hperm.mem_iff.1 ha)

theorem IsWidest.unique (hone : OneCategory kinds) (ha : IsWidest kinds a)
    (hb : IsWidest kinds b) : a = b :=
  eq_of_size_eq (hone a ha.1 b hb.1) (Nat.le_antisymm (hb.2 a ha.1) (ha.2 b hb.1))

/-- **Taking the wider kind again and again ends at the widest.** -/
theorem isWidest_foldl_wider (hone : ∀ b ∈ kinds, b.isInteger = a.isInteger) :
    IsWidest (a :: kinds) (kinds.foldl wider a) := by
  induction kinds generalizing a with
  | nil => simp [IsWidest]
  | cons b kinds ih =>
    obtain ⟨hb, hrest⟩ := List.forall_mem_cons.1 hone
    have hsize := size_wider hb.symm
    obtain ⟨hmem, hwide⟩ := ih (a := a.wider b) fun c hc => by
      rw [isInteger_wider hb.symm]
      exact hrest c hc
    obtain ⟨hfirst, hwide⟩ := List.forall_mem_cons.1 hwide
    rw [hsize] at hfirst
    refine ⟨?_, List.forall_mem_cons.2 ⟨?_, List.forall_mem_cons.2 ⟨?_, hwide⟩⟩⟩
    · rw [List.foldl_cons]
      rcases List.mem_cons.1 hmem with heq | hmem
      · rw [heq]
        rcases wider_eq_or a b with heq | heq <;> simp [heq]
      · exact List.mem_cons_of_mem _ (List.mem_cons_of_mem _ hmem)
    · exact (le_max_left _ _).trans hfirst
    · exact (le_max_right _ _).trans hfirst

end Numeric

/-! ## Number types -/

/-- The type is a number type of this kind, or a name for one. -/
def Registry.HasKind (R : Registry) (ty : Ty) (kind : Numeric) : Prop :=
  ∃ attributes, R.resolve ty = .ok (.numeric kind attributes)

namespace Registry

variable {R : Registry}

theorem hasKind_numeric (kind : Numeric) (attributes : Attributes) :
    R.HasKind (.numeric kind attributes) kind :=
  ⟨attributes, resolve_of_settled rfl⟩

/-- A number type is one as it stands, or it is a name to look up. -/
theorem HasKind.cases {ty : Ty} {kind : Numeric} (h : R.HasKind ty kind) :
    (∃ attributes, ty = .numeric kind attributes) ∨ ∃ name, ty.lookup? = some name := by
  obtain ⟨attributes, h⟩ := h
  cases ty with
  | reference | typeAlias | constructor => exact .inr ⟨_, rfl⟩
  | labeled label inner =>
    obtain ⟨_, -, h⟩ := resolve_labeled.1 h
    cases h
  | numeric =>
    rw [resolve_of_settled rfl] at h
    cases h
    exact .inl ⟨_, rfl⟩
  | _ =>
    rw [resolve_of_settled rfl] at h
    cases h

end Registry

namespace Setting

variable {s : Setting} {a b : Ty} {k l : Numeric}

theorem unifyWithin_of_hasKind (hb : s.types.HasKind b l) (n : Nat) (attributes : Attributes) :
    s.unifyWithin (n + 1) (.numeric k attributes) b
      = if k.canRepresent l then .ok (.numeric k attributes)
        else s.clash (.numeric k attributes) b := by
  obtain ⟨attributes', hb⟩ := hb
  rw [unifyWithin, unifyNumeric, hb]
  rfl

/-- **What two number types unify to** is the expected one if it holds all values of the actual
one. -/
theorem unify_of_hasKind (ha : s.types.HasKind a k) (hb : s.types.HasKind b l) :
    ∃ attributes, s.unify a b = if k.canRepresent l then .ok (.numeric k attributes)
      else s.clash (.numeric k attributes) b := by
  obtain ⟨n, hn⟩ : ∃ n, s.types.pairFuel a b = n + 2 := by
    refine Nat.exists_eq_add_of_le' (Nat.le_trans ?_ (Nat.le_mul_of_pos_right _ ?_)) <;>
      simp only [Registry.reach] <;> nlinarith
  rw [unify, hn]
  rcases ha.cases with ⟨attributes, rfl⟩ | ⟨name, hname⟩
  · exact ⟨attributes, unifyWithin_of_hasKind hb _ _⟩
  · obtain ⟨attributes, ha⟩ := ha
    refine ⟨attributes, ?_⟩
    rw [unifyWithin_of_lookup hname ha]
    exact unifyWithin_of_hasKind hb _ _

end Setting

/-! ## One more match -/

theorem Bindings.mappings_bind (σ : Bindings) (key : String) (ty : Ty) :
    (σ.bind key ty).mappings.get? key = some ty := by
  simp [Bindings.bind]

namespace Setting

variable {s : Setting} {p : String} {σ : Bindings} {B ty : Ty} {k l : Numeric}

theorem extract_parameter (p : String) (origin : Origin) (ty : Ty) (σ : Bindings) :
    s.extract (.parameter p origin) ty σ = s.addMapping p ty σ := by
  rw [extract_eq_follow, script]
  obtain ⟨n, hn⟩ : ∃ n, s.types.pairFuel (.parameter p origin) ty = n + 1 :=
    Nat.exists_eq_succ_of_ne_zero (by simp [Registry.pairFuel, Registry.reach])
  rw [hn, scriptWithin, follow_one]

/-- **A number type of the same category** widens the binding. -/
theorem addMapping_widens (hB : σ.mappings.get? p = some B) (hk : s.types.HasKind B k)
    (hl : s.types.HasKind ty l) (hone : l.isInteger = k.isInteger) :
    ∃ u, s.addMapping p ty σ = (.ok true, σ.bind p u) ∧ s.types.HasKind u (k.wider l) := by
  obtain ⟨attributes, hunify⟩ := unify_of_hasKind hk hl
  rw [addMapping, hB]
  dsimp only
  rw [hunify, Numeric.wider]
  by_cases hwide : k.canRepresent l = true
  · rw [if_pos hwide, if_pos hwide]
    exact ⟨_, rfl, Registry.hasKind_numeric k attributes⟩
  · rw [if_neg hwide, if_neg hwide]
    -- The old type is the narrower one, and fits the new one.
    have hnarrow : l.canRepresent k = true := by
      simp only [Numeric.canRepresent, hone, beq_self_eq_true, Bool.true_and,
        decide_eq_true_eq] at hwide ⊢
      omega
    obtain ⟨attributes', hback⟩ := unify_of_hasKind hl hk
    rw [hnarrow, if_pos rfl] at hback
    rw [clash, Outcome.orElse, hback]
    exact ⟨_, rfl, Registry.hasKind_numeric l attributes'⟩

/-- **A number type of the other category** clashes. -/
theorem addMapping_clashes (hB : σ.mappings.get? p = some B) (hk : s.types.HasKind B k)
    (hl : s.types.HasKind ty l) (hother : l.isInteger ≠ k.isInteger) :
    ∃ e, s.addMapping p ty σ = (.error e, σ.remember p e) := by
  obtain ⟨attributes, hunify⟩ := unify_of_hasKind hk hl
  obtain ⟨attributes', hback⟩ := unify_of_hasKind hl hk
  have hleft : k.canRepresent l = false := by simp [Numeric.canRepresent, hother.symm]
  have hright : l.canRepresent k = false := by simp [Numeric.canRepresent, hother]
  rw [hleft] at hunify
  rw [hright] at hback
  refine ⟨.incompatible s.location (.numeric l attributes') B, ?_⟩
  rw [addMapping, hB]
  dsimp only
  rw [hunify, if_neg Bool.false_ne_true, clash, Outcome.orElse, hback, if_neg Bool.false_ne_true]
  rfl

end Setting

/-! ## Runs -/

/-- Match a parameter with types, one after another. -/
def matchingCalls (p : String) (origin : Origin) (calls : List (Location × Ty)) :
    List BindingCall :=
  calls.map fun c => .extract c.1 (.parameter p origin) c.2

section Runs

variable {R : Registry} (implements : Checker) (p : String) (origin : Origin)
  {calls : List (Location × Ty)} {kinds : List Numeric} {σ : Bindings} {B : Ty} {k : Numeric}

theorem run_matchingCalls_cons (location : Location) (ty : Ty) :
    runBindings R implements σ (matchingCalls p origin ((location, ty) :: calls))
      = (.matched (Setting.addMapping ⟨R, implements, location⟩ p ty σ).1,
          (Setting.addMapping ⟨R, implements, location⟩ p ty σ).2)
        :: runBindings R implements (Setting.addMapping ⟨R, implements, location⟩ p ty σ).2
          (matchingCalls p origin calls) := by
  rw [matchingCalls, List.map_cons, runBindings_cons, BindingCall.run, Setting.extract_parameter]
  rfl

theorem exists_error_after {key : String} {e : TypeError} (h : σ.errors.get? key = some e)
    (later : List BindingCall) :
    ∃ e', (bindingsAfter σ (runBindings R implements σ later)).errors.get? key = some e' := by
  rw [errors_runBindings, h, ← Option.isSome_iff_exists, Option.isSome_or]
  simp

/-- **A run with one category** succeeds, and every call widens the binding. -/
theorem run_widens (hkinds : List.Forall₂ (fun c kind => R.HasKind c.2 kind) calls kinds)
    (hB : σ.mappings.get? p = some B) (hk : R.HasKind B k)
    (hone : ∀ l ∈ kinds, l.isInteger = k.isInteger) :
    Succeeds (runBindings R implements σ (matchingCalls p origin calls)) ∧
      ∃ B', (bindingsAfter σ
          (runBindings R implements σ (matchingCalls p origin calls))).mappings.get? p = some B' ∧
        R.HasKind B' (kinds.foldl Numeric.wider k) ∧
        (bindingsAfter σ (runBindings R implements σ (matchingCalls p origin calls))).errors
          = σ.errors := by
  induction hkinds generalizing σ B k with
  | nil => exact ⟨fun r hr => (by cases hr), B, hB, hk, rfl⟩
  | @cons c l calls kinds hl _ ih =>
    obtain ⟨location, ty⟩ := c
    obtain ⟨hfirst, hrest⟩ := List.forall_mem_cons.1 hone
    obtain ⟨u, hadd, hu⟩ :=
      Setting.addMapping_widens (s := ⟨R, implements, location⟩) hB hk hl hfirst
    rw [run_matchingCalls_cons, hadd, bindingsAfter_cons]
    obtain ⟨hsucceeds, hbound⟩ := ih (σ.mappings_bind p u) hu fun j hj => by
      rw [Numeric.isInteger_wider hfirst.symm]
      exact hrest j hj
    exact ⟨List.forall_mem_cons.2 ⟨⟨true, rfl⟩, hsucceeds⟩, hbound⟩

/-- **A run with both categories** fails at the first type of the other category, and the clash
stays remembered. -/
theorem run_clashes (hkinds : List.Forall₂ (fun c kind => R.HasKind c.2 kind) calls kinds)
    (hB : σ.mappings.get? p = some B) (hk : R.HasKind B k)
    (hmixed : ∃ l ∈ kinds, l.isInteger ≠ k.isInteger) :
    ¬ Succeeds (runBindings R implements σ (matchingCalls p origin calls)) ∧
      ∃ e, (bindingsAfter σ
        (runBindings R implements σ (matchingCalls p origin calls))).errors.get? p = some e := by
  induction hkinds generalizing σ B k with
  | nil =>
    obtain ⟨l, hl, -⟩ := hmixed
    cases hl
  | @cons c l calls kinds hl _ ih =>
    obtain ⟨location, ty⟩ := c
    rw [run_matchingCalls_cons, bindingsAfter_cons]
    by_cases hfirst : l.isInteger = k.isInteger
    · obtain ⟨u, hadd, hu⟩ :=
        Setting.addMapping_widens (s := ⟨R, implements, location⟩) hB hk hl hfirst
      rw [hadd]
      have hlater : ∃ j ∈ kinds, j.isInteger ≠ (k.wider l).isInteger := by
        obtain ⟨j, hj, hother⟩ := hmixed
        rw [Numeric.isInteger_wider hfirst.symm]
        rcases List.mem_cons.1 hj with rfl | hj
        · exact absurd hfirst hother
        · exact ⟨j, hj, hother⟩
      obtain ⟨hfails, herror⟩ := ih (σ.mappings_bind p u) hu hlater
      refine ⟨fun hsucceeds => hfails (List.forall_mem_cons.1 hsucceeds).2, herror⟩
    · obtain ⟨e, hadd⟩ :=
        Setting.addMapping_clashes (s := ⟨R, implements, location⟩) hB hk hl hfirst
      rw [hadd]
      have herror : (σ.remember p e).errors.get? p = some e := by simp [Bindings.remember]
      refine ⟨fun hsucceeds => ?_, exists_error_after implements herror _⟩
      obtain ⟨⟨matched, hanswer⟩, -⟩ := List.forall_mem_cons.1 hsucceeds
      cases hanswer

/-- The first match binds the parameter to the type as it is. -/
theorem run_matchingCalls_fresh (location : Location) (ty : Ty) :
    runBindings R implements ∅ (matchingCalls p origin ((location, ty) :: calls))
      = (.matched (.ok true), Bindings.bind ∅ p ty)
        :: runBindings R implements (Bindings.bind ∅ p ty) (matchingCalls p origin calls) := by
  rw [run_matchingCalls_cons, Setting.addMapping_of_unbound rfl]

/-- **On fresh bindings, types of one category** bind the parameter to the widest of them. -/
theorem boundBy_widest (hne : calls ≠ [])
    (hkinds : List.Forall₂ (fun c kind => R.HasKind c.2 kind) calls kinds)
    (hone : Numeric.OneCategory kinds) :
    Succeeds (runBindings R implements ∅ (matchingCalls p origin calls)) ∧
      ∃ B widest, (∀ location context,
          (boundBy R implements (matchingCalls p origin calls)).get location p context = .ok B) ∧
        R.HasKind B widest ∧ Numeric.IsWidest kinds widest := by
  cases hkinds with
  | nil => exact absurd rfl hne
  | @cons c k calls kinds hk hkinds =>
    obtain ⟨location, ty⟩ := c
    have hone := Numeric.oneCategory_cons.1 hone
    rw [boundBy, run_matchingCalls_fresh, bindingsAfter_cons]
    obtain ⟨hsucceeds, B, hB, hwide, herrors⟩ := run_widens implements p origin hkinds
      (Bindings.mappings_bind ∅ p ty) hk hone
    refine ⟨List.forall_mem_cons.2 ⟨⟨true, rfl⟩, hsucceeds⟩, B, _, ?_, hwide,
      Numeric.isWidest_foldl_wider hone⟩
    intro location' context
    have hnone : (Bindings.bind ∅ p ty).errors.get? p = none := rfl
    rw [Bindings.get, herrors, hnone, hB]

/-- **On fresh bindings, types of both categories** leave a clash. -/
theorem boundBy_clash (hne : calls ≠ [])
    (hkinds : List.Forall₂ (fun c kind => R.HasKind c.2 kind) calls kinds)
    (hmixed : ¬ Numeric.OneCategory kinds) :
    ¬ Succeeds (runBindings R implements ∅ (matchingCalls p origin calls)) ∧
      ∃ e, (boundBy R implements (matchingCalls p origin calls)).errors.get? p = some e := by
  cases hkinds with
  | nil => exact absurd rfl hne
  | @cons c k calls kinds hk hkinds =>
    obtain ⟨location, ty⟩ := c
    have hother : ∃ l ∈ kinds, l.isInteger ≠ k.isInteger := by
      rw [Numeric.oneCategory_cons] at hmixed
      push Not at hmixed
      exact hmixed
    rw [boundBy, run_matchingCalls_fresh, bindingsAfter_cons]
    obtain ⟨hfails, herror⟩ := run_clashes implements p origin hkinds
      (Bindings.mappings_bind ∅ p ty) hk hother
    exact ⟨fun hsucceeds => hfails (List.forall_mem_cons.1 hsucceeds).2, herror⟩

end Runs

/-- **Matching number types ends at the widest.** In any registry, match a parameter on fresh
bindings with types that have the kinds `kinds`, one after another and at least one. All matches
succeed exactly if the kinds are of one category. Then, in whatever order the types are matched,
what the parameter stands for in the end has the widest of the kinds. If the categories mix, an
error is remembered for the parameter, and substituting it fails with this error. -/
theorem matching_numbers_widens (R : Registry) (implements : Checker) (p : String) (origin : Origin)
    {calls : List (Location × Ty)} {kinds : List Numeric} (hne : calls ≠ [])
    (hkinds : List.Forall₂ (fun c kind => R.HasKind c.2 kind) calls kinds) :
    (Succeeds (runBindings R implements ∅ (matchingCalls p origin calls))
        ↔ Numeric.OneCategory kinds) ∧
      (Numeric.OneCategory kinds → ∃ widest, Numeric.IsWidest kinds widest ∧
        ∀ calls', calls'.Perm calls →
          Succeeds (runBindings R implements ∅ (matchingCalls p origin calls')) ∧
          ∀ location context, ∃ B, Setting.substitute ⟨R, implements, location⟩
            (boundBy R implements (matchingCalls p origin calls')) (.parameter p origin) context
              = .ok B ∧ R.HasKind B widest) ∧
      (¬ Numeric.OneCategory kinds → ∃ e,
        (boundBy R implements (matchingCalls p origin calls)).errors.get? p = some e ∧
          ∀ location context, Setting.substitute ⟨R, implements, location⟩
            (boundBy R implements (matchingCalls p origin calls)) (.parameter p origin) context
              = .error e) := by
  refine ⟨⟨fun hsucceeds => ?_, fun hone => ?_⟩, fun hone => ?_, fun hmixed => ?_⟩
  · by_contra hmixed
    exact (boundBy_clash implements p origin hne hkinds hmixed).1 hsucceeds
  · exact (boundBy_widest implements p origin hne hkinds hone).1
  · obtain ⟨-, -, widest, -, -, hwidest⟩ :=
      boundBy_widest implements p origin hne hkinds hone
    refine ⟨widest, hwidest, fun calls' hperm => ?_⟩
    -- The kinds come in the order of the types, so they are permuted too.
    obtain ⟨kinds', hkinds', hperm'⟩ := List.perm_comp_forall₂ hperm hkinds
    have hne' : calls' ≠ [] := fun hnil => hne (hnil ▸ hperm).nil_eq.symm
    obtain ⟨hsucceeds, B, widest', hget, hB, hwidest'⟩ := boundBy_widest implements p origin
      hne' hkinds' (hone.perm hperm')
    have heq : widest' = widest := hwidest'.unique (hone.perm hperm') (hwidest.perm hperm')
    refine ⟨hsucceeds, fun location context => ⟨B, ?_, heq ▸ hB⟩⟩
    rw [Setting.substitute_parameter, hget]
    rfl
  · obtain ⟨-, e, he⟩ :=
      boundBy_clash implements p origin hne hkinds hmixed
    refine ⟨e, he, fun location context => ?_⟩
    rw [Setting.substitute_parameter, Bindings.get_of_error he]
    rfl

/-- An `Int`, an amount, which is a `Long` by another name, and a `Byte`. -/
def payments : List (Location × Ty) :=
  [(default, .reference "Int"), (default, .reference "Amount"), (default, .numeric .byte ∅)]

/-- An amount and a `Double`. -/
def rates : List (Location × Ty) :=
  [(default, .reference "Amount"), (default, .numeric .double ∅)]

theorem payments_facts :
    ledger.value.resolve (.reference "Int") = .ok (.numeric .int ∅) ∧
      ledger.value.resolve (.reference "Amount") = .ok (.numeric .long ∅) := by
  decide +kernel

/-- Payments are bound to `Long`, also when they come the other way round. An amount and a `Double`
clash. -/
theorem matching_numbers_widens_ledger :
    Succeeds (runBindings ledger.value (fun _ _ => false) ∅
        (matchingCalls "a" .written payments)) ∧
      (∃ B, Setting.substitute ⟨ledger.value, fun _ _ => false, default⟩
          (boundBy ledger.value (fun _ _ => false) (matchingCalls "a" .written payments.reverse))
          (.parameter "a" .written) (.parameter "a" .written) = .ok B ∧
        ledger.value.HasKind B .long) ∧
      ∃ e, Setting.substitute ⟨ledger.value, fun _ _ => false, default⟩
        (boundBy ledger.value (fun _ _ => false) (matchingCalls "a" .written rates))
        (.parameter "a" .written) (.parameter "a" .written) = .error e := by
  obtain ⟨hint, hamount⟩ := payments_facts
  have hpayments : List.Forall₂ (fun c kind => ledger.value.HasKind c.2 kind) payments
      [.int, .long, .byte] :=
    .cons ⟨_, hint⟩ (.cons ⟨_, hamount⟩ (.cons (Registry.hasKind_numeric _ _) .nil))
  have hrates : List.Forall₂ (fun c kind => ledger.value.HasKind c.2 kind) rates
      [.long, .double] :=
    .cons ⟨_, hamount⟩ (.cons (Registry.hasKind_numeric _ _) .nil)
  have hone : Numeric.OneCategory [.int, .long, .byte] := by decide
  have hlong : Numeric.IsWidest [.int, .long, .byte] .long := by decide
  obtain ⟨hsucceeds, hwiden, -⟩ := matching_numbers_widens ledger.value (fun _ _ => false) "a"
    .written (by simp [payments]) hpayments
  obtain ⟨-, -, hclash⟩ := matching_numbers_widens ledger.value (fun _ _ => false) "a" .written
    (by simp [rates]) hrates
  obtain ⟨widest, hwidest, hall⟩ := hwiden hone
  cases hwidest.unique hone hlong
  obtain ⟨e, -, herror⟩ := hclash (by decide)
  exact ⟨hsucceeds.2 hone, (hall _ payments.reverse_perm).2 default _, e, herror default _⟩

end TypeEngine

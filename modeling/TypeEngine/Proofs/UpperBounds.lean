import TypeEngine.Proofs.Preorder
import TypeEngine.Substitution

/-!
# Bindings are upper bounds

A key that is bound again keeps what the old and the new type unify to, in whichever direction they
do. Earlier types are forgotten, so that the binding still takes all of them has to follow from what
it took before.

Acceptance alone is no invariant, because a variable takes everything and what replaces it does not.
`Covers` is the stronger relation: the expected type takes the actual one, and it has a variable
only where the actual type has one, too. Variables are the least types of this order. It is
transitive (`Covers.trans`), and what two types unify to covers both of them (`Meets.covers`). So
the binding covers every type that was bound, from one call to the next
(`Setting.addMapping_bounds`) and along a whole run (`runBindings_bounds`).
-/

namespace TypeEngine

variable {R : Registry} {known : String → Prop} {unions : Bool}

/-! ## Covering -/

/-- `Covers R a b`: the expected type `a` takes the actual type `b`, and `b` is a variable wherever
`a` is one. -/
inductive Covers (R : Registry) : Ty → Ty → Prop
  /-- Everything covers a variable. -/
  | parameter {a b s t : Ty} : R.resolve a = .ok s → R.resolve b = .ok t →
      t.inner.isParameter = true → Covers R a b
  | nominal {a b s t : Ty} : R.resolve a = .ok s → R.resolve b = .ok t →
      s.inner.isNominal = true → t.inner.same s.inner = true → Covers R a b
  | numeric {a b s t : Ty} {kind kind' : Numeric} {attributes attributes' : Attributes} :
      R.resolve a = .ok s → R.resolve b = .ok t → s.inner = .numeric kind attributes →
      t.inner = .numeric kind' attributes' → kind.canRepresent kind' = true → Covers R a b
  | compound {a b s t : Ty} : R.resolve a = .ok s → R.resolve b = .ok t →
      R.SameShell s.inner t.inner → t.inner.components.length = s.inner.components.length →
      (∀ (i : Nat) c d, s.inner.components[i]? = some c → t.inner.components[i]? = some d →
        Covers R c d) →
      Covers R a b

namespace Covers

variable {a a' b b' c : Ty}

/-- Only what lies behind the names and labels of both types matters. -/
theorem congr (h : Covers R a b)
    (ha : ∀ s, R.resolve a = .ok s → ∃ s', R.resolve a' = .ok s' ∧ s'.inner = s.inner)
    (hb : ∀ t, R.resolve b = .ok t → ∃ t', R.resolve b' = .ok t' ∧ t'.inner = t.inner) :
    Covers R a' b' := by
  cases h with
  | parameter hs ht hy =>
    obtain ⟨s', hs', -⟩ := ha _ hs
    obtain ⟨t', ht', heq⟩ := hb _ ht
    exact .parameter hs' ht' (by rw [heq]; exact hy)
  | nominal hs ht hx hsame =>
    obtain ⟨s', hs', hseq⟩ := ha _ hs
    obtain ⟨t', ht', hteq⟩ := hb _ ht
    rw [← hseq] at hx hsame
    rw [← hteq] at hsame
    exact .nominal hs' ht' hx hsame
  | numeric hs ht hx hy hwide =>
    obtain ⟨s', hs', hseq⟩ := ha _ hs
    obtain ⟨t', ht', hteq⟩ := hb _ ht
    exact .numeric hs' ht' (hseq.trans hx) (hteq.trans hy) hwide
  | compound hs ht hshell hlength hall =>
    obtain ⟨s', hs', hseq⟩ := ha _ hs
    obtain ⟨t', ht', hteq⟩ := hb _ ht
    rw [← hseq] at hshell hlength hall
    rw [← hteq] at hshell hlength hall
    exact .compound hs' ht' hshell hlength hall

/-- **What is covered is accepted.** -/
theorem meets (h : Covers R a b) : ∃ u, Meets R a b u := by
  induction h with
  | @parameter a b s t hs ht hy =>
    by_cases hx : s.inner.isParameter = true
    · exact ⟨t, .parameter hs ht hx⟩
    · exact ⟨s.inner, .absorbed hs ht (by simpa using hx) hy⟩
  | @nominal a b s t hs ht hx hsame =>
    cases hinner : s.inner with
    | concrete name attributes => exact ⟨t, .concrete hs ht hinner hsame⟩
    | union cases attributes => exact ⟨s.inner, .union hs ht hinner hsame⟩
    | _ => simp [hinner, Ty.isNominal] at hx
  | numeric hs ht hx hy hwide => exact ⟨_, .numeric hs ht hx hy hwide⟩
  | compound hs ht hshell hlength _ ih =>
    obtain ⟨us, hus⟩ := exists_along hlength ih
    exact ⟨_, .of_along hs ht hshell hus⟩

/-- A variable covers variables only. -/
theorem isParameter_right {t r : Ty} (h : Covers R b c) (ht : R.resolve b = .ok t)
    (hy : t.inner.isParameter = true) (hr : R.resolve c = .ok r) : r.inner.isParameter = true := by
  cases h with
  | parameter _ hr' hz =>
    rw [hr] at hr'
    cases hr'
    exact hz
  | nominal hs _ hx =>
    rw [ht] at hs
    cases hs
    generalize t.inner = x at hx hy
    cases x <;> cases hy
    cases hx
  | numeric hs _ hx =>
    rw [ht] at hs
    cases hs
    rw [hx] at hy
    cases hy
  | compound hs _ hshell =>
    rw [ht] at hs
    cases hs
    rw [hshell.isParameter_eq] at hy
    cases hy

/-- What a compound type covers. -/
theorem of_compound {x t : Ty} (h : Covers R b c) (ht : R.resolve b = .ok t)
    (hx : R.SameShell x t.inner) :
    ∃ r, R.resolve c = .ok r ∧ (r.inner.isParameter = true ∨ R.SameShell t.inner r.inner ∧
      r.inner.components.length = t.inner.components.length ∧
      ∀ (i : Nat) d e, t.inner.components[i]? = some d → r.inner.components[i]? = some e →
        Covers R d e) := by
  cases h with
  | parameter _ hr hz => exact ⟨_, hr, .inl hz⟩
  | nominal hs _ hnominal =>
    rw [ht] at hs
    cases hs
    rw [hx.symm.isNominal_eq] at hnominal
    cases hnominal
  | numeric hs _ hy =>
    rw [ht] at hs
    cases hs
    rw [hy] at hx
    cases hx
  | compound hs hr hshell hlength hall =>
    rw [ht] at hs
    cases hs
    exact ⟨_, hr, .inr ⟨hshell, hlength, hall⟩⟩

/-- **Covering is transitive,** also through types with variables. -/
theorem trans (h : Covers R a b) (h' : Covers R b c) : Covers R a c := by
  induction h generalizing c with
  | parameter hs ht hy =>
    obtain ⟨u, hu⟩ := h'.meets
    obtain ⟨_, r, -, hr⟩ := hu.resolves
    exact .parameter hs hr (h'.isParameter_right ht hy hr)
  | @nominal a b s t hs ht hx hsame =>
    have hy : t.inner.isNominal = true := by
      cases hinner : s.inner with
      | concrete name attributes =>
        obtain ⟨_, hy⟩ := eq_concrete_of_same (hinner ▸ hsame)
        rw [hy]
        rfl
      | union cases attributes =>
        obtain ⟨_, _, hy⟩ := eq_union_of_same (hinner ▸ hsame)
        rw [hy]
        rfl
      | _ => simp [hinner, Ty.isNominal] at hx
    obtain ⟨u, hu⟩ := h'.meets
    obtain ⟨r, hr, hz | hz⟩ := hu.of_nominal ht hy
    · exact .parameter hs hr hz
    · exact .nominal hs hr hx (Ty.same_trans hz hsame)
  | numeric hs ht hx hy hwide =>
    obtain ⟨u, hu⟩ := h'.meets
    obtain ⟨r, hr, hz | ⟨_, _, hz, hwide'⟩⟩ := hu.of_numeric ht hy
    · exact .parameter hs hr hz
    · exact .numeric hs hr hx hz (Numeric.canRepresent_trans hwide hwide')
  | compound hs ht hshell hlength _ ih =>
    obtain ⟨r, hr, hz | ⟨hshell', hlength', hall'⟩⟩ := h'.of_compound ht hshell
    · exact .parameter hs hr hz
    · refine .compound hs hr (hshell.trans hshell') (hlength'.trans hlength) ?_
      intro i c e hc he
      obtain ⟨d, hd⟩ := exists_getElem? hlength hc
      exact ih i c d hc hd (hall' i d e hd he)

end Covers

/-- **Every first-order type covers itself.** -/
theorem Fragment.covers_self (hF : Fragment R known unions) {a S : Ty}
    (ha : FirstOrder R known unions a) (h : R.solve a = .ok S) : Covers R a a := by
  refine hF.induct (P := fun a => Covers R a a) (fun a t S _ hexposed ih => ?_) ha h
  have ht := hexposed.resolve
  have hsolid := hexposed.solid hF
  generalize S.inner = X at hsolid
  generalize hx : t.inner = x at hsolid ih
  cases hsolid with
  | atom hatom =>
    cases X with
    | parameter name origin => exact .parameter ht ht (by rw [hx]; rfl)
    | concrete name attributes => exact .nominal ht ht (by rw [hx]; rfl) (Ty.same_refl _)
    | numeric kind attributes => exact .numeric ht ht hx hx (Numeric.canRepresent_refl kind)
    | _ => cases hatom
  | union cases cases' attributes => exact .nominal ht ht (by rw [hx]; rfl) (Ty.same_refl _)
  | compound hshell =>
    subst hx
    refine .compound ht ht (hshell.trans hshell.symm) rfl ?_
    intro i c d hc hd
    rw [hc] at hd
    cases hd
    exact ih c (List.mem_of_getElem? hc)

/-- A type covers, and is covered by, what lies behind its names and labels. -/
theorem Exposed.covers_inner {a t S : Ty} (h : Exposed R known unions a t S)
    (hF : Fragment R known unions) : Covers R t.inner a ∧ Covers R t a := by
  have hself := hF.covers_self h.firstOrder.inner (h.solve_inner hF)
  have hinner : R.resolve t.inner = .ok t.inner :=
    Registry.resolve_of_settled (Ty.isSettled_of_stopsWalk h.stopsWalk)
  have hright (s : Ty) (hs : R.resolve t.inner = .ok s) :
      ∃ s', R.resolve a = .ok s' ∧ s'.inner = s.inner := by
    rw [hinner] at hs
    cases hs
    exact ⟨t, h.resolve, (Ty.inner_inner t).symm⟩
  have hleft (s : Ty) (hs : R.resolve t.inner = .ok s) :
      ∃ s', R.resolve t = .ok s' ∧ s'.inner = s.inner := by
    rw [hinner] at hs
    cases hs
    exact ⟨t, Registry.resolve_of_settled h.settled, (Ty.inner_inner t).symm⟩
  exact ⟨hself.congr (fun s hs => ⟨s, hs, rfl⟩) hright, hself.congr hleft hright⟩

/-- **What two types unify to covers both of them.** -/
theorem Meets.covers (hF : Fragment R known unions) {a b u A B : Ty} (h : Meets R a b u)
    (ha : FirstOrder R known unions a) (hb : FirstOrder R known unions b)
    (hA : R.solve a = .ok A) (hB : R.solve b = .ok B) : Covers R u a ∧ Covers R u b := by
  induction h generalizing A B with
  | parameter hs ht hx =>
    have hy := hF.exposed hb hB ht
    exact ⟨.parameter (Registry.resolve_of_settled hy.settled) hs hx, (hy.covers_inner hF).2⟩
  | absorbed hs ht _ hy =>
    have hx := hF.exposed ha hA hs
    have hinner := Registry.resolve_of_settled (R := R) (Ty.isSettled_of_stopsWalk hx.stopsWalk)
    exact ⟨(hx.covers_inner hF).1, .parameter hinner ht hy⟩
  | @concrete a b s t name attributes hs ht hx hsame =>
    have hy := hF.exposed hb hB ht
    obtain ⟨_, hinner⟩ := eq_concrete_of_same (hx ▸ hsame)
    refine ⟨.nominal (Registry.resolve_of_settled hy.settled) hs (by rw [hinner]; rfl) ?_,
      (hy.covers_inner hF).2⟩
    rw [Ty.same_comm]
    exact hsame
  | @union a b s t cases attributes hs ht hx hsame =>
    have hexposed := hF.exposed ha hA hs
    have hinner := Registry.resolve_of_settled (R := R)
      (Ty.isSettled_of_stopsWalk hexposed.stopsWalk)
    refine ⟨(hexposed.covers_inner hF).1, .nominal hinner ht ?_ ?_⟩
    · rw [hx]
      rfl
    · rw [Ty.inner_inner]
      exact hsame
  | @numeric a b s t kind kind' attributes attributes' hs ht hx hy hwide =>
    have hexposed := hF.exposed ha hA hs
    have hinner := Registry.resolve_of_settled (R := R)
      (Ty.isSettled_of_stopsWalk hexposed.stopsWalk)
    have hx' : s.inner.inner = .numeric kind attributes := (Ty.inner_inner s).trans hx
    exact ⟨(hexposed.covers_inner hF).1, .numeric hinner ht hx' hy hwide⟩
  | @compound a b s t us hs ht hshell hlength hresult _ ih =>
    have hx := hF.exposed ha hA hs
    have hy := hF.exposed hb hB ht
    have hshell' := (hshell.rebuild us t.inner).symm
    have hcomponents := hshell.components_rebuild us t.inner
    have hu : R.resolve (s.inner.rebuild us t.inner) = .ok (s.inner.rebuild us t.inner) :=
      Registry.resolve_of_settled (Ty.isSettled_of_stopsWalk hshell'.stopsWalk)
    have hinner := hshell'.inner_eq
    generalize s.inner.rebuild us t.inner = w at hshell' hcomponents hu hinner ⊢
    rw [← hinner] at hshell' hcomponents
    have hpointwise (i : Nat) (v c d : Ty) (hv : w.inner.components[i]? = some v)
        (hc : s.inner.components[i]? = some c) (hd : t.inner.components[i]? = some d) :
        Covers R v c ∧ Covers R v d := by
      rw [hcomponents] at hv
      have hcmem := List.mem_of_getElem? hc
      have hdmem := List.mem_of_getElem? hd
      obtain ⟨C, -, hC⟩ := exists_of_mem_forall₂ (hx.solid hF).components hcmem
      obtain ⟨D, -, hD⟩ := exists_of_mem_forall₂ (hy.solid hF).components hdmem
      exact ih i c d v hc hd hv (hx.firstOrder.inner.components hcmem)
        (hy.firstOrder.inner.components hdmem) hC hD
    constructor
    · refine .compound hu hs hshell' (by rw [hcomponents, hresult]) ?_
      intro i v c hv hc
      obtain ⟨d, hd⟩ := exists_getElem? hlength hc
      exact (hpointwise i v c d hv hc hd).1
    · refine .compound hu ht (hshell'.trans hshell) (by rw [hcomponents, hlength, hresult]) ?_
      intro i v d hv hd
      obtain ⟨c, hc⟩ := exists_getElem? hlength.symm hd
      exact (hpointwise i v c d hv hc hd).2

/-! ## Bindings -/

/-- The type is a binding that covers each of `types`. -/
structure Bounds (R : Registry) (known : String → Prop) (unions : Bool) (types : List Ty)
    (binding : Ty) : Prop where
  firstOrder : FirstOrder R known unions binding
  solvable : ∃ S, R.solve binding = .ok S
  covers : ∀ t ∈ types, Covers R binding t

theorem Bounds.subset {types types' : List Ty} {binding : Ty}
    (h : Bounds R known unions types binding) (hsub : types' ⊆ types) :
    Bounds R known unions types' binding :=
  ⟨h.firstOrder, h.solvable, fun t ht => h.covers t (hsub ht)⟩

theorem Meets.bounds (hF : Fragment R known unions) {a b u : Ty} {types : List Ty}
    (h : Meets R a b u) (ha : FirstOrder R known unions a) (hb : FirstOrder R known unions b)
    (hA : ∃ A, R.solve a = .ok A) (hB : ∃ B, R.solve b = .ok B)
    (hcovers : ∀ t ∈ types, Covers R a t ∨ Covers R b t) : Bounds R known unions types u := by
  obtain ⟨A, hA⟩ := hA
  obtain ⟨B, hB⟩ := hB
  obtain ⟨hleft, hright⟩ := h.covers hF ha hb hA hB
  refine ⟨h.firstOrder hF ha hb, h.exists_solve hF ha hb hA hB, ?_⟩
  intro t ht
  rcases hcovers t ht with hat | hbt
  · exact hleft.trans hat
  · exact hright.trans hbt

namespace Setting

variable {s : Setting}

/-- Binding a key for the first time. -/
theorem addMapping_of_unbound {key : String} {σ : Bindings} (h : σ.mappings.get? key = none)
    (ty : Ty) : s.addMapping key ty σ = (.ok true, σ.bind key ty) := by
  rw [addMapping, h]

/-- Binding a key again keeps what the two types unify to, in one direction or the other. -/
theorem addMapping_eq_ok {key : String} {σ σ' : Bindings} {existing ty : Ty} {matched : Bool}
    (hexisting : σ.mappings.get? key = some existing)
    (h : s.addMapping key ty σ = (.ok matched, σ')) :
    ∃ u, σ' = σ.bind key u ∧ (s.unify existing ty = .ok u ∨ s.unify ty existing = .ok u) := by
  rw [addMapping, hexisting] at h
  dsimp only at h
  cases hfirst : s.unify existing ty with
  | ok u =>
    rw [hfirst] at h
    cases h
    exact ⟨u, rfl, .inl rfl⟩
  | outOfFuel =>
    rw [hfirst] at h
    cases h
  | error e =>
    rw [hfirst] at h
    cases hsecond : s.unify ty existing with
    | ok u =>
      simp only [Outcome.orElse, hsecond] at h
      cases h
      exact ⟨u, rfl, .inr rfl⟩
    | error e' =>
      simp only [Outcome.orElse, hsecond] at h
      cases h
    | outOfFuel =>
      simp only [Outcome.orElse, hsecond] at h
      cases h

/-- **One more binding:** the new binding covers what the old one covered, and the new type. -/
theorem addMapping_bounds (hF : Fragment s.types known unions) {key : String} {σ σ' : Bindings}
    {types : List Ty} {existing ty : Ty} {matched : Bool}
    (hexisting : σ.mappings.get? key = some existing)
    (hbounds : Bounds s.types known unions types existing)
    (hty : FirstOrder s.types known unions ty) (hsolve : ∃ S, s.types.solve ty = .ok S)
    (h : s.addMapping key ty σ = (.ok matched, σ')) :
    ∃ binding, σ'.mappings.get? key = some binding ∧
      Bounds s.types known unions (ty :: types) binding := by
  obtain ⟨S, hS⟩ := hsolve
  obtain ⟨E, hE⟩ := hbounds.solvable
  have hself := hF.covers_self hty hS
  obtain ⟨u, rfl, hu⟩ := addMapping_eq_ok hexisting h
  refine ⟨u, by simp [Bindings.bind], ?_⟩
  rcases hu with hu | hu
  · have hmeets := (unify_eq_ok_iff hF hbounds.firstOrder hty hE).1 hu
    refine hmeets.bounds hF hbounds.firstOrder hty hbounds.solvable ⟨S, hS⟩ ?_
    intro t ht
    rcases List.mem_cons.1 ht with rfl | ht
    · exact .inr hself
    · exact .inl (hbounds.covers t ht)
  · have hmeets := (unify_eq_ok_iff hF hty hbounds.firstOrder hS).1 hu
    refine hmeets.bounds hF hty hbounds.firstOrder ⟨S, hS⟩ hbounds.solvable ?_
    intro t ht
    rcases List.mem_cons.1 ht with rfl | ht
    · exact .inl hself
    · exact .inr (hbounds.covers t ht)

end Setting

/-! ## Runs -/

/-- The bindings after a run that started from `σ`. -/
def bindingsAfter (σ : Bindings) (run : List (BindingAnswer × Bindings)) : Bindings :=
  (run.getLast?.map (·.2)).getD σ

@[simp] theorem bindingsAfter_nil (σ : Bindings) : bindingsAfter σ [] = σ := rfl

@[simp] theorem bindingsAfter_cons (σ : Bindings) (r : BindingAnswer × Bindings)
    (run : List (BindingAnswer × Bindings)) :
    bindingsAfter σ (r :: run) = bindingsAfter r.2 run := by
  cases h : run.getLast? <;> simp [bindingsAfter, List.getLast?_cons, h]

/-- The calls that bind one key to types, one after another. -/
def bindingCalls (key : String) (calls : List (Location × Ty)) : List BindingCall :=
  calls.map fun c => .addMapping c.1 key c.2

/-- All calls of a run succeeded in matching. -/
def Succeeds (run : List (BindingAnswer × Bindings)) : Prop :=
  ∀ r ∈ run, ∃ matched, r.1 = .matched (.ok matched)

/-- A run that succeeds starts with a binding that succeeds. -/
theorem succeeds_bindingCalls {implements : Checker} {key : String} {location : Location} {ty : Ty}
    {calls : List (Location × Ty)} {σ : Bindings}
    (h : Succeeds (runBindings R implements σ (bindingCalls key ((location, ty) :: calls)))) :
    ∃ matched σ', Setting.addMapping ⟨R, implements, location⟩ key ty σ = (.ok matched, σ') ∧
      runBindings R implements σ (bindingCalls key ((location, ty) :: calls))
        = (.matched (.ok matched), σ') :: runBindings R implements σ' (bindingCalls key calls) ∧
      Succeeds (runBindings R implements σ' (bindingCalls key calls)) := by
  have hrun : runBindings R implements σ (bindingCalls key ((location, ty) :: calls))
      = (.matched (Setting.addMapping ⟨R, implements, location⟩ key ty σ).1,
          (Setting.addMapping ⟨R, implements, location⟩ key ty σ).2)
        :: runBindings R implements (Setting.addMapping ⟨R, implements, location⟩ key ty σ).2
          (bindingCalls key calls) := rfl
  rw [hrun] at h ⊢
  generalize Setting.addMapping ⟨R, implements, location⟩ key ty σ = result at h ⊢
  obtain ⟨outcome, σ'⟩ := result
  obtain ⟨matched, hmatched⟩ := h _ List.mem_cons_self
  cases hmatched
  exact ⟨matched, σ', rfl, rfl, fun r hr => h r (List.mem_cons_of_mem _ hr)⟩

/-- **Along a run of bindings,** the binding covers what it covered before the run, and every type
that was bound. -/
theorem runBindings_bounds (hF : Fragment R known unions) {implements : Checker} {key : String}
    {calls : List (Location × Ty)}
    (hcalls : ∀ c ∈ calls, FirstOrder R known unions c.2 ∧ ∃ S, R.solve c.2 = .ok S)
    {σ : Bindings} {types : List Ty} {existing : Ty}
    (hexisting : σ.mappings.get? key = some existing)
    (hbounds : Bounds R known unions types existing)
    (hrun : Succeeds (runBindings R implements σ (bindingCalls key calls))) :
    ∃ binding, (bindingsAfter σ (runBindings R implements σ (bindingCalls key calls))).mappings.get?
        key = some binding ∧ Bounds R known unions (types ++ calls.map (·.2)) binding := by
  induction calls generalizing σ types existing with
  | nil =>
    rw [List.map_nil, List.append_nil]
    exact ⟨existing, hexisting, hbounds⟩
  | cons c calls ih =>
    obtain ⟨location, ty⟩ := c
    obtain ⟨hty, hsolve⟩ := hcalls (location, ty) List.mem_cons_self
    obtain ⟨matched, σ', hfirst, hruns, hrest⟩ := succeeds_bindingCalls hrun
    obtain ⟨next, hnext, hbounds'⟩ := Setting.addMapping_bounds
      (s := ⟨R, implements, location⟩) hF hexisting hbounds hty hsolve hfirst
    obtain ⟨binding, hbinding, hlast⟩ :=
      ih (fun d hd => hcalls d (List.mem_cons_of_mem _ hd)) hnext hbounds' hrest
    rw [hruns, bindingsAfter_cons]
    refine ⟨binding, hbinding, hlast.subset ?_⟩
    intro t ht
    simp only [List.map_cons, List.mem_append, List.mem_cons] at ht ⊢
    tauto

/-- **A binding is an upper bound of everything that was bound.** In a registry that is built in
layers, when a fresh key is bound to first-order types one after another and every call succeeds,
the key has a binding in the end, and this unifies, as the expected type, with each of them. -/
theorem binding_accepts_bound {D : Built} (hD : BuiltInLayers D) {known : String → Prop}
    {unions : Bool}
    (hknown : ∀ name ty, known name → D.value.get? name = some ty →
      FirstOrder D.value known unions ty)
    (implements : Checker) (key : String) {calls : List (Location × Ty)} (hne : calls ≠ [])
    (hcalls : ∀ c ∈ calls, FirstOrder D.value known unions c.2 ∧ ∃ S, D.value.solve c.2 = .ok S)
    (hrun : Succeeds (runBindings D.value implements ∅ (bindingCalls key calls))) :
    ∃ B, (bindingsAfter ∅ (runBindings D.value implements ∅ (bindingCalls key calls))).mappings.get?
        key = some B ∧
      ∀ c ∈ calls, ∀ location implements', ∃ U,
        D.value.unify location B c.2 implements' = .ok U := by
  have hF : Fragment D.value known unions := ⟨hD.layered, hknown⟩
  obtain ⟨⟨location, ty⟩, calls, rfl⟩ := List.exists_cons_of_ne_nil hne
  obtain ⟨hty, S, hS⟩ := hcalls (location, ty) List.mem_cons_self
  obtain ⟨matched, σ, hfirst, hruns, hrest⟩ := succeeds_bindingCalls hrun
  -- The first call binds the first type as it is.
  rw [Setting.addMapping_of_unbound rfl] at hfirst
  cases hfirst
  have hbounds : Bounds D.value known unions [ty] ty := by
    refine ⟨hty, ⟨S, hS⟩, ?_⟩
    intro t ht
    rw [List.mem_singleton.1 ht]
    exact hF.covers_self hty hS
  have hbound : (Bindings.bind ∅ key ty).mappings.get? key = some ty := by
    simp [Bindings.bind]
  obtain ⟨B, hB, hlast⟩ := runBindings_bounds hF
    (fun d hd => hcalls d (List.mem_cons_of_mem _ hd)) hbound hbounds hrest
  rw [hruns, bindingsAfter_cons]
  refine ⟨B, hB, ?_⟩
  intro c hc place implements'
  obtain ⟨S', hS'⟩ := hlast.solvable
  obtain ⟨u, hu⟩ := (hlast.covers c.2 (List.mem_map_of_mem (f := Prod.snd) hc)).meets
  exact ⟨u, (Setting.unify_eq_ok_iff (s := ⟨D.value, implements', place⟩) hF hlast.firstOrder
    (hcalls c hc).1 hS').2 hu⟩

/-- Three list types of the ledger, each wider than the one before. -/
def ledgerCalls : List (Location × Ty) :=
  [(default, ledgerList (.parameter "x" .written)), (default, ledgerList (.reference "Int")),
    (default, .reference "Column")]

theorem ledgerCalls_facts :
    ledger.value.solve (ledgerList (.parameter "x" .written))
        = .ok (solvedList (.parameter "x" .written)) ∧
      (runBindings ledger.value (fun _ _ => false) ∅ (bindingCalls "a" ledgerCalls)).map (·.1)
        = [.matched (.ok true), .matched (.ok true), .matched (.ok true)] ∧
      (bindingsAfter ∅ (runBindings ledger.value (fun _ _ => false) ∅
        (bindingCalls "a" ledgerCalls))).mappings.get? "a"
        = some (ledgerList (.numeric .long ∅)) := by
  decide +kernel

/-- A list of a variable, a list of `Int` and a column of `Long` make a list of `Long`, which still
takes the list of the variable. -/
theorem binding_accepts_bound_ledger :
    (bindingsAfter ∅ (runBindings ledger.value (fun _ _ => false) ∅
        (bindingCalls "a" ledgerCalls))).mappings.get? "a" = some (ledgerList (.numeric .long ∅)) ∧
      ∃ U, ledger.value.unify default (ledgerList (.numeric .long ∅))
        (ledgerList (.parameter "x" .written)) (fun _ _ => false) = .ok U := by
  obtain ⟨-, -, hcolumn, hints, -⟩ := ledger_facts
  obtain ⟨hvariable, hanswers, hbinding⟩ := ledgerCalls_facts
  have hcalls : ∀ c ∈ ledgerCalls, FirstOrder ledger.value (fun _ => True) true c.2 ∧
      ∃ S, ledger.value.solve c.2 = .ok S := by
    intro c hc
    simp only [ledgerCalls, List.mem_cons, List.not_mem_nil, or_false] at hc
    rcases hc with rfl | rfl | rfl
    · exact ⟨ledger_list (.inl rfl) (.parameter _ _), _, hvariable⟩
    · exact ⟨ledger_list (.inl rfl) (.name rfl trivial), _, hints⟩
    · exact ⟨.name rfl trivial, _, hcolumn⟩
  have hrun : Succeeds (runBindings ledger.value (fun _ _ => false) ∅
      (bindingCalls "a" ledgerCalls)) := by
    intro r hr
    have hmem := List.mem_map_of_mem (f := Prod.fst) hr
    rw [hanswers] at hmem
    simp only [List.mem_cons, List.not_mem_nil, or_false, or_self] at hmem
    exact ⟨true, hmem⟩
  obtain ⟨B, hB, haccepts⟩ := binding_accepts_bound ledger_builtInLayers
    (fun name ty _ => ledger_firstOrder name ty) (fun _ _ => false) "a" (by simp [ledgerCalls])
    hcalls hrun
  rw [hbinding] at hB
  cases hB
  exact ⟨hbinding, haccepts (default, ledgerList (.parameter "x" .written))
    (by simp [ledgerCalls]) default (fun _ _ => false)⟩

end TypeEngine

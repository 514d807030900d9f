import TypeEngine.Proofs.Drafts
import TypeEngine.Proofs.Meets

/-!
# Compatibility is a preorder

On first-order types, "unifies with" is reflexive (`Fragment.meets_self`), transitive as long as the
type in the middle stands for no variable (`Meets.trans`), and what two types unify to may take the
place of the expected type on either side (`Meets.interchange`). All three follow the rules of
`Meets`. Reflexivity goes down along the solution, because a type that names itself outside union
cases would have no end; the other two go down along the rules.
-/

namespace TypeEngine

variable {R : Registry} {known : String → Prop} {unions : Bool}

/-! ## Closed types -/

/-- There is no variable in the type. -/
def Ty.IsClosed (ty : Ty) : Prop :=
  ty.Everywhere fun t => t.isParameter = false

namespace Ty.IsClosed

theorem inner {ty : Ty} (h : ty.IsClosed) : ty.inner.IsClosed := by
  induction ty with
  | labeled label ty ih =>
    obtain ⟨-, hchildren⟩ := h
    exact ih (hchildren ty (List.mem_singleton_self ty))
  | annotated directives ty ih =>
    obtain ⟨-, hchildren⟩ := h
    exact ih (hchildren ty (List.mem_singleton_self ty))
  | _ => exact h

theorem components {ty t : Ty} (h : ty.IsClosed) (ht : t ∈ ty.components) : t.IsClosed := by
  obtain ⟨-, hchildren⟩ := h
  refine hchildren t ?_
  cases ty with
  | parametric head params attributes => exact List.mem_cons_of_mem head ht
  | function => exact ht
  | tuple => exact ht
  | _ => cases ht

theorem isParameter_inner {ty : Ty} (h : ty.IsClosed) : ty.inner.isParameter = false := by
  obtain ⟨hnode, -⟩ := h.inner
  exact hnode

end Ty.IsClosed

/-- What stands for a type with a closed solution is no variable. -/
theorem Exposed.isParameter_inner {a t S : Ty} (h : Exposed R known unions a t S)
    (hF : Fragment R known unions) (hS : S.IsClosed) : t.inner.isParameter = false := by
  have hsolid := h.solid hF
  have hclosed := hS.isParameter_inner
  generalize t.inner = x at hsolid ⊢
  generalize S.inner = X at hsolid hclosed
  cases hsolid with
  | atom => exact hclosed
  | union => rfl
  | compound hshell => exact hshell.isParameter_eq

/-! ## Reflexivity -/

theorem Numeric.canRepresent_refl (kind : Numeric) : kind.canRepresent kind = true := by
  cases kind <;> rfl

theorem Numeric.canRepresent_trans {a b c : Numeric} (hab : a.canRepresent b = true)
    (hbc : b.canRepresent c = true) : a.canRepresent c = true := by
  simp only [canRepresent, Bool.and_eq_true, beq_iff_eq, decide_eq_true_eq] at hab hbc ⊢
  exact ⟨hab.1.trans hbc.1, hbc.2.trans hab.2⟩

/-- **Every first-order type unifies with itself.** -/
theorem Fragment.meets_self (hF : Fragment R known unions) {a S : Ty}
    (ha : FirstOrder R known unions a) (h : R.solve a = .ok S) : ∃ u, Meets R a a u := by
  refine hF.induct (P := fun a => ∃ u, Meets R a a u) (fun a t S _ hexposed ih => ?_) ha h
  have ht := hexposed.resolve
  have hsolid := hexposed.solid hF
  generalize S.inner = X at hsolid
  generalize hx : t.inner = x at hsolid ih
  cases hsolid with
  | atom hatom =>
    cases X with
    | parameter name origin => exact ⟨t, .parameter ht ht (by rw [hx]; rfl)⟩
    | concrete name attributes => exact ⟨t, .concrete ht ht hx (Ty.same_refl _)⟩
    | numeric kind attributes =>
      exact ⟨_, .numeric ht ht hx hx (Numeric.canRepresent_refl kind)⟩
    | _ => cases hatom
  | union cases cases' attributes => exact ⟨_, .union ht ht hx (Ty.same_refl _)⟩
  | compound hshell =>
    subst hx
    have hpointwise (i : Nat) (c d : Ty) (hc : t.inner.components[i]? = some c)
        (hd : t.inner.components[i]? = some d) : ∃ u, Meets R c d u := by
      rw [hc] at hd
      cases hd
      exact ih c (List.mem_of_getElem? hc)
    obtain ⟨us, hus⟩ := exists_along rfl hpointwise
    exact ⟨_, .of_along ht ht (hshell.trans hshell.symm) hus⟩

/-! ## Transitivity -/

/-- Whether the type unifies with itself only: it is a concrete type or a union. -/
def Ty.isNominal : Ty → Bool
  | .concrete .. | .union .. => true
  | _ => false

theorem Registry.SameShell.isNominal_eq {x y : Ty} (h : R.SameShell x y) :
    x.isNominal = false := by
  cases h <;> rfl

theorem eq_concrete_of_same {x : Ty} {name : String} {attributes : Attributes}
    (h : x.same (.concrete name attributes) = true) :
    ∃ attributes', x = .concrete name attributes' := by
  cases x with
  | concrete name' attributes' =>
    simp only [Ty.same, Ty.sameUnder, Bool.and_eq_true, beq_iff_eq] at h
    exact ⟨attributes', by rw [h.1]⟩
  | _ => simp [Ty.same, Ty.sameUnder] at h

theorem eq_union_of_same {x : Ty} {cases : List Case} {attributes : Attributes}
    (h : x.same (.union cases attributes) = true) :
    ∃ cases' attributes', x = .union cases' attributes' := by
  cases x with
  | union cases' attributes' => exact ⟨cases', attributes', rfl⟩
  | _ => simp [Ty.same, Ty.sameUnder] at h

namespace Meets

variable {a b t u : Ty}

/-- What unifies with a concrete type or a union. -/
theorem of_nominal (h : Meets R a b u) (ha : R.resolve a = .ok t)
    (hx : t.inner.isNominal = true) :
    ∃ r, R.resolve b = .ok r ∧ (r.inner.isParameter = true ∨ r.inner.same t.inner = true) := by
  cases h with
  | absorbed hs hr _ hz =>
    rw [ha] at hs
    cases hs
    exact ⟨_, hr, .inl hz⟩
  | concrete hs hr _ hsame | union hs hr _ hsame =>
    rw [ha] at hs
    cases hs
    exact ⟨_, hr, .inr hsame⟩
  | parameter hs _ hy =>
    rw [ha] at hs
    cases hs
    generalize t.inner = x at hx hy
    cases x <;> cases hy
    cases hx
  | numeric hs _ hy =>
    rw [ha] at hs
    cases hs
    rw [hy] at hx
    cases hx
  | compound hs _ hshell =>
    rw [ha] at hs
    cases hs
    rw [hshell.isNominal_eq] at hx
    cases hx

/-- What unifies with a number type. -/
theorem of_numeric {kind : Numeric} {attributes : Attributes} (h : Meets R a b u)
    (ha : R.resolve a = .ok t) (hx : t.inner = .numeric kind attributes) :
    ∃ r, R.resolve b = .ok r ∧ (r.inner.isParameter = true ∨ ∃ kind' attributes',
      r.inner = .numeric kind' attributes' ∧ kind.canRepresent kind' = true) := by
  cases h with
  | absorbed hs hr _ hz =>
    rw [ha] at hs
    cases hs
    exact ⟨_, hr, .inl hz⟩
  | numeric hs hr hy hz hwide =>
    rw [ha] at hs
    cases hs
    rw [hx] at hy
    cases hy
    exact ⟨_, hr, .inr ⟨_, _, hz, hwide⟩⟩
  | parameter hs _ hy | concrete hs _ hy | union hs _ hy | compound hs _ hy =>
    rw [ha] at hs
    cases hs
    rw [hx] at hy
    cases hy

/-- What unifies with a compound type. -/
theorem of_compound {x : Ty} (h : Meets R a b u) (ha : R.resolve a = .ok t)
    (hx : R.SameShell x t.inner) :
    ∃ r, R.resolve b = .ok r ∧ (r.inner.isParameter = true ∨ R.SameShell t.inner r.inner ∧
      ∃ us, Along (Meets R) t.inner.components r.inner.components us) := by
  cases h with
  | absorbed hs hr _ hz =>
    rw [ha] at hs
    cases hs
    exact ⟨_, hr, .inl hz⟩
  | compound hs hr hshell hlength hresult hall =>
    rw [ha] at hs
    cases hs
    exact ⟨_, hr, .inr ⟨hshell, _, hlength, hresult, hall⟩⟩
  | concrete hs _ hy | union hs _ hy | numeric hs _ hy =>
    rw [ha] at hs
    cases hs
    rw [hy] at hx
    cases hx
  | parameter hs _ hy =>
    rw [ha] at hs
    cases hs
    rw [hx.symm.isParameter_eq] at hy
    cases hy

/-- **Compatibility is transitive,** as long as the type in the middle stands for no variable. -/
theorem trans (hF : Fragment R known unions) {c v T : Ty} (h : Meets R a b u) (h' : Meets R b c v)
    (hb : FirstOrder R known unions b) (hT : R.solve b = .ok T) (hclosed : T.IsClosed) :
    ∃ w, Meets R a c w := by
  induction h generalizing c v T with
  | parameter hs _ hx =>
    obtain ⟨_, r, -, hr⟩ := h'.resolves
    exact ⟨r, .parameter hs hr hx⟩
  | absorbed _ ht _ hy =>
    have hfalse := (hF.exposed hb hT ht).isParameter_inner hF hclosed
    rw [hy] at hfalse
    cases hfalse
  | concrete hs ht hx hsame =>
    obtain ⟨_, hy⟩ := eq_concrete_of_same (hx ▸ hsame)
    obtain ⟨r, hr, hz | hz⟩ := h'.of_nominal ht (by rw [hy]; rfl)
    · exact ⟨_, .absorbed hs hr (by rw [hx]; rfl) hz⟩
    · exact ⟨r, .concrete hs hr hx (Ty.same_trans hz hsame)⟩
  | union hs ht hx hsame =>
    obtain ⟨_, _, hy⟩ := eq_union_of_same (hx ▸ hsame)
    obtain ⟨r, hr, hz | hz⟩ := h'.of_nominal ht (by rw [hy]; rfl)
    · exact ⟨_, .absorbed hs hr (by rw [hx]; rfl) hz⟩
    · exact ⟨_, .union hs hr hx (Ty.same_trans hz hsame)⟩
  | numeric hs ht hx hy hwide =>
    obtain ⟨r, hr, hz | ⟨_, _, hz, hwide'⟩⟩ := h'.of_numeric ht hy
    · exact ⟨_, .absorbed hs hr (by rw [hx]; rfl) hz⟩
    · exact ⟨_, .numeric hs hr hx hz (Numeric.canRepresent_trans hwide hwide')⟩
  | @compound a b s t us hs ht hshell hlength hresult _ ih =>
    obtain ⟨r, hr, hz | ⟨hshell', vs, hvs⟩⟩ := h'.of_compound ht hshell
    · exact ⟨_, .absorbed hs hr hshell.isParameter_eq hz⟩
    · have hexposed := hF.exposed hb hT ht
      have hlength' := hvs.length_actual.trans hlength
      -- At every position there is a component of the type in the middle.
      have hpointwise (i : Nat) (c e : Ty) (hc : s.inner.components[i]? = some c)
          (he : r.inner.components[i]? = some e) : ∃ w, Meets R c e w := by
        obtain ⟨d, hd⟩ := exists_getElem? hlength hc
        obtain ⟨u, hu⟩ := exists_getElem? hresult hc
        obtain ⟨v, hv⟩ := exists_getElem? hvs.length_result hd
        have hmem := List.mem_of_getElem? hd
        obtain ⟨U, hU, hsolve⟩ := exists_of_mem_forall₂ (hexposed.solid hF).components hmem
        exact ih i c d u hc hd hu (hvs.pointwise i d e v hd he hv)
          (hexposed.firstOrder.inner.components hmem) hsolve (hclosed.inner.components hU)
      obtain ⟨ws, hws⟩ := exists_along hlength' hpointwise
      exact ⟨_, .of_along hs hr (hshell.trans hshell') hws⟩

/-! ## Interchange -/

/-- Whether types unify only depends on what lies behind the names and labels of the actual type. -/
theorem congr_right {b' : Ty} (h : Meets R a b u)
    (hb : ∀ t, R.resolve b = .ok t → ∃ t', R.resolve b' = .ok t' ∧ t'.inner = t.inner) :
    ∃ v, Meets R a b' v := by
  cases h with
  | parameter hs ht hx =>
    obtain ⟨t', ht', -⟩ := hb _ ht
    exact ⟨t', .parameter hs ht' hx⟩
  | absorbed hs ht hx hy =>
    obtain ⟨t', ht', heq⟩ := hb _ ht
    rw [← heq] at hy
    exact ⟨_, .absorbed hs ht' hx hy⟩
  | concrete hs ht hx hsame =>
    obtain ⟨t', ht', heq⟩ := hb _ ht
    rw [← heq] at hsame
    exact ⟨t', .concrete hs ht' hx hsame⟩
  | union hs ht hx hsame =>
    obtain ⟨t', ht', heq⟩ := hb _ ht
    rw [← heq] at hsame
    exact ⟨_, .union hs ht' hx hsame⟩
  | numeric hs ht hx hy hwide =>
    obtain ⟨t', ht', heq⟩ := hb _ ht
    rw [← heq] at hy
    exact ⟨_, .numeric hs ht' hx hy hwide⟩
  | compound hs ht hshell hlength hresult hall =>
    obtain ⟨t', ht', heq⟩ := hb _ ht
    rw [← heq] at hshell hlength hall
    exact ⟨_, .compound hs ht' hshell hlength hresult hall⟩

theorem exists_solveAll {us : List Ty}
    (h : ∀ (i : Nat) u, us[i]? = some u → ∃ U, R.solve u = .ok U) : ∃ Us, R.SolveAll us Us := by
  have hposition (i : Nat) (hi : i < us.length) :
      ∃ U, ∀ u, us[i]? = some u → R.solve u = .ok U := by
    obtain ⟨U, hU⟩ := h i us[i] (List.getElem?_eq_getElem hi)
    refine ⟨U, fun u hu => ?_⟩
    rw [List.getElem?_eq_getElem hi] at hu
    cases hu
    exact hU
  obtain ⟨Us, hlength, hUs⟩ := exists_list hposition
  exact ⟨Us, forall₂_iff_getElem?.2 ⟨hlength, fun i u U hu hU => hUs i U hU u hu⟩⟩

/-- What first-order types unify to can be solved if they can. -/
theorem exists_solve (hF : Fragment R known unions) {A B : Ty} (h : Meets R a b u)
    (ha : FirstOrder R known unions a) (hb : FirstOrder R known unions b)
    (hA : R.solve a = .ok A) (hB : R.solve b = .ok B) : ∃ U, R.solve u = .ok U := by
  induction h generalizing A B with
  | parameter _ ht => exact ⟨B, (hF.exposed hb hB ht).solve⟩
  | absorbed hs => exact ⟨A.inner, (hF.exposed ha hA hs).solve_inner hF⟩
  | concrete _ ht => exact ⟨B, (hF.exposed hb hB ht).solve⟩
  | union hs => exact ⟨A.inner, (hF.exposed ha hA hs).solve_inner hF⟩
  | numeric hs => exact ⟨A.inner, (hF.exposed ha hA hs).solve_inner hF⟩
  | @compound a b s t us hs ht hshell hlength hresult _ ih =>
    have hx := hF.exposed ha hA hs
    have hy := hF.exposed hb hB ht
    have hall (i : Nat) (u : Ty) (hi : us[i]? = some u) : ∃ U, R.solve u = .ok U := by
      obtain ⟨c, hc⟩ := exists_getElem? hresult.symm hi
      obtain ⟨d, hd⟩ := exists_getElem? hlength hc
      have hcmem := List.mem_of_getElem? hc
      have hdmem := List.mem_of_getElem? hd
      obtain ⟨C, -, hC⟩ := exists_of_mem_forall₂ (hx.solid hF).components hcmem
      obtain ⟨D, -, hD⟩ := exists_of_mem_forall₂ (hy.solid hF).components hdmem
      exact ih i c d u hc hd hi (hx.firstOrder.inner.components hcmem)
        (hy.firstOrder.inner.components hdmem) hC hD
    obtain ⟨Us, hUs⟩ := exists_solveAll hall
    obtain ⟨W, hW, -⟩ := Registry.solve_rebuild hF.layered hshell (hx.solve_inner hF) hUs t.inner
      t.inner
    exact ⟨W, hW⟩

/-- **What two types unify to may take the place of the expected type,** on either side. -/
theorem interchange (hF : Fragment R known unions) {A B : Ty} (h : Meets R a b u)
    (ha : FirstOrder R known unions a) (hb : FirstOrder R known unions b)
    (hA : R.solve a = .ok A) (hB : R.solve b = .ok B) :
    (∃ v, Meets R a u v) ∧ ∃ v, Meets R u a v := by
  -- Where the result is what the expected type stands for, both follow from reflexivity.
  have hself {a s A : Ty} (ha : FirstOrder R known unions a) (hA : R.solve a = .ok A)
      (hs : R.resolve a = .ok s) : (∃ v, Meets R a s.inner v) ∧ ∃ v, Meets R s.inner a v := by
    have hexposed := hF.exposed ha hA hs
    have hinner : R.resolve s.inner = .ok s.inner :=
      Registry.resolve_of_settled (Ty.isSettled_of_stopsWalk hexposed.stopsWalk)
    obtain ⟨v, hv⟩ := hF.meets_self hexposed.firstOrder.inner (hexposed.solve_inner hF)
    constructor
    · refine ⟨v, hv.congr_left fun r hr => ⟨s, hs, ?_⟩⟩
      rw [hinner] at hr
      cases hr
      exact (Ty.inner_inner s).symm
    · refine hv.congr_right fun r hr => ⟨s, hs, ?_⟩
      rw [hinner] at hr
      cases hr
      exact (Ty.inner_inner s).symm
  induction h generalizing A B with
  | @parameter a b s t hs ht hx =>
    have ht' : R.resolve t = .ok t := Registry.resolve_of_settled (hF.resolved hb ht).2
    refine ⟨⟨t, .parameter hs ht' hx⟩, ?_⟩
    cases hy : t.inner.isParameter with
    | true => exact ⟨s, .parameter ht' hs hy⟩
    | false => exact ⟨_, .absorbed ht' hs hy hx⟩
  | absorbed hs => exact hself ha hA hs
  | union hs => exact hself ha hA hs
  | numeric hs => exact hself ha hA hs
  | @concrete a b s t name attributes hs ht hx hsame =>
    have ht' : R.resolve t = .ok t := Registry.resolve_of_settled (hF.resolved hb ht).2
    obtain ⟨_, hy⟩ := eq_concrete_of_same (hx ▸ hsame)
    refine ⟨⟨t, .concrete hs ht' hx hsame⟩, s, .concrete ht' hs hy ?_⟩
    rw [Ty.same_comm]
    exact hsame
  | @compound a b s t us hs ht hshell hlength hresult _ ih =>
    have hx := hF.exposed ha hA hs
    have hy := hF.exposed hb hB ht
    have hshell' := hshell.rebuild us t.inner
    have hcomponents := hshell.components_rebuild us t.inner
    have hu : R.resolve (s.inner.rebuild us t.inner) = .ok (s.inner.rebuild us t.inner) :=
      Registry.resolve_of_settled (Ty.isSettled_of_stopsWalk hshell'.symm.stopsWalk)
    have hinner := hshell'.symm.inner_eq
    generalize s.inner.rebuild us t.inner = w at hshell' hcomponents hu hinner ⊢
    have husw : us = w.inner.components := by rw [hinner, hcomponents]
    rw [← hinner] at hshell'
    have hpointwise (i : Nat) (c v : Ty) (hc : s.inner.components[i]? = some c)
        (hv : us[i]? = some v) : (∃ r, Meets R c v r) ∧ ∃ r, Meets R v c r := by
      obtain ⟨d, hd⟩ := exists_getElem? hlength hc
      have hcmem := List.mem_of_getElem? hc
      have hdmem := List.mem_of_getElem? hd
      obtain ⟨C, -, hC⟩ := exists_of_mem_forall₂ (hx.solid hF).components hcmem
      obtain ⟨D, -, hD⟩ := exists_of_mem_forall₂ (hy.solid hF).components hdmem
      exact ih i c d v hc hd hv (hx.firstOrder.inner.components hcmem)
        (hy.firstOrder.inner.components hdmem) hC hD
    constructor
    · obtain ⟨vs, hvs⟩ := exists_along (P := Meets R) hresult
        fun i c v hc hv => (hpointwise i c v hc hv).1
      rw [husw] at hvs
      exact ⟨_, .of_along hs hu hshell' hvs⟩
    · obtain ⟨vs, hvs⟩ := exists_along (P := Meets R) hresult.symm
        fun i v c hv hc => (hpointwise i c v hc hv).2
      rw [husw] at hvs
      exact ⟨_, .of_along hu hs hshell'.symm hvs⟩

end Meets

/-- **Compatibility is a preorder on closed first-order types.** In a registry that is built in
layers, whatever the location and the checker are: a type unifies with itself; compatibility is
transitive, if the type in the middle is closed; and what two types unify to is interchangeable with
the expected type. -/
theorem unify_preorder {D : Built} (hD : BuiltInLayers D) {known : String → Prop}
    (hknown : ∀ name ty, known name → D.value.get? name = some ty →
      FirstOrder D.value known true ty)
    (location : Location) (implements : Checker) {A B C A' B' : Ty}
    (hA : FirstOrder D.value known true A) (hB : FirstOrder D.value known true B)
    (hC : FirstOrder D.value known true C) (hA' : D.value.solve A = .ok A')
    (hB' : D.value.solve B = .ok B') :
    (∃ U, D.value.unify location A A implements = .ok U) ∧
    (B'.IsClosed → (∃ U, D.value.unify location A B implements = .ok U) →
      (∃ U, D.value.unify location B C implements = .ok U) →
      ∃ U, D.value.unify location A C implements = .ok U) ∧
    (∀ U, D.value.unify location A B implements = .ok U →
      (∃ V, D.value.unify location A U implements = .ok V) ∧
        ∃ V, D.value.unify location U A implements = .ok V) := by
  have hF : Fragment D.value known true := ⟨hD.layered, hknown⟩
  have hiff {a b S u : Ty} (ha : FirstOrder D.value known true a)
      (hb : FirstOrder D.value known true b) (hS : D.value.solve a = .ok S) :
      D.value.unify location a b implements = .ok u ↔ Meets D.value a b u :=
    Setting.unify_eq_ok_iff (s := ⟨D.value, implements, location⟩) hF ha hb hS
  refine ⟨?_, ?_, ?_⟩
  · obtain ⟨u, hu⟩ := hF.meets_self hA hA'
    exact ⟨u, (hiff hA hA hA').2 hu⟩
  · rintro hclosed ⟨u, hu⟩ ⟨v, hv⟩
    obtain ⟨w, hw⟩ := ((hiff hA hB hA').1 hu).trans hF ((hiff hB hC hB').1 hv) hB hB' hclosed
    exact ⟨w, (hiff hA hC hA').2 hw⟩
  · intro U hU
    have hmeets := (hiff hA hB hA').1 hU
    have hfirst := hmeets.firstOrder hF hA hB
    obtain ⟨U', hU'⟩ := hmeets.exists_solve hF hA hB hA' hB'
    obtain ⟨⟨v, hv⟩, w, hw⟩ := hmeets.interchange hF hA hB hA' hB'
    exact ⟨⟨v, (hiff hA hfirst hA').2 hv⟩, w, (hiff hfirst hA hU').2 hw⟩

/-- Numbers and lists, and above them columns of amounts. -/
def ledger : Built :=
  ((Builder.withParent (Builder.new.declareAll
    [.type "Int" ∅ [] (.numeric .int),
      .type "Long" ∅ [] (.numeric .long),
      .parametric "List" [.parameter "a"]]).2.build).declareAll
    [.type "Amount" ∅ [] (.reference "Long"),
      .type "Column" ∅ [] (.parametric "List" [.labeled "cell" (.reference "Amount")])]).2.build

theorem ledger_builtInLayers : BuiltInLayers ledger :=
  .above (.root (lawful_registrations _)) (lawful_registrations _)

/-- A list type of the ledger. -/
def ledgerList (element : Ty) : Ty :=
  .parametric (.reference "List") [element] ∅

/-- A list type of the ledger after solving. -/
def solvedList (element : Ty) : Ty :=
  .parametric (.concrete "List" ∅) [element] ∅

theorem ledger_facts :
    ledger.value.declared =
        [("Amount", .typeAlias "Long" ∅),
          ("Column", ledgerList (.labeled "cell" (.reference "Amount"))),
          ("Int", .numeric .int ∅), ("Long", .numeric .long ∅),
          ("List", solvedList (.parameter "a" .written))] ∧
      ledger.value.solve (.reference "List") = .ok (solvedList (.parameter "a" .written)) ∧
      ledger.value.solve (.reference "Column")
        = .ok (solvedList (.labeled "cell" (.numeric .long ∅))) ∧
      ledger.value.solve (ledgerList (.reference "Int")) = .ok (solvedList (.numeric .int ∅)) ∧
      ledger.value.unify default (.reference "Column") (ledgerList (.reference "Int"))
        (fun _ _ => false) = .ok (ledgerList (.numeric .long ∅)) ∧
      ledger.value.unify default (ledgerList (.reference "Int")) (ledgerList (.numeric .byte ∅))
        (fun _ _ => false) = .ok (ledgerList (.numeric .int ∅)) ∧
      ledger.value.unify default (solvedList (.labeled "cell" (.numeric .long ∅)))
        (solvedList (.numeric .int ∅)) (fun _ _ => false)
        = .ok (solvedList (.numeric .long ∅)) := by
  decide +kernel

theorem ledger_entries {name : String} {ty : Ty} (h : ledger.value.get? name = some ty) :
    ty ∈ [.typeAlias "Long" ∅, ledgerList (.labeled "cell" (.reference "Amount")),
      .numeric .int ∅, .numeric .long ∅, solvedList (.parameter "a" .written)] := by
  have hR := ledger_builtInLayers.layered
  obtain ⟨⟨O, target⟩, hfind, rfl⟩ := Option.map_eq_some_iff.1 h
  have hmem := (Catalog.declared_sublist (hR.under_of_find? hfind)).subset (hR.mem_declared hfind)
  rw [ledger_facts.1] at hmem
  exact List.mem_map_of_mem (f := Prod.snd) hmem

theorem ledger_list {head element : Ty}
    (hhead : head = .reference "List" ∨ head = .concrete "List" ∅)
    (h : FirstOrder ledger.value known unions element) :
    FirstOrder ledger.value known unions (.parametric head [element] ∅) := by
  obtain ⟨-, hlist, -⟩ := ledger_facts
  refine .parametric (fun trait htrait => ?_) (fun t ht => ?_)
  · obtain ⟨U, hU, htrait⟩ := Registry.solvedHead_eq_ok.1 htrait
    rcases hhead with rfl | rfl
    · rw [hlist] at hU
      cases hU
      cases htrait
    · rw [Registry.solve_concrete] at hU
      cases hU
      cases htrait
  · rw [List.mem_singleton.1 ht]
    exact h

theorem ledger_firstOrder (name : String) (ty : Ty) (h : ledger.value.get? name = some ty) :
    FirstOrder ledger.value (fun _ => True) true ty := by
  have hmem := ledger_entries h
  simp only [List.mem_cons, List.not_mem_nil, or_false] at hmem
  rcases hmem with rfl | rfl | rfl | rfl | rfl
  · exact .name rfl trivial
  · exact ledger_list (.inl rfl) (.labeled (.name rfl trivial))
  · exact .numeric _ _
  · exact .numeric _ _
  · exact ledger_list (.inr rfl) (.parameter _ _)

/-- A column takes lists of `Int`, which take lists of `Byte`. -/
theorem unify_preorder_ledger :
    ledger.value.unify default (.reference "Column") (ledgerList (.reference "Int"))
        (fun _ _ => false) = .ok (ledgerList (.numeric .long ∅)) ∧
      (∃ U, ledger.value.unify default (.reference "Column") (ledgerList (.numeric .byte ∅))
        (fun _ _ => false) = .ok U) ∧
      ∃ V, ledger.value.unify default (ledgerList (.numeric .long ∅)) (.reference "Column")
        (fun _ _ => false) = .ok V := by
  obtain ⟨-, -, hcolumn, hints, hfirst, hsecond, -⟩ := ledger_facts
  have hclosed : (solvedList (.numeric .int ∅)).IsClosed := by
    refine .node rfl fun t ht => ?_
    simp only [solvedList, Ty.children, List.mem_cons, List.not_mem_nil, or_false] at ht
    rcases ht with rfl | rfl <;> exact .leaf rfl rfl
  obtain ⟨-, htrans, hinterchange⟩ := unify_preorder ledger_builtInLayers
    (fun name ty _ => ledger_firstOrder name ty) default (fun _ _ => false) (.name rfl trivial)
    (ledger_list (.inl rfl) (.name rfl trivial)) (ledger_list (.inl rfl) (.numeric .byte ∅)) hcolumn
    hints
  exact ⟨hfirst, htrans hclosed ⟨_, hfirst⟩ ⟨_, hsecond⟩, (hinterchange _ hfirst).2⟩

end TypeEngine

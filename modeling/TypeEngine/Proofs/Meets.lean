import TypeEngine.Proofs.Answers

/-!
# How first-order types unify

`Meets R a b u` says that the expected type `a` and the actual type `b` unify to `u`. Both are
looked at behind their names and labels, and there is one rule for each kind of type that the
expected type may be there. The rules speak of neither fuel nor errors, nor of the checker and the
location.

Unification of first-order types succeeds exactly along these rules (`Setting.unify_eq_ok_iff`).
That it does not lack fuel is because it opens only the names that solving the expected type opens
(`Setting.unifyWithin_ends`).
-/

namespace TypeEngine

/-! ## The rules -/

/-- `Meets R a b u`: the expected type `a` and the actual type `b` unify to `u`. -/
inductive Meets (R : Registry) : Ty → Ty → Ty → Prop
  /-- A variable takes the actual type. -/
  | parameter {a b s t : Ty} : R.resolve a = .ok s → R.resolve b = .ok t →
      s.inner.isParameter = true → Meets R a b t
  /-- Any other type takes a variable. -/
  | absorbed {a b s t : Ty} : R.resolve a = .ok s → R.resolve b = .ok t →
      s.inner.isParameter = false → t.inner.isParameter = true → Meets R a b s.inner
  | concrete {a b s t : Ty} {name : String} {attributes : Attributes} : R.resolve a = .ok s →
      R.resolve b = .ok t → s.inner = .concrete name attributes → t.inner.same s.inner = true →
      Meets R a b t
  | union {a b s t : Ty} {cases : List Case} {attributes : Attributes} : R.resolve a = .ok s →
      R.resolve b = .ok t → s.inner = .union cases attributes → t.inner.same s.inner = true →
      Meets R a b s.inner
  | numeric {a b s t : Ty} {kind kind' : Numeric} {attributes attributes' : Attributes} :
      R.resolve a = .ok s → R.resolve b = .ok t → s.inner = .numeric kind attributes →
      t.inner = .numeric kind' attributes' → kind.canRepresent kind' = true →
      Meets R a b s.inner
  /-- Compound types of one kind unify component by component. -/
  | compound {a b s t : Ty} {us : List Ty} : R.resolve a = .ok s → R.resolve b = .ok t →
      R.SameShell s.inner t.inner → t.inner.components.length = s.inner.components.length →
      us.length = s.inner.components.length →
      (∀ (i : Nat) c d u, s.inner.components[i]? = some c → t.inner.components[i]? = some d →
        us[i]? = some u → Meets R c d u) →
      Meets R a b (s.inner.rebuild us t.inner)

namespace Meets

variable {R : Registry} {a a' b u : Ty}

theorem of_along {s t : Ty} {us : List Ty} (hs : R.resolve a = .ok s) (ht : R.resolve b = .ok t)
    (hshell : R.SameShell s.inner t.inner)
    (hus : Along (Meets R) s.inner.components t.inner.components us) :
    Meets R a b (s.inner.rebuild us t.inner) :=
  .compound hs ht hshell hus.length_actual hus.length_result hus.pointwise

/-- Only what lies behind the names and labels of the expected type matters. -/
theorem congr_left (h : Meets R a b u)
    (ha : ∀ s, R.resolve a = .ok s → ∃ s', R.resolve a' = .ok s' ∧ s'.inner = s.inner) :
    Meets R a' b u := by
  cases h with
  | parameter hs ht hx =>
    obtain ⟨s', hs', heq⟩ := ha _ hs
    rw [← heq] at hx
    exact .parameter hs' ht hx
  | absorbed hs ht hx hy =>
    obtain ⟨s', hs', heq⟩ := ha _ hs
    rw [← heq] at hx ⊢
    exact .absorbed hs' ht hx hy
  | concrete hs ht hx hsame =>
    obtain ⟨s', hs', heq⟩ := ha _ hs
    rw [← heq] at hx hsame
    exact .concrete hs' ht hx hsame
  | union hs ht hx hsame =>
    obtain ⟨s', hs', heq⟩ := ha _ hs
    rw [← heq] at hx hsame ⊢
    exact .union hs' ht hx hsame
  | numeric hs ht hx hy hwide =>
    obtain ⟨s', hs', heq⟩ := ha _ hs
    rw [← heq] at hx ⊢
    exact .numeric hs' ht hx hy hwide
  | compound hs ht hshell hlength hresult hall =>
    obtain ⟨s', hs', heq⟩ := ha _ hs
    rw [← heq] at hshell hlength hresult hall ⊢
    exact .compound hs' ht hshell hlength hresult hall

theorem resolves (h : Meets R a b u) :
    ∃ s t, R.resolve a = .ok s ∧ R.resolve b = .ok t := by
  cases h with
  | parameter hs ht | absorbed hs ht | concrete hs ht | union hs ht | numeric hs ht
  | compound hs ht => exact ⟨_, _, hs, ht⟩

/-- What first-order types unify to is first-order. -/
theorem firstOrder {known : String → Prop} {unions : Bool} (hF : Fragment R known unions)
    (h : Meets R a b u) (ha : FirstOrder R known unions a) (hb : FirstOrder R known unions b) :
    FirstOrder R known unions u := by
  induction h with
  | parameter _ ht => exact (hF.resolved hb ht).1
  | absorbed hs => exact (hF.resolved ha hs).1.inner
  | concrete _ ht => exact (hF.resolved hb ht).1
  | union hs => exact (hF.resolved ha hs).1.inner
  | numeric hs => exact (hF.resolved ha hs).1.inner
  | @compound a b s t us hs ht _ hlength hresult _ ih =>
    have hx := (hF.resolved ha hs).1.inner
    have hy := (hF.resolved hb ht).1.inner
    refine hx.rebuild (fun v hv => ?_) t.inner
    obtain ⟨i, hi⟩ := List.mem_iff_getElem?.1 hv
    obtain ⟨c, hc⟩ := exists_getElem? hresult.symm hi
    obtain ⟨d, hd⟩ := exists_getElem? hlength hc
    exact ih i c d v hc hd hi (hx.components (List.mem_of_getElem? hc))
      (hy.components (List.mem_of_getElem? hd))

end Meets

/-! ## What unification finds follows the rules -/

namespace Setting

variable {s : Setting} {known : String → Prop} {unions : Bool}

/-- The head of a first-order type is no trait. -/
theorem boundTrait_eq_none {a : Ty} (ha : FirstOrder s.types known unions a) {trait? : Option Trait}
    (h : s.boundTrait a = .ok trait?) : trait? = none := by
  cases ha with
  | parametric hhead =>
    unfold boundTrait at h
    obtain ⟨H, hH, h⟩ := Outcome.bind_eq_ok.1 h
    cases H with
    | trait trait => exact absurd hH (hhead trait)
    | _ =>
      cases h
      rfl
  | name hname =>
    obtain rfl | ⟨_, rfl⟩ := Ty.eq_of_target hname
    · cases h
      rfl
    · cases h
      rfl
  | _ =>
    cases h
    rfl

/-- **What unification gives for first-order types, the rules give.** -/
theorem meets_of_unifyWithin (hF : Fragment s.types known unions) {n : Nat} {a b u : Ty}
    (ha : FirstOrder s.types known unions a) (hb : FirstOrder s.types known unions b)
    (h : s.unifyWithin n a b = .ok u) : Meets s.types a b u := by
  induction n generalizing a b u with
  | zero => cases h
  | succ n ih =>
    cases unifyWithin_succ_eq_ok.1 h with
    | parameter ht => exact .parameter (Registry.resolve_of_settled rfl) ht rfl
    | absorbed htakes ht hactual =>
      obtain ⟨hstop, hinner, hparam⟩ := Ty.inner_of_takesVariable htakes
      have habsorbed := Meets.absorbed
        (Registry.resolve_of_settled (Ty.isSettled_of_stopsWalk hstop)) ht
        (by rw [hinner]; exact hparam) hactual
      rwa [hinner] at habsorbed
    | @name _ _ t _ _ _ ht hu =>
      obtain ⟨hfirst, hsettled⟩ := hF.resolved ha ht
      refine (ih hfirst hb hu).congr_left fun s' hs' => ⟨t, ht, ?_⟩
      rw [Registry.resolve_of_settled hsettled] at hs'
      cases hs'
      rfl
    | labeled hu =>
      cases ha with
      | labeled ha =>
        refine (ih ha hb hu).congr_left fun s' hs' => ?_
        exact ⟨_, Registry.resolve_labeled.2 ⟨s', hs', rfl⟩, rfl⟩
      | name hname => cases hname
    | concrete ht hsame => exact .concrete (Registry.resolve_of_settled rfl) ht rfl hsame
    | numeric ht hinner hwide =>
      exact .numeric (Registry.resolve_of_settled rfl) ht rfl hinner hwide
    | represented ht hinner =>
      -- There is no implemented trait in a first-order type.
      have hfirst := (hF.resolved hb ht).1.inner
      rw [hinner] at hfirst
      cases hfirst with
      | name hname => cases hname
    | itself hself hsame =>
      obtain ⟨hstop, hinner, -⟩ := Ty.stopsWalk_of_same hself hsame
      cases ha with
      | union =>
        refine .union (Registry.resolve_of_settled rfl)
          (Registry.resolve_of_settled (Ty.isSettled_of_stopsWalk hstop)) rfl ?_
        rw [hinner, Ty.same_comm]
        exact hsame
      | name hname => obtain rfl | ⟨_, rfl⟩ := Ty.eq_of_target hname <;> cases hself
      | _ => cases hself
    | whole hwhole ht hsame =>
      cases ha with
      | union => exact .union (Registry.resolve_of_settled rfl) ht rfl hsame
      | name hname => obtain rfl | ⟨_, rfl⟩ := Ty.eq_of_target hname <;> cases hwhole
      | _ => cases hwhole
    | label =>
      cases hb with
      | name hname => cases hname
    | bound htrait => cases boundTrait_eq_none ha htrait
    | implemented htrait => cases boundTrait_eq_none ha htrait
    | @compound _ _ t us _ ht hshell hus =>
      have hmeets : Along (Meets s.types) a.components t.inner.components us :=
        ⟨hus.length_actual, hus.length_result, fun i c d v hc hd hv =>
          ih (ha.components (List.mem_of_getElem? hc))
            ((hF.resolved hb ht).1.inner.components (List.mem_of_getElem? hd))
            (hus.pointwise i c d v hc hd hv)⟩
      have hinner := hshell.inner_eq
      have hcompound := Meets.of_along
        (Registry.resolve_of_settled (Ty.isSettled_of_stopsWalk hshell.stopsWalk)) ht
        (by rw [hinner]; exact hshell) (by rw [hinner]; exact hmeets)
      rwa [hinner] at hcompound
    | annotated | traits | method | proof | implementation | proven | shown | confirmed =>
      cases ha with
      | name hname => cases hname

/-! ## What the rules give, unification finds -/

theorem exists_unifyWithin_of_inner {n : Nat} {t b u : Ty} (h : s.unifyWithin n t.inner b = .ok u) :
    ∃ m, s.unifyWithin m t b = .ok u := by
  induction t with
  | labeled label t ih =>
    obtain ⟨m, hm⟩ := ih h
    exact ⟨m + 1, hm⟩
  | annotated directives t ih =>
    obtain ⟨m, hm⟩ := ih h
    exact ⟨m + 1, hm⟩
  | _ => exact ⟨n, h⟩

/-- Unification opens the names and labels of the expected type by itself. -/
theorem exists_unifyWithin_of_resolve {n : Nat} {a b t u : Ty}
    (ha : FirstOrder s.types known unions a) (ht : s.types.resolve a = .ok t)
    (h : s.unifyWithin n t.inner b = .ok u) : ∃ m, s.unifyWithin m a b = .ok u := by
  induction ha generalizing t with
  | labeled _ ih =>
    obtain ⟨t, hinner, rfl⟩ := Registry.resolve_labeled.1 ht
    obtain ⟨m, hm⟩ := ih hinner h
    exact ⟨m + 1, hm⟩
  | name hname =>
    obtain ⟨m, hm⟩ := exists_unifyWithin_of_inner h
    refine ⟨m + 1, ?_⟩
    obtain rfl | ⟨_, rfl⟩ := Ty.eq_of_target hname
    · exact Outcome.bind_eq_ok.2 ⟨t, Outcome.liftM_eq_ok.2 ht, hm⟩
    · exact Outcome.bind_eq_ok.2 ⟨t, Outcome.liftM_eq_ok.2 ht, hm⟩
  | _ =>
    rw [Registry.resolve_of_settled rfl] at ht
    cases ht
    exact ⟨n, h⟩

theorem takesVariable_of_firstOrder {x : Ty} (hx : FirstOrder s.types known unions x)
    (hstop : x.stopsWalk = true) (hparam : x.isParameter = false) : x.takesVariable = true := by
  cases hx with
  | parameter => cases hparam
  | name hname => obtain rfl | ⟨_, rfl⟩ := Ty.eq_of_target hname <;> cases hstop
  | labeled => cases hstop
  | _ => rfl

theorem boundTrait_of_shell {a y : Ty} (ha : FirstOrder s.types known unions a)
    (hshell : s.types.SameShell a y) : s.boundTrait a = .ok none := by
  cases hshell with
  | function => rfl
  | tuple => rfl
  | parametric hfamily =>
    obtain ⟨H, hH, -⟩ := Outcome.bind_eq_ok.1 hfamily
    cases ha with
    | parametric hhead =>
      unfold boundTrait
      dsimp only
      rw [hH]
      cases H with
      | trait trait => exact absurd hH (hhead trait)
      | _ => rfl
    | name hname => cases hname

/-- One amount of fuel for all positions of a list. -/
theorem exists_fuel {P : Nat → Nat → Prop} (hmono : ∀ i n m, n ≤ m → P i n → P i m)
    (h : ∀ i, ∃ n, P i n) (k : Nat) : ∃ n, ∀ i < k, P i n := by
  induction k with
  | zero => exact ⟨0, fun i hi => (by omega)⟩
  | succ k ih =>
    obtain ⟨n, hn⟩ := ih
    obtain ⟨m, hm⟩ := h k
    refine ⟨max n m, fun i hi => ?_⟩
    by_cases hik : i = k
    · subst hik
      exact hmono i m _ (Nat.le_max_right n m) hm
    · exact hmono i n _ (Nat.le_max_left n m) (hn i (by omega))

theorem exists_along_unifyWithin {as bs us : List Ty}
    (h : Along (fun a b u => ∃ n, s.unifyWithin n a b = .ok u) as bs us) :
    ∃ n, Along (fun a b u => s.unifyWithin n a b = .ok u) as bs us := by
  obtain ⟨n, hn⟩ := exists_fuel
    (P := fun i n => ∀ a b u, as[i]? = some a → bs[i]? = some b → us[i]? = some u →
      s.unifyWithin n a b = .ok u)
    (fun i n m hnm hP a b u ha hb hu =>
      (s.unifyWithin_le_of_le hnm a b).eq_ok (hP a b u ha hb hu))
    (fun i => by
      by_cases hi : ∃ a b u, as[i]? = some a ∧ bs[i]? = some b ∧ us[i]? = some u
      · obtain ⟨a, b, u, ha, hb, hu⟩ := hi
        obtain ⟨n, hn⟩ := h.pointwise i a b u ha hb hu
        refine ⟨n, fun a' b' u' ha' hb' hu' => ?_⟩
        rw [ha] at ha'
        rw [hb] at hb'
        rw [hu] at hu'
        cases ha'
        cases hb'
        cases hu'
        exact hn
      · exact ⟨0, fun a b u ha hb hu => absurd ⟨a, b, u, ha, hb, hu⟩ hi⟩)
    as.length
  refine ⟨n, h.length_actual, h.length_result, fun i a b u ha hb hu => ?_⟩
  obtain ⟨hi, -⟩ := List.getElem?_eq_some_iff.1 ha
  exact hn i hi a b u ha hb hu

/-- **What the rules give for first-order types, unification gives with enough fuel.** -/
theorem exists_unifyWithin (hF : Fragment s.types known unions) {a b u : Ty}
    (h : Meets s.types a b u) (ha : FirstOrder s.types known unions a)
    (hb : FirstOrder s.types known unions b) : ∃ n, s.unifyWithin n a b = .ok u := by
  induction h with
  | @parameter a b s' t hs ht hx =>
    refine exists_unifyWithin_of_resolve (n := 1) ha hs ?_
    cases hinner : s'.inner with
    | parameter name origin => exact Outcome.liftM_eq_ok.2 ht
    | _ =>
      rw [hinner] at hx
      cases hx
  | absorbed hs ht hx hy =>
    obtain ⟨hfirst, hsettled⟩ := hF.resolved ha hs
    refine exists_unifyWithin_of_resolve (n := 1) ha hs (unifyWithin_succ_eq_ok.2 ?_)
    have hstop := hfirst.stopsWalk_inner hsettled
    exact .absorbed (takesVariable_of_firstOrder hfirst.inner hstop hx) ht hy
  | concrete hs ht hx hsame =>
    refine exists_unifyWithin_of_resolve (n := 1) ha hs (unifyWithin_succ_eq_ok.2 ?_)
    rw [hx] at hsame ⊢
    exact .concrete ht hsame
  | union hs ht hx hsame =>
    refine exists_unifyWithin_of_resolve (n := 1) ha hs (unifyWithin_succ_eq_ok.2 ?_)
    exact .whole (by rw [hx]; rfl) ht hsame
  | numeric hs ht hx hy hwide =>
    refine exists_unifyWithin_of_resolve (n := 1) ha hs (unifyWithin_succ_eq_ok.2 ?_)
    rw [hx]
    exact .numeric ht hy hwide
  | @compound a b s' t us hs ht hshell hlength hresult _ ih =>
    have hfirst := (hF.resolved ha hs).1.inner
    have hactual := (hF.resolved hb ht).1.inner
    obtain ⟨n, hn⟩ := exists_along_unifyWithin (s := s) ⟨hlength, hresult,
      fun i c d u hc hd hu => ih i c d u hc hd hu (hfirst.components (List.mem_of_getElem? hc))
        (hactual.components (List.mem_of_getElem? hd))⟩
    refine exists_unifyWithin_of_resolve (n := n + 1) ha hs (unifyWithin_succ_eq_ok.2 ?_)
    exact .compound (boundTrait_of_shell hfirst hshell) ht hshell hn

/-! ## Unification ends -/

/-- The components of a type are solved at the place of the type. -/
theorem exists_solveWithin_component {n : Nat} {p : Expansion} {a c S : Ty}
    (h : solveWithin (n + 1) p a = .ok S) (hc : c ∈ a.components) :
    ∃ U, solveWithin n p c = .ok U := by
  have hmem {ts us : List Ty} (h : ts.mapM (solveWithin n p) = .ok us) (hc : c ∈ ts) :
      ∃ U, solveWithin n p c = .ok U := by
    obtain ⟨U, -, hU⟩ := exists_of_mem_forall₂ (Outcome.mapM_eq_ok.1 h) hc
    exact ⟨U, hU⟩
  cases a with
  | tuple | function =>
    rw [solveWithin] at h
    obtain ⟨us, hus, -⟩ := Outcome.bind_eq_ok.1 h
    exact hmem hus hc
  | parametric =>
    rw [solveWithin] at h
    obtain ⟨H, -, h⟩ := Outcome.bind_eq_ok.1 h
    obtain ⟨us, hus, -⟩ := Outcome.bind_eq_ok.1 h
    exact hmem hus hc
  | _ => cases hc

/-- **Unification ends where solving does.** The fuel that solves the expected type in some layer is
enough to unify it, whatever the actual type is. -/
theorem unifyWithin_ends (hF : Fragment s.types known unions) {n m : Nat} (hnm : n ≤ m)
    {p : Expansion} (hp : p.catalog.Under s.types.toCatalog) (hin : p.inUnion = false) {a b S : Ty}
    (ha : FirstOrder s.types known unions a) (hb : FirstOrder s.types known unions b)
    (h : solveWithin n p a = .ok S) : s.unifyWithin m a b ≠ .outOfFuel := by
  have hR := hF.layered
  induction n generalizing m p a b S with
  | zero => cases h
  | succ n ih =>
    obtain ⟨m, rfl⟩ : ∃ m', m = m' + 1 := ⟨m - 1, by omega⟩
    have hhead (ty : Ty) : s.HeadEnds ty := fun _ => Registry.solve_ne_outOfFuel hR _
    refine ends_of_calls (hhead a) (fun t _ => hhead t.inner) fun c d hcall => ?_
    cases hcall with
    | name hname ht =>
      -- A name is opened in the layer that declares it, and stands for the same in the registry.
      obtain ⟨name, htarget⟩ := ha.target_of_lookup hname
      rw [solveWithin_target htarget, Expansion.keepsName, hin] at h
      obtain ⟨kept, hkept, h⟩ := Outcome.bind_eq_ok.1 h
      cases hkept
      obtain ⟨⟨q, t⟩, hexpand, h⟩ := Outcome.bind_eq_ok.1 h
      obtain ⟨-, hwalk, hq⟩ := Expansion.expand_eq_ok (Outcome.liftM_eq_ok.1 hexpand)
      have hlift := hwalk.lift htarget hR hp
      have hresolve := Registry.resolve_eq_ok_iff.2 ⟨_, hlift⟩
      rw [ht] at hresolve
      cases hresolve
      exact ih (by omega) (hlift.under hR) (by rw [hq]; exact hin) (hF.resolved ha ht).1 hb h
    | labeled =>
      rw [solveWithin] at h
      obtain ⟨U, hU, -⟩ := Outcome.bind_eq_ok.1 h
      cases ha with
      | labeled ha => exact ih (by omega) hp hin ha hb hU
      | name hname => cases hname
    | component ht hc hd =>
      obtain ⟨U, hU⟩ := exists_solveWithin_component h hc
      exact ih (by omega) hp hin (ha.components hc) ((hF.resolved hb ht).1.inner.components hd) hU
    | represented ht himpl =>
      have hinner := (hF.resolved hb ht).1.inner
      rw [himpl] at hinner
      cases hinner with
      | name hname => cases hname
    | annotated | method | methods | implementation =>
      cases ha with
      | name hname => cases hname

theorem descentFuel_le_pairFuel (R : Registry) (a b : Ty) : R.descentFuel a ≤ R.pairFuel a b := by
  have hreach : R.reach [a] ≤ R.reach [a, b] := by
    simp only [Registry.reach, weightAll]
    omega
  rw [Registry.descentFuel, Registry.walkFuel, Registry.pairFuel]
  refine Nat.mul_le_mul (Nat.mul_le_mul hreach hreach) (Nat.le_trans hreach ?_)
  exact Nat.le_mul_self _

/-- **Unification of first-order types follows the rules,** whatever the checker and the location
are. -/
theorem unify_eq_ok_iff (hF : Fragment s.types known unions) {a b S u : Ty}
    (ha : FirstOrder s.types known unions a) (hb : FirstOrder s.types known unions b)
    (hS : s.types.solve a = .ok S) : s.unify a b = .ok u ↔ Meets s.types a b u := by
  refine ⟨meets_of_unifyWithin hF ha hb, fun h => ?_⟩
  obtain ⟨n, hn⟩ := exists_unifyWithin hF h ha hb
  have hends : s.unify a b ≠ .outOfFuel :=
    unifyWithin_ends hF (descentFuel_le_pairFuel s.types a b) (.refl _) rfl ha hb hS
  have hmore := (s.unifyWithin_le_of_le (Nat.le_max_left n (s.types.pairFuel a b)) a b).eq_ok hn
  exact (s.unifyWithin_le_of_le (Nat.le_max_right n (s.types.pairFuel a b)) a b).eq_ok_of_ne hends
    hmore

end Setting

end TypeEngine

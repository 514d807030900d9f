import TypeEngine.Proofs.Meets
import TypeEngine.Proofs.Trails

/-!
# Unifying types of a module

A registry sees the types of a module under qualified names. Unification opens the two names that it
is given in the module that owns them; the names inside of what it finds there it reads in the
registry at hand. So it does in the registry what it does in the module as far as these names are
shared: they mean the same entries on both sides, and stand for types that read only shared names
(`Shared`). Then the two runs stay in lockstep (`Shared.alike`). A name that only the module sees
makes it fail (`Setting.unifyWithin_ne_ok_of_unseen`).
-/

namespace TypeEngine

/-! ## The names that unification reads -/

namespace Ty

/-- Whether the type is its own solution in every registry. -/
def isFixed : Ty → Bool
  | .parameter .. | .concrete .. | .numeric .. | .intersection .. => true
  | .trait .. | .fixedTrait .. | .method .. | .constructor .. => true
  | _ => false

/-- The parts of a type that unification goes on with. -/
def parts : Ty → List Ty
  | .parametric _ params _ => params
  | .function arguments _ _ => arguments
  | .tuple elements _ => elements
  | .method m => m.arguments
  | .impl _ implementation => [implementation]
  | .labeled _ ty | .annotated _ ty => [ty]
  | _ => []

theorem components_subset_parts (ty : Ty) : ty.components ⊆ ty.parts := by
  cases ty <;> simp [components, parts]

/-- The names that unification reads at the type itself are in `N`. -/
def ReadsAt (N : String → Prop) : Ty → Prop
  | .reference name | .typeAlias name _ | .constructor _ name _ => N name
  | .parametric head _ _ => head.isFixed = true ∨ ∃ name, head.target? = some name ∧ N name
  | .intersection params _ => ∀ name, .reference name ∈ params → N name
  | _ => True

/-- The names that unification reads in the type are in `N`. -/
inductive ReadsOnly (N : String → Prop) : Ty → Prop
  | node {ty : Ty} : ty.ReadsAt N → (∀ t ∈ ty.parts, ReadsOnly N t) → ReadsOnly N ty

namespace ReadsOnly

variable {N : String → Prop} {ty t : Ty}

theorem self (h : ty.ReadsOnly N) : ty.ReadsAt N := by
  obtain ⟨hself, -⟩ := h
  exact hself

theorem part (h : ty.ReadsOnly N) (ht : t ∈ ty.parts) : t.ReadsOnly N := by
  obtain ⟨-, hparts⟩ := h
  exact hparts t ht

theorem leaf (h : ty.ReadsAt N) (hty : ty.parts = []) : ty.ReadsOnly N := by
  refine .node h ?_
  rw [hty]
  intro t ht
  cases ht

theorem labeled_iff {label : String} : (Ty.labeled label ty).ReadsOnly N ↔ ty.ReadsOnly N := by
  refine ⟨fun h => h.part (List.mem_singleton_self ty), fun h => .node trivial fun t ht => ?_⟩
  rw [List.mem_singleton.1 ht]
  exact h

theorem of_lookup? {name : String} (h : ty.ReadsOnly N) (hname : ty.lookup? = some name) :
    N name := by
  have hself := h.self
  cases ty <;> cases hname <;> exact hself

end ReadsOnly

end Ty

/-! ## Shared names -/

/-- The names in `N` mean the same entries in `M` and in `R`, and stand for types in which no other
names are read. -/
structure Shared (M R : Registry) (N : String → Prop) : Prop where
  find? : ∀ name, N name → R.find? name = M.find? name
  closed : ∀ {ty t : Ty} {name : String}, ty.lookup? = some name → N name →
    M.resolve ty = .ok t → t.ReadsOnly N

namespace Catalog

variable {C D O : Catalog} {chain : List String} {ty t : Ty} {name : String}

/-- A name that means the same entry in two catalogs leads to the same end. -/
theorem Walk.of_find? (h : C.Walk chain ty O t) (hname : ty.lookup? = some name)
    (hfind : D.find? name = C.find? name) : D.Walk chain ty O t := by
  have hreference {t : Ty} (h : C.Walk chain (.reference name) O t) :
      D.Walk chain (.reference name) O t := by
    cases h with
    | reference hnew hf hrest => exact .reference hnew (hfind.trans hf) hrest
    | stop hty => cases hty
  cases h with
  | stop hty => cases ty <;> cases hname <;> cases hty
  | reference hnew hf hrest =>
    cases hname
    exact hreference (.reference hnew hf hrest)
  | typeAlias hrest =>
    cases hname
    exact .typeAlias (hreference hrest)
  | constructor hf =>
    cases hname
    exact .constructor (hfind.trans hf)
  | labeled => cases hname

/-- A name of a type that is no name stands for that type. -/
theorem Walk.eq_of_stopsWalk {P : Catalog} {target : Ty} (h : C.Walk chain ty O t)
    (hname : ty.lookup? = some name) (hfind : C.find? name = some (P, target))
    (hstop : target.stopsWalk = true) :
    t = target ∨ ∃ attributes, t = target.addAttributes attributes := by
  have hreference {t : Ty} (h : C.Walk chain (.reference name) O t) : t = target := by
    cases h with
    | stop hty => cases hty
    | reference _ hf hrest =>
      rw [hfind] at hf
      cases hf
      cases hrest <;> first | rfl | cases hstop
  cases h with
  | stop hty => cases ty <;> cases hname <;> cases hty
  | reference hnew hf hrest =>
    cases hname
    exact .inl (hreference (.reference hnew hf hrest))
  | typeAlias hrest =>
    cases hname
    rw [hreference hrest]
    exact .inr ⟨_, rfl⟩
  | constructor hf =>
    cases hname
    rw [hfind] at hf
    cases hf
    exact .inl rfl
  | labeled => cases hname

/-- A walk needs nothing on its chain. -/
theorem Walk.of_chain {chain' : List String} (h : C.Walk chain ty O t) (hchain : chain' ⊆ chain) :
    C.Walk chain' ty O t := by
  induction h generalizing chain' with
  | stop hty => exact .stop hty
  | reference hnew hf _ ih =>
    refine .reference (fun hmem => hnew (hchain hmem)) hf (ih ?_)
    exact List.append_subset.2 ⟨List.subset_append_of_subset_left _ hchain,
      List.subset_append_right _ _⟩
  | typeAlias _ ih => exact .typeAlias (ih hchain)
  | labeled _ ih => exact .labeled (ih hchain)
  | constructor hf => exact .constructor hf

theorem Walk.stored_subset (h : C.Walk chain ty O t) : O.stored ⊆ C.stored := by
  induction h with
  | stop => exact List.Subset.refl _
  | reference _ hf _ ih =>
    obtain ⟨own, hsees⟩ := exists_sees hf
    exact List.Subset.trans ih hsees.stored_subset
  | typeAlias _ ih => exact ih
  | labeled _ ih => exact ih
  | constructor hf =>
    obtain ⟨own, hsees⟩ := exists_sees hf
    exact hsees.stored_subset

end Catalog

/-! ## Solving with other fuel -/

namespace Registry

variable {M R : Registry}

theorem reach_le (h : M.weight ≤ R.weight) {types types' : List Ty}
    (hw : weightAll types = weightAll types') : M.reach types ≤ R.reach types' := by
  rw [reach, reach, hw]
  omega

theorem walkFuel_le (h : M.weight ≤ R.weight) {ty ty' : Ty} (hw : ty.weight = ty'.weight) :
    M.walkFuel ty ≤ R.walkFuel ty' := by
  have hreach : M.reach [ty] ≤ R.reach [ty'] := reach_le h (by simp only [weightAll, hw])
  exact Nat.mul_le_mul hreach hreach

theorem pairFuel_le (h : M.weight ≤ R.weight) {a a' b b' : Ty} (ha : a.weight = a'.weight)
    (hb : b.weight = b'.weight) : M.pairFuel a b ≤ R.pairFuel a' b' := by
  have hreach : M.reach [a, b] ≤ R.reach [a', b'] := reach_le h (by simp only [weightAll, ha, hb])
  exact Nat.mul_le_mul (Nat.mul_le_mul hreach hreach) (Nat.mul_le_mul hreach hreach)

theorem descentFuel_le (h : M.weight ≤ R.weight) (ty : Ty) : M.descentFuel ty ≤ R.descentFuel ty :=
  Nat.mul_le_mul (walkFuel_le h rfl) (reach_le h rfl)

theorem solve_of_isFixed (R : Registry) {ty : Ty} (h : ty.isFixed = true) :
    R.solve ty = .ok ty := by
  obtain ⟨n, hn⟩ := R.solve_eq ty
  rw [hn]
  cases ty <;> first | rfl | cases h

end Registry

theorem Expansion.expand_eq (s : Expansion) (name : String) (ty : Ty) :
    s.expand name ty = if name ∈ s.expanding then .error (.cyclicAlias s.expanding name)
      else (s.catalog.resolveWithin s.walk [] ty).map
        fun r => (⟨r.1, s.walk, s.expanding ++ [name], s.inUnion⟩, r.2) := by
  rw [expand, enterAlias]
  split_ifs
  · rfl
  · show (s.catalog.resolveWithin s.walk [] ty >>= fun r => _) = _
    cases s.catalog.resolveWithin s.walk [] ty <;> rfl

/-- Two places that differ in the fuel for walks only, and both have enough of it among these
types. -/
structure Expansion.Beside (types : List Ty) (s s' : Expansion) : Prop where
  catalog : s'.catalog = s.catalog
  expanding : s'.expanding = s.expanding
  inUnion : s'.inUnion = s.inUnion
  stored : s.catalog.stored ⊆ types
  fuel : ∀ {ty : Ty} {name : String}, ty.target? = some name →
    walkNeed (ty :: types) [] ty ≤ s.walk ∧ walkNeed (ty :: types) [] ty ≤ s'.walk

namespace Expansion.Beside

variable {types : List Ty} {s s' : Expansion} {ty : Ty} {name : String}

theorem resolveWithin (h : s.Beside types s') (hname : ty.target? = some name) :
    s'.catalog.resolveWithin s'.walk [] ty = s.catalog.resolveWithin s.walk [] ty := by
  obtain ⟨hfuel, hfuel'⟩ := h.fuel hname
  rw [h.catalog]
  refine Catalog.resolveWithin_eq_of_need ⟨?_, fun _ href => ?_⟩ hfuel' hfuel
  · exact List.subset_cons_of_subset _ h.stored
  · exact List.mem_filterMap.2 ⟨ty, List.mem_cons_self, href⟩

theorem expand (h : s.Beside types s') (hname : ty.target? = some name) :
    s'.expand name ty = if name ∈ s.expanding then .error (.cyclicAlias s.expanding name)
      else (s.catalog.resolveWithin s.walk [] ty).map
        fun r => (⟨r.1, s'.walk, s.expanding ++ [name], s.inUnion⟩, r.2) := by
  rw [expand_eq, h.expanding, h.resolveWithin hname, h.inUnion]

theorem simulation : Simulation true fun s s' _ => s.Beside types s' where
  part h _ := h
  case h _ _ := ⟨h.catalog, h.expanding, rfl, h.stored, h.fuel⟩
  head h _ := h
  keepsName {s s' ty name} h hname := by
    have hkeeps : s'.keepsName ty = s.keepsName ty := by
      rw [Expansion.keepsName, Expansion.keepsName, h.inUnion, h.resolveWithin hname]
    rw [hkeeps]
    exact .refl _
  expand {s s' t ty u name} h hname hexpand := by
    rw [expand_eq] at hexpand
    rw [h.expand hname]
    split_ifs at hexpand with hmem
    cases hr : s.catalog.resolveWithin s.walk [] ty with
    | error e =>
      rw [hr] at hexpand
      cases hexpand
    | ok r =>
      rw [hr] at hexpand
      cases hexpand
      rw [if_neg hmem]
      have hstored := (Catalog.walk_of_resolveWithin hr).stored_subset
      exact ⟨_, rfl, rfl, rfl, rfl, List.Subset.trans hstored h.stored, h.fuel⟩
  expand_error {s s' ty name e} h hname hexpand _ := by
    rw [expand_eq] at hexpand
    rw [h.expand hname]
    split_ifs at hexpand with hmem
    · exact ⟨_, if_pos hmem⟩
    · rw [if_neg hmem]
      cases hr : s.catalog.resolveWithin s.walk [] ty with
      | error e => exact ⟨e, rfl⟩
      | ok r =>
        rw [hr] at hexpand
        cases hexpand

end Expansion.Beside

/-! ## Shared names are read alike -/

namespace Shared

variable {M R : Registry} {N : String → Prop} (h : Shared M R N)
include h

theorem walk_iff {ty t : Ty} {name : String} {O : Catalog} (hname : ty.lookup? = some name)
    (hN : N name) : R.toCatalog.Walk [] ty O t ↔ M.toCatalog.Walk [] ty O t := by
  have hfind := h.find? name hN
  exact ⟨fun hwalk => hwalk.of_find? hname hfind.symm, fun hwalk => hwalk.of_find? hname hfind⟩

theorem resolve_iff {ty t : Ty} (hty : ty.ReadsOnly N) :
    R.resolve ty = .ok t ↔ M.resolve ty = .ok t := by
  have hlookup {ty t : Ty} {name : String} (hty : ty.ReadsOnly N)
      (hname : ty.lookup? = some name) :
      R.resolve ty = .ok t ↔ M.resolve ty = .ok t := by
    rw [Registry.resolve_eq_ok_iff, Registry.resolve_eq_ok_iff]
    exact exists_congr fun O => h.walk_iff hname (hty.of_lookup? hname)
  induction ty generalizing t with
  | labeled label ty ih =>
    rw [Registry.resolve_labeled, Registry.resolve_labeled]
    exact exists_congr fun u => and_congr_left' (ih (Ty.ReadsOnly.labeled_iff.1 hty))
  | reference | typeAlias | constructor => exact hlookup hty rfl
  | _ => rw [Registry.resolve_of_settled rfl, Registry.resolve_of_settled rfl]

theorem resolve_le {ty : Ty} (hty : ty.ReadsOnly N) :
    (liftM (M.resolve ty) : Outcome Ty).Le true (liftM (R.resolve ty)) :=
  Outcome.le_liftM fun _ => h.resolve_iff hty

/-- What a type stands for reads only shared names if the type does. -/
theorem resolved {ty t : Ty} (hty : ty.ReadsOnly N) (ht : M.resolve ty = .ok t) :
    t.ReadsOnly N := by
  induction ty generalizing t with
  | labeled label ty ih =>
    obtain ⟨u, hu, rfl⟩ := Registry.resolve_labeled.1 ht
    exact Ty.ReadsOnly.labeled_iff.2 (ih (Ty.ReadsOnly.labeled_iff.1 hty) hu)
  | reference | typeAlias | constructor => exact h.closed rfl (hty.of_lookup? rfl) ht
  | _ =>
    rw [Registry.resolve_of_settled rfl] at ht
    cases ht
    exact hty

/-- A shared name has the same solution on both sides: it is opened to one type in one catalog. -/
theorem solve_le (hweight : M.weight ≤ R.weight) {ty : Ty} {name : String}
    (hname : ty.target? = some name) (hN : N name) : (M.solve ty).Le true (R.solve ty) := by
  have hlookup := Ty.lookup?_of_target hname
  have hopen (C : Catalog) (w : Nat) (k : Expansion × Ty → Outcome Ty) :
      (liftM (Expansion.expand ⟨C, w, [], false⟩ name ty) >>= k)
        = liftM (C.resolveWithin w [] ty) >>= fun r => k (⟨r.1, w, [name], false⟩, r.2) := by
    rw [Expansion.expand_eq, if_neg (List.not_mem_nil)]
    cases C.resolveWithin w [] ty <;> rfl
  have hiff (r : Catalog × Ty) : R.resolveOwned ty = .ok r ↔ M.resolveOwned ty = .ok r := by
    rw [Registry.resolveOwned_eq_ok_iff, Registry.resolveOwned_eq_ok_iff, h.walk_iff hlookup hN]
  have hfuel := Registry.descentFuel_le hweight ty
  rw [Registry.solve, Registry.solve]
  generalize M.descentFuel ty = n at hfuel
  generalize R.descentFuel ty = m at hfuel
  cases n with
  | zero => trivial
  | succ n =>
    obtain ⟨m, rfl⟩ : ∃ m', m = m' + 1 := ⟨m - 1, by omega⟩
    rw [solveWithin_target hname, solveWithin_target hname]
    refine Outcome.Le.bind (.refl (.ok false)) fun kept hkept => ?_
    cases hkept
    rw [if_neg (by simp), if_neg (by simp), hopen, hopen]
    refine (Outcome.le_liftM hiff).bind fun r hr => ?_
    -- From here on both sides are in the catalog that owns the type.
    have hwalk := Registry.resolveOwned_eq_ok_iff.1 (Outcome.liftM_eq_ok.1 hr)
    refine ((@Expansion.Beside.simulation M.stored).le n).1 (by omega)
      ⟨rfl, rfl, rfl, hwalk.stored_subset, ?_⟩
    intro t other ht
    have hsame : t.weight = ty.weight := by
      rw [Ty.weight_of_target ht, Ty.weight_of_target hname]
    have hneed := M.walkNeed_le_walkFuel t
    exact ⟨hneed.trans (Registry.walkFuel_le (Nat.le_refl _) hsame),
      hneed.trans (Registry.walkFuel_le hweight hsame)⟩

theorem solvedHead_le (hweight : M.weight ≤ R.weight) {head : Ty} {params : List Ty}
    {attributes : Attributes} (hty : (Ty.parametric head params attributes).ReadsOnly N) :
    (M.solvedHead head).Le true (R.solvedHead head) := by
  refine Outcome.Le.bind ?_ fun _ _ => .refl _
  rcases hty.self with hfixed | ⟨name, hname, hN⟩
  · rw [M.solve_of_isFixed hfixed, R.solve_of_isFixed hfixed]
    exact .refl _
  · exact h.solve_le hweight hname hN

/-- **Unification does the same on both sides** with types that read only shared names. -/
theorem alike (hweight : M.weight ≤ R.weight) (implements : Checker) (location : Location) :
    Setting.Alike ⟨M, implements, location⟩ ⟨R, implements, location⟩ (Ty.ReadsOnly N) where
  implements := rfl
  resolve := h.resolve_le
  resolved := h.resolved
  solvedHead := h.solvedHead_le hweight
  get? ha hmem := by
    rw [Catalog.get?, Catalog.get?, h.find? _ (ha.self _ hmem)]
  component ha ht := ha.part (Ty.components_subset_parts _ ht)
  method ha := .node trivial fun t ht => ha.part ht
  implementation ha := ha.part (List.mem_singleton_self _)
  labeled ha := ha.part (List.mem_singleton_self _)
  annotated ha := ha.part (List.mem_singleton_self _)

end Shared

/-! ## Qualified names -/

/-- The name that a registry has for a name of a module. -/
def qualify (key name : String) : String :=
  key ++ "." ++ name

theorem splitQualified_qualify {key : String} (hkey : '.' ∉ key.toList) (name : String) :
    splitQualified (qualify key name) = some (key, name) := by
  have hall : ∀ c ∈ key.toList, (c != '.') = true := by
    intro c hc
    rw [bne_iff_ne]
    rintro rfl
    exact hkey hc
  have hlist : (qualify key name).toList = key.toList ++ '.' :: name.toList := by
    simp [qualify]
  rw [splitQualified, hlist, List.dropWhile_append_of_pos hall, List.takeWhile_append_of_pos hall]
  simp

namespace Catalog

theorem weight_le_weightImports {M : Catalog} {key : String} {imports : List (String × Catalog)}
    (h : imports.lookup key = some M) : M.weight ≤ weightImports imports := by
  induction imports with
  | nil => cases h
  | cons p imports ih =>
    obtain ⟨key', N⟩ := p
    rw [lookup_cons] at h
    rw [weightImports]
    split_ifs at h with hkey
    · cases h
      omega
    · have := ih h
      omega

end Catalog

namespace Registry

variable {M R : Registry} {key name : String}

theorem find?_qualify (hR : R.entries = []) (hM : R.imports.lookup key = some M.toCatalog)
    (hkey : '.' ∉ key.toList) (name : String) : R.find? (qualify key name) = M.find? name := by
  have hmodule : R.moduleOf? (qualify key name) = some (M.toCatalog, name) := by
    rw [Catalog.moduleOf?, splitQualified_qualify hkey]
    simp [hM]
  rw [Catalog.find?_eq, hR, hmodule]
  rfl

theorem weight_le_of_import (hM : R.imports.lookup key = some M.toCatalog) :
    M.weight ≤ R.weight := by
  rw [M.weight_eq, R.weight_eq]
  obtain ⟨⟨parent, entries, imports⟩, weight, hweight⟩ := R
  have hle : M.toCatalog.weight ≤ Catalog.weightImports imports :=
    Catalog.weight_le_weightImports hM
  rw [Catalog.weight]
  omega

/-- Unification opens an expected name first. -/
theorem unify_reference (R : Registry) (location : Location) (implements : Checker) {x : String}
    (y : String) {u : Ty} (hx : R.resolve (.reference x) = .ok u) :
    ∃ n, R.pairFuel (.reference x) (.reference y) = n + 1 ∧
      R.unify location (.reference x) (.reference y) implements
        = Setting.unifyWithin ⟨R, implements, location⟩ n u (.reference y) := by
  have hpos : 0 < R.reach [.reference x, .reference y] := by
    rw [reach]
    omega
  have hpair : 0 < R.pairFuel (.reference x) (.reference y) :=
    Nat.mul_pos (Nat.mul_pos hpos hpos) (Nat.mul_pos hpos hpos)
  obtain ⟨n, hn⟩ : ∃ n, R.pairFuel (.reference x) (.reference y) = n + 1 :=
    ⟨R.pairFuel (.reference x) (.reference y) - 1, by omega⟩
  refine ⟨n, hn, ?_⟩
  rw [unify, Setting.unify, hn, Setting.unifyWithin, hx]
  rfl

/-- Where both sides resolve a name of a module, they resolve it to the same type. -/
theorem resolve_qualify (hR : R.entries = []) (hM : R.imports.lookup key = some M.toCatalog)
    (hkey : '.' ∉ key.toList) {s A : Ty} (hA : M.solve (.reference name) = .ok A)
    (hs : R.resolve (.reference (qualify key name)) = .ok s) :
    M.resolve (.reference name) = .ok s := by
  obtain ⟨n, p, t, hwalk, -⟩ := exists_walk_of_solve rfl hA
  generalize p.catalog = P at hwalk
  obtain ⟨O, hwalk'⟩ := resolve_eq_ok_iff.1 hs
  cases hwalk' with
  | stop hty => cases hty
  | reference _ hf' hrest' =>
    rw [find?_qualify hR hM hkey] at hf'
    cases hwalk with
    | stop hty => cases hty
    | reference hnew hf hrest =>
      rw [hf] at hf'
      cases hf'
      -- The two walks differ in the name that they started from.
      obtain ⟨rfl, rfl⟩ := (hrest.of_chain (List.nil_subset _)).unique
        (hrest'.of_chain (List.nil_subset _))
      exact resolve_eq_ok_iff.2 ⟨_, .reference hnew hf hrest⟩

end Registry

/-! ## Names that only the module sees -/

namespace Setting

variable {s : Setting} {a b c t : Ty} {name : String}

theorem unifyWithin_ne_ok_of_find? (hname : a.target? = some name)
    (hfind : s.types.find? name = none) (n : Nat) (u : Ty) : s.unifyWithin n a b ≠ .ok u := by
  intro h
  cases n with
  | zero => cases h
  | succ n =>
    rw [unifyWithin_name (Ty.lookup?_of_target hname)] at h
    obtain ⟨t, ht, -⟩ := Outcome.bind_eq_ok.1 h
    obtain ⟨O, hwalk⟩ := Registry.resolve_eq_ok_iff.1 (Outcome.liftM_eq_ok.1 ht)
    obtain ⟨P, target, hfound⟩ := hwalk.find?_of_target hname
    rw [hfind] at hfound
    cases hfound

/-- **A tuple or a function with a name that is not visible unifies with variables only.** -/
theorem unifyWithin_ne_ok_of_unseen (hb : s.types.resolve b = .ok t)
    (ht : t.inner.isParameter = false) (ha : a.inner.isParametric = false)
    (hc : c ∈ a.inner.components) (hname : c.target? = some name)
    (hfind : s.types.find? name = none) (n : Nat) (u : Ty) : s.unifyWithin n a b ≠ .ok u := by
  have hcompound (n : Nat) {x : Ty} (hx : x.isStructure = true)
      (hbound : s.boundTrait x = .ok none) (hc : c ∈ x.components) :
      s.unifyWithin (n + 1) x b ≠ .ok u := by
    intro h
    obtain ⟨t', ht', h⟩ := (unifyWithin_structure_eq_ok hx hbound).1 h
    rw [hb] at ht'
    cases ht'
    rcases h with ⟨hparam, -⟩ | ⟨-, us, hus, -⟩
    · rw [ht] at hparam
      cases hparam
    · obtain ⟨i, hi⟩ := List.mem_iff_getElem?.1 hc
      obtain ⟨d, hd⟩ := exists_getElem? hus.length_actual hi
      obtain ⟨v, hv⟩ := exists_getElem? hus.length_result hi
      exact unifyWithin_ne_ok_of_find? hname hfind n v (hus.pointwise i c d v hi hd hv)
  induction a generalizing n with
  | labeled label a ih =>
    cases n with
    | zero => intro h; cases h
    | succ n => exact ih ha hc n
  | annotated directives a ih =>
    cases n with
    | zero => intro h; cases h
    | succ n => exact ih ha hc n
  | tuple | function =>
    cases n with
    | zero => intro h; cases h
    | succ n => exact hcompound n rfl rfl hc
  | parametric => cases ha
  | _ => cases hc

end Setting

/-- **Types of a module unify beside the module as they do inside of it, as far as their names are
shared.** Let `R` have no types of its own and import `M`. Where `M` solves two names and `R`
resolves them under their qualified names, to `s` and `t`, unification of the qualified names in `R`
has the outcome of unification in `M`, if `s` and `t` read only shared names. But if `s` is a tuple
or a function with a name that `R` does not see, and `t` is no variable, then it does not succeed in
`R`, whatever it does in `M`. -/
theorem unify_imported {M R : Registry} {key : String} (hR : R.entries = [])
    (hM : R.imports.lookup key = some M.toCatalog) (hkey : '.' ∉ key.toList)
    (location : Location) (implements : Checker) {a b : String} {A B s t : Ty}
    (hA : M.solve (.reference a) = .ok A) (hB : M.solve (.reference b) = .ok B)
    (hs : R.resolve (.reference (qualify key a)) = .ok s)
    (ht : R.resolve (.reference (qualify key b)) = .ok t) :
    (∀ N, Shared M R N → s.ReadsOnly N → t.ReadsOnly N →
      (∀ U, M.unify location (.reference a) (.reference b) implements = .ok U →
        R.unify location (.reference (qualify key a)) (.reference (qualify key b)) implements
          = .ok U) ∧
      ∀ e, M.unify location (.reference a) (.reference b) implements = .error e →
        ∃ e', R.unify location (.reference (qualify key a)) (.reference (qualify key b)) implements
          = .error e') ∧
    ∀ c name, s.inner.isParametric = false → c ∈ s.inner.components → c.target? = some name →
      R.find? name = none → t.inner.isParameter = false →
      ∀ U, R.unify location (.reference (qualify key a)) (.reference (qualify key b)) implements
        ≠ .ok U := by
  have hs' := Registry.resolve_qualify hR hM hkey hA hs
  have ht' := Registry.resolve_qualify hR hM hkey hB ht
  have hweight := Registry.weight_le_of_import hM
  -- Both runs start by opening the expected name.
  obtain ⟨n, hn, hunify⟩ := M.unify_reference location implements b hs'
  obtain ⟨m, hm, hunify'⟩ := R.unify_reference location implements (qualify key b) hs
  rw [hunify, hunify']
  refine ⟨fun N hN hsN htN => ?_, fun c name hshell hc hname hfind hparam U => ?_⟩
  · have hfuel : M.pairFuel (.reference a) (.reference b)
        ≤ R.pairFuel (.reference (qualify key a)) (.reference (qualify key b)) :=
      Registry.pairFuel_le hweight rfl rfl
    have hle := (hN.alike hweight implements location).le (n := n) (m := m) (by omega) hsN
      (.names ht' ht htN)
    refine ⟨fun U hU => hle.eq_ok hU, fun e he => ?_⟩
    rw [he] at hle
    exact hle rfl
  · exact Setting.unifyWithin_ne_ok_of_unseen (s := ⟨R, implements, location⟩) ht hparam hshell hc
      hname hfind m U

/-- One type that others are made of. -/
def basics : Built :=
  (Builder.new.declareAll [.concrete "Int"]).2.build

/-- Pairs, above the basics. -/
def plane : Built :=
  ((Builder.withParent basics).declareAll
    [.type "Pair" ∅ [] (.tuple [.reference "Int", .reference "Int"])]).2.build

/-- The plane as a module, above the basics. -/
def atlas : Built :=
  Registry.ofModules (some basics) [("Geo", plane)]

/-- The plane as a module, above nothing. -/
def outline : Built :=
  Registry.ofModules none [("Geo", plane)]

def intPair : Ty :=
  .tuple [.reference "Int", .reference "Int"] ∅

theorem plane_facts :
    plane.value.entries.lookup "Int" = none ∧
      plane.value.get? "Int" = some (.concrete "Int" ∅) ∧
      plane.value.solve (.reference "Pair")
        = .ok (.tuple [.concrete "Int" ∅, .concrete "Int" ∅] ∅) ∧
      plane.value.unify default (.reference "Pair") (.reference "Pair") (fun _ _ => false)
        = .ok (.tuple [.concrete "Int" ∅, .concrete "Int" ∅] ∅) ∧
      atlas.value.resolve (.reference (qualify "Geo" "Pair")) = .ok intPair ∧
      outline.value.resolve (.reference (qualify "Geo" "Pair")) = .ok intPair := by
  decide +kernel

theorem moduleOf?_int (C : Catalog) : C.moduleOf? "Int" = none := by
  have hsplit : splitQualified "Int" = none := by decide
  rw [Catalog.moduleOf?, hsplit]
  rfl

/-- The plane and the atlas share the basics. -/
theorem atlas_shared : Shared plane.value atlas.value (· = "Int") where
  find? := by
    have hparent : plane.value.parent = some basics.value.toCatalog := by
      rw [plane, Builder.build_catalog, Builder.declareAll, Builder.registerAll_parent]
      rfl
    rintro _ rfl
    rw [Catalog.find?_eq, Catalog.find?_eq, moduleOf?_int, moduleOf?_int, plane_facts.1, hparent]
    rfl
  closed := by
    rintro ty t _ hname rfl ht
    obtain ⟨⟨P, target⟩, hfind, htarget⟩ := Option.map_eq_some_iff.1 plane_facts.2.1
    dsimp only at htarget
    subst htarget
    obtain ⟨O, hwalk⟩ := Registry.resolve_eq_ok_iff.1 ht
    obtain rfl | ⟨attributes, rfl⟩ := hwalk.eq_of_stopsWalk hname hfind rfl
    · exact .leaf trivial rfl
    · exact .leaf trivial rfl

/-- Pairs of the plane unify in the plane and in the atlas; above nothing they do not. -/
theorem unify_imported_atlas :
    plane.value.unify default (.reference "Pair") (.reference "Pair") (fun _ _ => false)
        = .ok (.tuple [.concrete "Int" ∅, .concrete "Int" ∅] ∅) ∧
      atlas.value.unify default (.reference (qualify "Geo" "Pair"))
        (.reference (qualify "Geo" "Pair")) (fun _ _ => false)
        = .ok (.tuple [.concrete "Int" ∅, .concrete "Int" ∅] ∅) ∧
      ∀ U, outline.value.unify default (.reference (qualify "Geo" "Pair"))
        (.reference (qualify "Geo" "Pair")) (fun _ _ => false) ≠ .ok U := by
  obtain ⟨-, -, hsolve, hplane, hatlas, houtline⟩ := plane_facts
  have hreads : intPair.ReadsOnly (· = "Int") := by
    refine .node trivial fun t ht => .leaf ?_ ?_
    all_goals
      simp only [intPair, Ty.parts, List.mem_cons, List.not_mem_nil, or_false, or_self] at ht
      subst ht
      rfl
  have hunseen : outline.value.find? "Int" = none := by
    rw [Catalog.find?_eq, moduleOf?_int]
    rfl
  obtain ⟨hshared, -⟩ := unify_imported (M := plane.value) (R := atlas.value) rfl rfl
    (by decide) default (fun _ _ => false) hsolve hsolve hatlas hatlas
  obtain ⟨-, halone⟩ := unify_imported (M := plane.value) (R := outline.value) rfl rfl
    (by decide) default (fun _ _ => false) hsolve hsolve houtline houtline
  obtain ⟨hok, -⟩ := hshared _ atlas_shared hreads hreads
  exact ⟨hplane, hok _ hplane,
    halone (.reference "Int") "Int" rfl List.mem_cons_self rfl hunseen rfl⟩

end TypeEngine

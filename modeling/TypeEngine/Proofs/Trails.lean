import TypeEngine.Proofs.Canonical

/-!
# Trails along references

A reference means an entry of some catalog: one of the catalog in which it is met, of its parent, or
of a module (`Sees`). A `Trail` goes from a type inside labels and from reference to entry, each
name read in the catalog that owns the type it stands in, and records the entries it visits. It
knows no fuel and no chain of names, so it may come to the same entry again and then goes on
forever.

`resolve_follows` compares resolving with this walk, in registries with any parents and modules.
Resolving remembers the bare names that it has looked up. As long as no name is looked up twice for
two different entries, it succeeds, misses a name or reports a cyclic alias exactly when the walk
stops, meets a name that is not visible, or comes to the same entry twice. As soon as one name does
mean two entries on the way, resolving reports a cyclic alias, whatever the walk does.

Two facts carry the proof. Trails from one start are prefixes of one another (`Trail.compare`), so
an end that the walk reaches is the only one, and a walk that comes back to an entry has none
(`Returns.not_stuck`). And resolving always has fuel to find the end or a name that comes again
(`finds_resolveWithin`), because every name it looks up stands in one of the types in reach.
-/

namespace TypeEngine

namespace Catalog

/-- Induction over catalogs: from the parent and the modules to the catalog. -/
theorem induct {motive : Catalog → Prop}
    (step : ∀ C : Catalog, (∀ P, C.parent = some P → motive P) →
      (∀ p ∈ C.imports, motive p.2) → motive C) (C : Catalog) : motive C := by
  refine @Catalog.rec motive (fun parent => ∀ P, parent = some P → motive P)
    (fun imports => ∀ p ∈ imports, motive p.2) (fun p => motive p.2)
    (fun parent entries imports hparent himports => step _ hparent himports) ?_ ?_ ?_ ?_ ?_ C
  all_goals grind

/-! ## Where a name is declared -/

/-- The module that a qualified name belongs to, and the name it has there. -/
def moduleOf? (C : Catalog) (name : String) : Option (Catalog × String) :=
  (splitQualified name).bind fun (key, rest) => (C.imports.lookup key).map (·, rest)

theorem mem_imports_of_moduleOf? {C M : Catalog} {name rest : String}
    (h : C.moduleOf? name = some (M, rest)) : ∃ key, (key, M) ∈ C.imports := by
  obtain ⟨⟨key, rest'⟩, -, h⟩ := Option.bind_eq_some_iff.1 h
  obtain ⟨N, hN, h⟩ := Option.map_eq_some_iff.1 h
  cases h
  exact ⟨key, mem_of_lookup hN⟩

theorem findImport?_eq (imports : List (String × Catalog)) (key rest : String) :
    findImport? imports key rest = (imports.lookup key).map (·.find? rest) := by
  induction imports with
  | nil => rfl
  | cons m imports ih =>
    obtain ⟨key', M⟩ := m
    rw [findImport?, lookup_cons, ih]
    by_cases h : key = key'
    · rw [if_pos h.symm, if_pos h]
      rfl
    · rw [if_neg (Ne.symm h), if_neg h]

theorem findParent?_eq (parent : Option Catalog) (name : String) :
    findParent? parent name = parent.bind (·.find? name) := by
  cases parent <;> rfl

/-- A look-up tries the catalog's own types, then the module of a qualified name, then the
parent. -/
theorem find?_eq (C : Catalog) (name : String) :
    C.find? name = match C.entries.lookup name, C.moduleOf? name with
      | some ty, _ => some (C, ty)
      | none, some (M, rest) => M.find? rest
      | none, none => C.parent.bind (·.find? name) := by
  obtain ⟨parent, entries, imports⟩ := C
  rw [find?, moduleOf?]
  cases entries.lookup name with
  | some ty => rfl
  | none =>
    cases splitQualified name with
    | none => exact findParent?_eq parent name
    | some parts =>
      obtain ⟨key, rest⟩ := parts
      simp only [findImport?_eq, findParent?_eq, Option.bind_some]
      cases imports.lookup key <;> rfl

/-- `Sees C name O own ty`: from `C`, the name means the entry `own` of `O`, whose type is `ty`. -/
inductive Sees : Catalog → String → Catalog → String → Ty → Prop
  | own {C : Catalog} {name : String} {ty : Ty} :
      C.entries.lookup name = some ty → Sees C name C name ty
  | imported {C M O : Catalog} {name rest own : String} {ty : Ty} :
      C.entries.lookup name = none → C.moduleOf? name = some (M, rest) → Sees M rest O own ty →
      Sees C name O own ty
  | inherited {C P O : Catalog} {name own : String} {ty : Ty} :
      C.entries.lookup name = none → C.moduleOf? name = none → C.parent = some P →
      Sees P name O own ty → Sees C name O own ty

namespace Sees

variable {C O P : Catalog} {name own own' : String} {ty u : Ty}

theorem find? (h : C.Sees name O own ty) : C.find? name = some (O, ty) := by
  induction h with
  | own hl => rw [find?_eq, hl]
  | imported hl hm _ ih => rw [find?_eq, hl, hm, ← ih]
  | inherited hl hm hp _ ih => rw [find?_eq, hl, hm, hp, ← ih]; rfl

/-- An entry is an entry of the catalog that owns it. -/
theorem lookup (h : C.Sees name O own ty) : O.entries.lookup own = some ty := by
  induction h with
  | own hl => exact hl
  | imported _ _ _ ih => exact ih
  | inherited _ _ _ _ ih => exact ih

theorem unique (h : C.Sees name O own ty) (h' : C.Sees name P own' u) :
    O = P ∧ own = own' ∧ ty = u := by
  induction h with
  | own hl => cases h' <;> simp_all
  | imported hl hm _ ih =>
    cases h' with
    | own hl' => simp [hl] at hl'
    | imported _ hm' hrest =>
      rw [hm] at hm'
      cases hm'
      exact ih hrest
    | inherited _ hm' _ _ => simp [hm] at hm'
  | inherited hl hm hp _ ih =>
    cases h' with
    | own hl' => simp [hl] at hl'
    | imported _ hm' _ => simp [hm] at hm'
    | inherited _ _ hp' hrest =>
      rw [hp] at hp'
      cases hp'
      exact ih hrest

end Sees

/-- **What is found is an entry.** -/
theorem exists_sees {C O : Catalog} {name : String} {ty : Ty} (h : C.find? name = some (O, ty)) :
    ∃ own, C.Sees name O own ty := by
  induction C using induct generalizing name with
  | step C hparent himports =>
    rw [find?_eq] at h
    cases hl : C.entries.lookup name with
    | some t =>
      rw [hl] at h
      cases h
      exact ⟨name, .own hl⟩
    | none =>
      rw [hl] at h
      cases hm : C.moduleOf? name with
      | some found =>
        obtain ⟨M, rest⟩ := found
        rw [hm] at h
        obtain ⟨key, hmem⟩ := mem_imports_of_moduleOf? hm
        obtain ⟨own, hown⟩ := himports _ hmem h
        exact ⟨own, .imported hl hm hown⟩
      | none =>
        rw [hm] at h
        obtain ⟨P, hP, h⟩ := Option.bind_eq_some_iff.1 h
        obtain ⟨own, hown⟩ := hparent P hP h
        exact ⟨own, .inherited hl hm hP hown⟩

/-! ## The types in reach -/

mutual

/-- All types in reach: own types, those of the parent and those of the modules. -/
def stored : Catalog → List Ty
  | ⟨parent, entries, imports⟩ => entries.map (·.2) ++ (storedBelow parent ++ storedBeside imports)

def storedBelow : Option Catalog → List Ty
  | none => []
  | some C => C.stored

def storedBeside : List (String × Catalog) → List Ty
  | [] => []
  | (_, C) :: imports => C.stored ++ storedBeside imports

end

theorem stored_eq (C : Catalog) :
    C.stored = C.entries.map (·.2) ++ (storedBelow C.parent ++ storedBeside C.imports) := by
  obtain ⟨parent, entries, imports⟩ := C
  rw [stored]

theorem stored_subset_storedBeside {M : Catalog} {key : String} {imports : List (String × Catalog)}
    (h : (key, M) ∈ imports) : M.stored ⊆ storedBeside imports := by
  induction imports with
  | nil => cases h
  | cons m imports ih =>
    obtain ⟨key', N⟩ := m
    rw [storedBeside]
    rcases List.mem_cons.1 h with h | h
    · cases h
      exact List.subset_append_left _ _
    · exact List.subset_append_of_subset_right _ (ih h)

theorem weightAll_stored (C : Catalog) : weightAll C.stored = C.weight := by
  refine @Catalog.rec (fun C => weightAll C.stored = C.weight)
    (fun parent => weightAll (storedBelow parent) = weightParent parent)
    (fun imports => weightAll (storedBeside imports) = weightImports imports)
    (fun p => weightAll p.2.stored = p.2.weight) ?_ rfl ?_ rfl ?_ ?_ C
  · intro parent entries imports hparent himports
    rw [stored, weight, weightAll_append, weightAll_append, hparent, himports, Nat.add_assoc]
  · intro C hC
    exact hC
  · intro p imports hp himports
    obtain ⟨key, C⟩ := p
    rw [storedBeside, weightImports, weightAll_append, himports, hp]
  · intro key C hC
    exact hC

namespace Sees

variable {C O : Catalog} {name own : String} {ty : Ty}

theorem stored_subset (h : C.Sees name O own ty) : O.stored ⊆ C.stored := by
  induction h with
  | own => exact List.Subset.refl _
  | @imported C M O name rest own ty _ hm _ ih =>
    obtain ⟨key, hmem⟩ := mem_imports_of_moduleOf? hm
    rw [C.stored_eq]
    exact List.Subset.trans ih (List.subset_append_of_subset_right _
      (List.subset_append_of_subset_right _ (stored_subset_storedBeside hmem)))
  | @inherited C P O name own ty _ _ hp _ ih =>
    rw [C.stored_eq, hp]
    exact List.Subset.trans ih
      (List.subset_append_of_subset_right _ (List.subset_append_left _ _))

theorem mem_stored (h : C.Sees name O own ty) : ty ∈ O.stored := by
  rw [O.stored_eq]
  exact List.mem_append_left _ (List.mem_map.2 ⟨_, mem_of_lookup h.lookup, rfl⟩)

end Sees

end Catalog

/-! ## Trails -/

/-- A look-up that succeeded: the name, and the entry it means. -/
structure Visit where
  name : String
  owner : Catalog
  own : String

/-- The entry that was visited: its catalog, and its name there. -/
def Visit.entry (v : Visit) : Catalog × String :=
  (v.owner, v.own)

/-- `Trail C ty visits O t`: the walk from `ty` in `C` comes to `t` in `O`, and visits these entries
on the way. -/
inductive Trail : Catalog → Ty → List Visit → Catalog → Ty → Prop
  | here (C : Catalog) (ty : Ty) : Trail C ty [] C ty
  | labeled {C O : Catalog} {label : String} {ty t : Ty} {visits : List Visit} :
      Trail C ty visits O t → Trail C (.labeled label ty) visits O t
  | visit {C P O : Catalog} {name own : String} {ty target t : Ty} {visits : List Visit} :
      ty.target? = some name → C.Sees name P own target → Trail P target visits O t →
      Trail C ty (⟨name, P, own⟩ :: visits) O t

/-- The walk cannot go on: the type is no label, and no reference that is visible. -/
structure Stuck (C : Catalog) (ty : Ty) : Prop where
  unlabeled : ∀ label inner, ty ≠ .labeled label inner
  unseen : ∀ name, ty.target? = some name → C.find? name = none

namespace Trail

variable {C O P : Catalog} {ty t u : Ty} {vs ws : List Visit} {v : Visit}

theorem trans (h : Trail C ty vs O t) (h' : Trail O t ws P u) : Trail C ty (vs ++ ws) P u := by
  induction h with
  | here => exact h'
  | labeled _ ih => exact .labeled (ih h')
  | visit hname hsees _ ih => exact .visit hname hsees (ih h')

/-- **Trails from one start are prefixes of one another.** -/
theorem compare (h : Trail C ty vs O t) (h' : Trail C ty ws P u) :
    (∃ rest, ws = vs ++ rest ∧ Trail O t rest P u) ∨
      ∃ rest, vs = ws ++ rest ∧ Trail P u rest O t := by
  induction h generalizing ws with
  | here C ty => exact .inl ⟨ws, rfl, h'⟩
  | @labeled C O label ty t vs h ih =>
    cases h' with
    | here => exact .inr ⟨vs, rfl, .labeled h⟩
    | labeled h' => exact ih h'
    | visit hname => cases hname
  | @visit C Q O name own ty target t vs hname hsees h ih =>
    cases h' with
    | here => exact .inr ⟨_, rfl, .visit hname hsees h⟩
    | labeled => cases hname
    | visit hname' hsees' h' =>
      rw [hname] at hname'
      cases hname'
      obtain ⟨rfl, rfl, rfl⟩ := hsees.unique hsees'
      rcases ih h' with ⟨rest, rfl, hrest⟩ | ⟨rest, rfl, hrest⟩
      · exact .inl ⟨rest, rfl, hrest⟩
      · exact .inr ⟨rest, rfl, hrest⟩

theorem of_stuck (h : Trail C ty vs O t) (hstuck : Stuck C ty) : vs = [] ∧ O = C ∧ t = ty := by
  cases h with
  | here => exact ⟨rfl, rfl, rfl⟩
  | labeled => exact absurd rfl (hstuck.unlabeled _ _)
  | visit hname hsees =>
    have hfind := hsees.find?
    rw [hstuck.unseen _ hname] at hfind
    cases hfind

/-- Where the walk gets stuck is the end of every trail. -/
theorem prefix_of_stuck (h : Trail C ty vs O t) (hstuck : Stuck O t) (h' : Trail C ty ws P u) :
    ∃ rest, vs = ws ++ rest ∧ Trail P u rest O t := by
  rcases h.compare h' with ⟨rest, rfl, hrest⟩ | hprefix
  · obtain ⟨rfl, rfl, rfl⟩ := hrest.of_stuck hstuck
    exact ⟨[], by simp, .here _ _⟩
  · exact hprefix

theorem stuck_unique (h : Trail C ty vs O t) (hstuck : Stuck O t) (h' : Trail C ty ws P u)
    (hstuck' : Stuck P u) : P = O ∧ u = t := by
  obtain ⟨rest, -, hrest⟩ := h.prefix_of_stuck hstuck h'
  obtain ⟨-, rfl, rfl⟩ := hrest.of_stuck hstuck'
  exact ⟨rfl, rfl⟩

/-- A trail can be cut after any visit. -/
theorem split (h : Trail C ty (vs ++ v :: ws) O t) :
    ∃ target, v.owner.entries.lookup v.own = some target ∧
      Trail C ty (vs ++ [v]) v.owner target ∧ Trail v.owner target ws O t := by
  generalize hall : vs ++ v :: ws = all at h
  induction h generalizing vs with
  | here => simp at hall
  | labeled _ ih =>
    obtain ⟨target, hlookup, hleft, hright⟩ := ih hall
    exact ⟨target, hlookup, .labeled hleft, hright⟩
  | @visit C P O name own ty target t rest hname hsees h ih =>
    cases vs with
    | nil =>
      cases hall
      exact ⟨target, hsees.lookup, .visit hname hsees (.here _ _), h⟩
    | cons w vs =>
      cases hall
      obtain ⟨target', hlookup, hleft, hright⟩ := ih rfl
      exact ⟨target', hlookup, .visit hname hsees hleft, hright⟩

/-- **A walk that comes back to where it is never gets stuck.** -/
theorem not_stuck_of_loop (hloop : Trail C ty (v :: vs) C ty) (h : Trail C ty ws O t)
    (hstuck : Stuck O t) : False := by
  -- A trail to the end starts with the loop, and what follows the loop is a shorter one.
  induction hn : ws.length using Nat.strongRecOn generalizing ws with
  | ind n ih =>
    obtain ⟨rest, rfl, hrest⟩ := h.prefix_of_stuck hstuck hloop
    refine ih rest.length ?_ hrest rfl
    rw [← hn, List.length_append, List.length_cons]
    omega

end Trail

/-! ## How the walk from a type ends -/

/-- The name that is looked up at a type: that of a reference, or the union of a case label. -/
def Ty.lookup? : Ty → Option String
  | .reference name | .typeAlias name _ | .constructor _ name _ => some name
  | _ => none

namespace Catalog

/-- The type is where a walk stops: it is no reference, or a case label whose union is visible. -/
def Halts (C : Catalog) (ty : Ty) : Prop :=
  ty.stopsWalk = true ∨
    ∃ label union attributes found, ty = .constructor label union attributes ∧
      C.find? union = some found

/-- The walk reaches a stop. -/
def Stops (R : Catalog) (T : Ty) : Prop :=
  ∃ visits O t, Trail R T visits O t ∧ O.Halts t

/-- The walk meets a name that is not visible where it is looked up. -/
def Misses (R : Catalog) (T : Ty) : Prop :=
  ∃ visits O t name, Trail R T visits O t ∧ t.lookup? = some name ∧ O.find? name = none

/-- The walk visits an entry of a catalog that it has visited before. -/
def Returns (R : Catalog) (T : Ty) : Prop :=
  ∃ visits v O t, Trail R T (visits ++ [v]) O t ∧ v.entry ∈ visits.map Visit.entry

/-- The walk comes to a name that it has looked up before, and that does not mean there what it
meant before. -/
def Confuses (R : Catalog) (T : Ty) : Prop :=
  ∃ visits O t name, Trail R T visits O t ∧ t.target? = some name ∧
    ∃ v ∈ visits, v.name = name ∧ ¬ ∃ ty, O.Sees name v.owner v.own ty

theorem Halts.stuck {C : Catalog} {ty : Ty} (h : C.Halts ty) : Stuck C ty := by
  rcases h with h | ⟨label, union, attributes, found, rfl, -⟩
  · refine ⟨fun label inner heq => ?_, fun name hname => ?_⟩
    · rw [heq] at h
      cases h
    · cases ty <;> cases hname <;> cases h
  · exact ⟨fun _ _ heq => (by cases heq), fun _ hname => (by cases hname)⟩

theorem stuck_of_lookup? {C : Catalog} {ty : Ty} {name : String} (hname : ty.lookup? = some name)
    (hfind : C.find? name = none) : Stuck C ty := by
  refine ⟨fun label inner heq => ?_, fun other hother => ?_⟩
  · rw [heq] at hname
    cases hname
  · cases ty <;> cases hother <;> cases hname <;> exact hfind

theorem Halts.find?_lookup {C : Catalog} {ty : Ty} {name : String} (h : C.Halts ty)
    (hname : ty.lookup? = some name) : C.find? name ≠ none := by
  rcases h with h | ⟨label, union, attributes, found, rfl, hfind⟩
  · cases ty <;> cases hname <;> cases h
  · cases hname
    simp [hfind]

/-- **A walk that visits an entry twice never gets stuck.** -/
theorem Returns.not_stuck {R O : Catalog} {T t : Ty} {vs : List Visit} (hret : R.Returns T)
    (h : Trail R T vs O t) (hstuck : Stuck O t) : False := by
  obtain ⟨ws, v, P, u, hws, hmem⟩ := hret
  obtain ⟨w, hw, hentry⟩ := List.mem_map.1 hmem
  obtain ⟨as, bs, rfl⟩ := List.append_of_mem hw
  -- From the entry of `w` the walk comes to the entry of `v`, which is the same.
  rw [List.append_assoc, List.cons_append] at hws
  obtain ⟨target, hlookup, hfirst, hsecond⟩ := hws.split
  obtain ⟨target', hlookup', hloop, -⟩ := hsecond.split
  have howner : w.owner = v.owner := congrArg Prod.fst hentry
  have hown : w.own = v.own := congrArg Prod.snd hentry
  rw [← howner, ← hown, hlookup] at hlookup'
  cases hlookup'
  rw [← howner] at hloop
  obtain ⟨rest, -, hrest⟩ := h.prefix_of_stuck hstuck hfirst
  obtain ⟨x, xs, hxs⟩ : ∃ x xs, bs ++ [v] = x :: xs := List.exists_cons_of_ne_nil (by simp)
  rw [hxs] at hloop
  exact hloop.not_stuck_of_loop hrest hstuck

/-! ## What resolving finds out -/

/-- The names that were looked up. -/
abbrev namesOf (visits : List Visit) : List String :=
  visits.map Visit.name

/-- `Finds C chain ty result`: with the names on `chain` looked up before, the result tells how the
walk goes on. It stops or misses a name before any name comes again, or it comes to a name that was
looked up already. -/
inductive Finds (C : Catalog) (chain : List String) (ty : Ty) :
    Except TypeError (Catalog × Ty) → Prop
  | stop {visits : List Visit} {O : Catalog} {t : Ty} (r : Catalog × Ty) :
      Trail C ty visits O t → O.Halts t → (chain ++ namesOf visits).Nodup →
      Finds C chain ty (.ok r)
  | miss {visits : List Visit} {O : Catalog} {t : Ty} {name : String} {e : TypeError} :
      Trail C ty visits O t → t.lookup? = some name → O.find? name = none →
      (chain ++ namesOf visits).Nodup → (t.target? = some name → name ∉ chain ++ namesOf visits) →
      e.code = .typeNotFound → Finds C chain ty (.error e)
  | again {visits : List Visit} {O : Catalog} {t : Ty} {name : String} {e : TypeError} :
      Trail C ty visits O t → t.target? = some name → name ∈ chain ++ namesOf visits →
      e.code = .cyclicAlias → Finds C chain ty (.error e)

namespace Finds

variable {C P : Catalog} {chain : List String} {ty target : Ty} {name own : String}
  {result : Except TypeError (Catalog × Ty)}

/-- What is done with the value afterwards does not matter. -/
theorem map (h : Finds C chain ty result) (f : Catalog × Ty → Catalog × Ty) :
    Finds C chain ty (result.map f) := by
  cases h with
  | stop r htrail hhalts hnodup => exact .stop (f r) htrail hhalts hnodup
  | miss htrail hname hfind hnodup hnew hcode => exact .miss htrail hname hfind hnodup hnew hcode
  | again htrail hname hmem hcode => exact .again htrail hname hmem hcode

theorem labeled (h : Finds C chain ty result) (label : String) :
    Finds C chain (.labeled label ty) result := by
  cases h with
  | stop r htrail hhalts hnodup => exact .stop r (.labeled htrail) hhalts hnodup
  | miss htrail hname hfind hnodup hnew hcode =>
    exact .miss (.labeled htrail) hname hfind hnodup hnew hcode
  | again htrail hname hmem hcode => exact .again (.labeled htrail) hname hmem hcode

/-- One more visit at the start is one name less on the chain. -/
theorem visit (hname : ty.target? = some name) (hsees : C.Sees name P own target)
    (h : Finds P (chain ++ [name]) target result) : Finds C chain ty result := by
  have hnames (visits : List Visit) :
      chain ++ [name] ++ namesOf visits = chain ++ namesOf (⟨name, P, own⟩ :: visits) := by
    simp
  cases h with
  | stop r htrail hhalts hnodup =>
    rw [hnames] at hnodup
    exact .stop r (.visit hname hsees htrail) hhalts hnodup
  | miss htrail hmiss hfind hnodup hnew hcode =>
    rw [hnames] at hnodup hnew
    exact .miss (.visit hname hsees htrail) hmiss hfind hnodup hnew hcode
  | again htrail hagain hmem hcode =>
    rw [hnames] at hmem
    exact .again (.visit hname hsees htrail) hagain hmem hcode

end Finds

end Catalog

/-! ## Fuel -/

/-- The reference that a walk comes to inside the labels of a type. -/
def Ty.reference? : Ty → Option String
  | .labeled _ ty => ty.reference?
  | ty => ty.target?

/-- The references of types that are not on the chain. -/
def unfollowed (types : List Ty) (chain : List String) : List String :=
  (types.filterMap Ty.reference?).filter fun name => decide (name ∉ chain)

theorem length_filter_notMem_lt {names chain : List String} {name : String} (hmem : name ∈ names)
    (hnew : name ∉ chain) :
    (names.filter fun other => decide (other ∉ chain ++ [name])).length
      < (names.filter fun other => decide (other ∉ chain)).length := by
  have hsplit : (names.filter fun other => decide (other ∉ chain ++ [name]))
      = (names.filter fun other => decide (other ∉ chain)).filter
          fun other => decide (other ≠ name) := by
    rw [List.filter_filter]
    refine List.filter_congr fun other _ => ?_
    simp [and_comm]
  rw [hsplit, List.length_filter_lt_length_iff_exists]
  exact ⟨name, List.mem_filter.2 ⟨hmem, by simpa using hnew⟩, by simp⟩

theorem length_unfollowed_lt {types : List Ty} {chain : List String} {name : String}
    (hmem : name ∈ types.filterMap Ty.reference?) (hnew : name ∉ chain) :
    (unfollowed types (chain ++ [name])).length < (unfollowed types chain).length :=
  length_filter_notMem_lt hmem hnew

theorem length_le_weightAll (types : List Ty) : types.length ≤ weightAll types := by
  induction types with
  | nil => exact Nat.le_refl _
  | cons t types ih =>
    have := t.weight_pos
    rw [List.length_cons, weightAll]
    omega

/-- Fuel that is enough for a walk among types: the labels of the type at hand, and for each
reference that was not followed yet the labels behind it. -/
def walkNeed (types : List Ty) (chain : List String) (ty : Ty) : Nat :=
  ty.weight + (unfollowed types chain).length * (weightAll types + 1)

theorem walkNeed_le (types : List Ty) (chain : List String) (ty : Ty) :
    walkNeed types chain ty ≤ ty.weight + weightAll types * (weightAll types + 1) := by
  have hlength : (unfollowed types chain).length ≤ weightAll types :=
    calc (unfollowed types chain).length ≤ (types.filterMap Ty.reference?).length :=
          List.length_filter_le _ _
      _ ≤ types.length := List.length_filterMap_le _ _
      _ ≤ weightAll types := length_le_weightAll types
  exact Nat.add_le_add_left (Nat.mul_le_mul_right _ hlength) _

namespace Catalog

/-- The types among which a walk moves from `ty` in `C`. -/
structure Among (types : List Ty) (C : Catalog) (ty : Ty) : Prop where
  stored : C.stored ⊆ types
  reference : ∀ name, ty.reference? = some name → name ∈ types.filterMap Ty.reference?

theorem among_self (C : Catalog) (ty : Ty) : Among (ty :: C.stored) C ty :=
  ⟨List.subset_cons_self _ _, fun _ h => List.mem_filterMap.2 ⟨ty, List.mem_cons_self, h⟩⟩

theorem Among.sees {types : List Ty} {C O : Catalog} {ty t : Ty} {name own : String}
    (h : Among types C ty) (hsees : C.Sees name O own t) : Among types O t ∧ t ∈ types := by
  have hstored := List.Subset.trans hsees.stored_subset h.stored
  have hmem := hstored hsees.mem_stored
  exact ⟨⟨hstored, fun _ href => List.mem_filterMap.2 ⟨t, hmem, href⟩⟩, hmem⟩

/-- A visit lowers the need. -/
theorem Among.need_lt {types : List Ty} {C O : Catalog} {ty t : Ty} {chain : List String}
    {name own : String} (h : Among types C ty) (hname : ty.reference? = some name)
    (hnew : name ∉ chain) (hsees : C.Sees name O own t) :
    walkNeed types (chain ++ [name]) t < walkNeed types chain ty := by
  have hlt := length_unfollowed_lt (h.reference name hname) hnew
  have hweight := weight_le_weightAll (h.sees hsees).2
  have hpos := ty.weight_pos
  have hmul : ((unfollowed types (chain ++ [name])).length + 1) * (weightAll types + 1)
      ≤ (unfollowed types chain).length * (weightAll types + 1) := Nat.mul_le_mul_right _ hlt
  rw [Nat.succ_mul] at hmul
  unfold walkNeed
  omega

theorem walkNeed_labeled (types : List Ty) (chain : List String) (label : String) (ty : Ty) :
    walkNeed types chain (.labeled label ty) = walkNeed types chain ty + 1 := by
  rw [walkNeed, walkNeed, Ty.weight]
  omega

theorem walkNeed_pos (types : List Ty) (chain : List String) (ty : Ty) :
    0 < walkNeed types chain ty :=
  Nat.lt_of_lt_of_le ty.weight_pos (Nat.le_add_right _ _)

/-- **Beyond the need, the amount of fuel does not matter.** -/
theorem resolveWithin_eq_of_need {types : List Ty} {j k : Nat} {C : Catalog} {chain : List String}
    {ty : Ty} (h : Among types C ty) (hj : walkNeed types chain ty ≤ j)
    (hk : walkNeed types chain ty ≤ k) :
    resolveWithin j C chain ty = resolveWithin k C chain ty := by
  have hpos := walkNeed_pos types chain ty
  induction j generalizing k C chain ty with
  | zero => omega
  | succ j ih =>
    obtain ⟨k, rfl⟩ : ∃ k', k = k' + 1 := ⟨k - 1, by omega⟩
    have hreference {name : String} (hname : ty.reference? = some name) :
        resolveWithin (j + 1) C chain (.reference name)
          = resolveWithin (k + 1) C chain (.reference name) := by
      rw [resolveWithin_reference, resolveWithin_reference]
      split_ifs with hnew
      · rfl
      · cases hf : C.find? name with
        | none => rfl
        | some found =>
          obtain ⟨O, t⟩ := found
          obtain ⟨own, hsees⟩ := exists_sees hf
          have hlt := h.need_lt hname hnew hsees
          exact ih (h.sees hsees).1 (by omega) (by omega) (walkNeed_pos _ _ _)
    cases ty with
    | reference name => exact hreference rfl
    | typeAlias name attributes =>
      rw [resolveWithin_typeAlias, resolveWithin_typeAlias, hreference rfl]
    | labeled label ty =>
      rw [walkNeed_labeled] at hj hk
      have hinner := @ih k C chain ty ⟨h.stored, h.reference⟩ (by omega) (by omega)
        (walkNeed_pos _ _ _)
      rw [resolveWithin_labeled, resolveWithin_labeled, hinner]
    | _ => rfl

/-- **Resolving finds out how the walk ends,** or that a name comes again. -/
theorem finds_resolveWithin {types : List Ty} {k : Nat} {C : Catalog} {chain : List String}
    {ty : Ty} (h : Among types C ty) (hchain : chain.Nodup) (hk : walkNeed types chain ty ≤ k) :
    Finds C chain ty (resolveWithin k C chain ty) := by
  have hpos := walkNeed_pos types chain ty
  have hnil : (chain ++ namesOf []).Nodup := by simpa using hchain
  induction k generalizing C chain ty with
  | zero => omega
  | succ k ih =>
    have hname {name : String} (hname : ty.target? = some name) (href : ty.reference? = some name) :
        Finds C chain ty (resolveWithin (k + 1) C chain (.reference name)) := by
      rw [resolveWithin_reference]
      split_ifs with hmem
      · exact .again (.here C ty) hname (by simpa using hmem) rfl
      · cases hf : C.find? name with
        | none =>
          have hlook : ty.lookup? = some name := by cases ty <;> cases hname <;> rfl
          exact .miss (.here C ty) hlook hf hnil (fun _ => by simpa using hmem) rfl
        | some found =>
          obtain ⟨O, t⟩ := found
          obtain ⟨own, hsees⟩ := exists_sees hf
          have hlt := h.need_lt href hmem hsees
          have hchain' : (chain ++ [name]).Nodup := by simpa using hchain.concat hmem
          exact .visit hname hsees (ih (h.sees hsees).1 hchain' (by omega) (walkNeed_pos _ _ _)
            (by simpa using hchain'))
    cases ty with
    | reference name => exact hname rfl rfl
    | typeAlias name attributes =>
      rw [resolveWithin_typeAlias]
      exact (hname rfl rfl).map _
    | labeled label ty =>
      rw [walkNeed_labeled] at hk
      have hinner : Finds C chain ty (resolveWithin k C chain ty) :=
        ih ⟨h.stored, h.reference⟩ hchain (by omega) (walkNeed_pos _ _ _) hnil
      rw [resolveWithin_labeled]
      exact (hinner.labeled label).map _
    | constructor label union attributes =>
      rw [resolveWithin, getOwned]
      cases hf : C.find? union with
      | none => exact .miss (.here _ _) rfl hf hnil (fun hname => (by cases hname)) rfl
      | some found => exact .stop _ (.here _ _) (.inr ⟨_, _, _, found, rfl, hf⟩) hnil
    | _ => exact .stop _ (.here _ _) (.inl rfl) hnil

/-! ## One end -/

theorem Halts.target?_ne {C : Catalog} {ty : Ty} {name : String} (h : C.Halts ty) :
    ty.target? ≠ some name := by
  intro hname
  rcases h with h | ⟨label, union, attributes, found, rfl, -⟩
  · cases ty <;> cases hname <;> cases h
  · cases hname

/-- On a trail to the end on which no name comes again, no name comes again anywhere. -/
theorem not_mem_of_stuck {R O P : Catalog} {T t u : Ty} {vs ws : List Visit} {name : String}
    (h : Trail R T vs O t) (hstuck : Stuck O t) (hnodup : (namesOf vs).Nodup)
    (hend : t.target? = some name → name ∉ namesOf vs) (h' : Trail R T ws P u)
    (hname : u.target? = some name) : name ∉ namesOf ws := by
  intro hmem
  obtain ⟨rest, rfl, hrest⟩ := h.prefix_of_stuck hstuck h'
  cases hrest with
  | here => exact hend hname (by simpa using hmem)
  | labeled => cases hname
  | @visit _ Q _ other own _ target _ rest hother hsees hrest =>
    rw [hname] at hother
    cases hother
    -- The name is looked up once before this place and once here.
    rw [namesOf, List.map_append, List.nodup_append] at hnodup
    exact hnodup.2.2 name hmem name (by simp) rfl

end Catalog

namespace Registry

theorem exists_walkFuel (R : Registry) (T : Ty) : ∃ n, R.walkFuel T = n + 1 :=
  Nat.exists_eq_succ_of_ne_zero (by simp [walkFuel, reach])

theorem walkNeed_le_walkFuel (R : Registry) (T : Ty) :
    walkNeed (T :: R.stored) [] T ≤ R.walkFuel T := by
  have hweight : weightAll (T :: R.stored) = T.weight + R.toCatalog.weight := by
    rw [weightAll, R.toCatalog.weightAll_stored]
  have hreach : R.reach [T] = T.weight + R.toCatalog.weight + 4 := by
    rw [reach, R.weight_eq, weightAll, weightAll]
    omega
  refine Nat.le_trans (walkNeed_le _ _ _) ?_
  rw [walkFuel, hreach, hweight]
  generalize hX : T.weight + R.toCatalog.weight = X
  calc T.weight + X * (X + 1) ≤ (X + 1) + X * (X + 1) := by omega
    _ = (X + 1) * (X + 1) := by rw [Nat.add_mul X 1, Nat.one_mul, Nat.add_comm]
    _ ≤ (X + 4) * (X + 4) := Nat.mul_le_mul (by omega) (by omega)

/-- More fuel than a registry has for a walk does not change what resolving gives. -/
theorem resolveWithin_eq_resolveOwned (R : Registry) {T : Ty} {k : Nat} (hk : R.walkFuel T ≤ k) :
    R.resolveWithin k [] T = R.resolveOwned T :=
  Catalog.resolveWithin_eq_of_need (R.toCatalog.among_self T)
    (Nat.le_trans (R.walkNeed_le_walkFuel T) hk) (R.walkNeed_le_walkFuel T)

/-- **Resolving gives the end of the walk.** -/
theorem resolveOwned_eq_ok_iff {R : Registry} {T t : Ty} {O : Catalog} :
    R.resolveOwned T = .ok (O, t) ↔ R.toCatalog.Walk [] T O t := by
  refine ⟨Catalog.walk_of_resolveWithin, fun hwalk => ?_⟩
  obtain ⟨k, hk⟩ := hwalk.exists_fuel
  rw [← R.resolveWithin_eq_resolveOwned (Nat.le_max_right (k + 1) (R.walkFuel T))]
  exact Catalog.resolveWithin_mono (Nat.le_max_left (k + 1) (R.walkFuel T)) hk

theorem resolve_eq_ok_iff {R : Registry} {T t : Ty} :
    R.resolve T = .ok t ↔ ∃ O, R.toCatalog.Walk [] T O t := by
  simp only [← resolveOwned_eq_ok_iff, resolve]
  constructor
  · intro h
    cases hr : R.resolveOwned T with
    | error e =>
      rw [hr] at h
      cases h
    | ok r =>
      rw [hr] at h
      cases h
      exact ⟨r.1, rfl⟩
  · rintro ⟨O, hr⟩
    rw [hr]
    rfl

theorem resolve_labeled {R : Registry} {label : String} {T s : Ty} :
    R.resolve (.labeled label T) = .ok s ↔ ∃ t, R.resolve T = .ok t ∧ s = .labeled label t := by
  simp only [resolve_eq_ok_iff]
  constructor
  · rintro ⟨O, hwalk⟩
    cases hwalk with
    | stop hty => cases hty
    | labeled hwalk => exact ⟨_, ⟨O, hwalk⟩, rfl⟩
  · rintro ⟨t, ⟨O, hwalk⟩, rfl⟩
    exact ⟨O, .labeled hwalk⟩

/-- Resolving in a registry finds out how the walk ends. -/
theorem finds_resolveOwned (R : Registry) (T : Ty) :
    Catalog.Finds R.toCatalog [] T (R.resolveOwned T) :=
  Catalog.finds_resolveWithin (R.toCatalog.among_self T) List.nodup_nil (R.walkNeed_le_walkFuel T)

end Registry

/-! ## Resolving follows references -/

namespace Catalog

variable {R : Catalog} {T : Ty}

theorem Stops.not_misses (h : R.Stops T) : ¬ R.Misses T := by
  rintro ⟨ws, P, u, name, hws, hname, hfind⟩
  obtain ⟨vs, O, t, hvs, hhalts⟩ := h
  obtain ⟨rfl, rfl⟩ := hvs.stuck_unique hhalts.stuck hws (stuck_of_lookup? hname hfind)
  exact hhalts.find?_lookup hname hfind

theorem Returns.not_stops (h : R.Returns T) : ¬ R.Stops T := by
  rintro ⟨vs, O, t, hvs, hhalts⟩
  exact h.not_stuck hvs hhalts.stuck

theorem Returns.not_misses (h : R.Returns T) : ¬ R.Misses T := by
  rintro ⟨vs, O, t, name, hvs, hname, hfind⟩
  exact h.not_stuck hvs (stuck_of_lookup? hname hfind)

/-- A name that comes again and means what it meant before is a return to its entry. -/
theorem returns_of_not_confuses {visits : List Visit} {O : Catalog} {t : Ty} {name : String}
    (h : Trail R T visits O t) (hname : t.target? = some name) (hmem : name ∈ namesOf visits)
    (hclear : ¬ R.Confuses T) : R.Returns T := by
  obtain ⟨v, hv, hvname⟩ := List.mem_map.1 hmem
  have hsees : ∃ ty, O.Sees name v.owner v.own ty := by
    by_contra hnot
    exact hclear ⟨visits, O, t, name, h, hname, v, hv, hvname, hnot⟩
  obtain ⟨ty, hsees⟩ := hsees
  exact ⟨visits, ⟨name, v.owner, v.own⟩, v.owner, ty, h.trans (.visit hname hsees (.here _ _)),
    List.mem_map.2 ⟨v, hv, rfl⟩⟩

end Catalog

/-- **Resolving follows references, unless one name means two entries on the way.** As long as every
name that comes again means what it meant before, resolving succeeds exactly if the walk reaches a
stop, does not find a type exactly if the walk meets a name that is not visible, and reports a
cyclic alias exactly if the walk visits an entry twice. Otherwise it reports a cyclic alias. -/
theorem resolve_follows (R : Registry) (T : Ty) :
    (¬ R.Confuses T →
      ((∃ t, R.resolve T = .ok t) ↔ R.Stops T) ∧
      ((∃ e, R.resolve T = .error e ∧ e.code = .typeNotFound) ↔ R.Misses T) ∧
      ((∃ e, R.resolve T = .error e ∧ e.code = .cyclicAlias) ↔ R.Returns T)) ∧
    (R.Confuses T → ∃ e, R.resolve T = .error e ∧ e.code = .cyclicAlias) := by
  have hfinds := R.finds_resolveOwned T
  rw [Registry.resolve]
  generalize R.resolveOwned T = result at hfinds
  cases hfinds with
  | stop r htrail hhalts hnodup =>
    have hstops : R.Stops T := ⟨_, _, _, htrail, hhalts⟩
    refine ⟨fun _ => ⟨⟨fun _ => hstops, fun _ => ⟨r.2, rfl⟩⟩, ?_, ?_⟩, ?_⟩
    · refine ⟨?_, fun h => absurd h hstops.not_misses⟩
      rintro ⟨_, h, -⟩
      cases h
    · refine ⟨?_, fun h => absurd hstops h.not_stops⟩
      rintro ⟨_, h, -⟩
      cases h
    · rintro ⟨ws, P, u, name, hws, hname, v, hv, hvname, -⟩
      refine absurd (List.mem_map.2 ⟨v, hv, hvname⟩) (Catalog.not_mem_of_stuck htrail hhalts.stuck
        hnodup (fun h => absurd h hhalts.target?_ne) hws hname)
  | @miss visits O t missing e htrail hmissing hfind hnodup hnew hcode =>
    have hmisses : R.Misses T := ⟨_, _, _, _, htrail, hmissing, hfind⟩
    have hstuck := Catalog.stuck_of_lookup? hmissing hfind
    refine ⟨fun _ => ⟨?_, ⟨fun _ => hmisses, fun _ => ⟨e, rfl, hcode⟩⟩, ?_⟩, ?_⟩
    · refine ⟨?_, fun h => absurd hmisses h.not_misses⟩
      rintro ⟨_, h⟩
      cases h
    · refine ⟨?_, fun h => absurd hmisses h.not_misses⟩
      rintro ⟨_, h, hcyclic⟩
      cases h
      rw [hcode] at hcyclic
      cases hcyclic
    · rintro ⟨ws, P, u, name, hws, hname, v, hv, hvname, -⟩
      refine absurd (List.mem_map.2 ⟨v, hv, hvname⟩) (Catalog.not_mem_of_stuck htrail hstuck hnodup
        (fun h => ?_) hws hname)
      -- At the end of the trail, the name that is missing is the name of the reference.
      obtain rfl : name = missing := by cases t <;> cases h <;> cases hmissing <;> rfl
      exact hnew h
  | @again visits O t name e htrail hname hmem hcode =>
    refine ⟨fun hclear => ?_, fun _ => ⟨e, rfl, hcode⟩⟩
    have hreturns := Catalog.returns_of_not_confuses htrail hname hmem hclear
    refine ⟨⟨?_, fun h => absurd h hreturns.not_stops⟩, ⟨?_, fun h => absurd h hreturns.not_misses⟩,
      ⟨fun _ => hreturns, fun _ => ⟨e, rfl, hcode⟩⟩⟩
    · rintro ⟨_, h⟩
      cases h
    · rintro ⟨_, h, hmiss⟩
      cases h
      rw [hcode] at hmiss
      cases hmiss

/-- Points and a second name for them. -/
def geometry : Built :=
  (Builder.new.declareAll
    [.concrete "Point", .type "Corner" ∅ [] (.reference "Point")]).2.build

/-- A registry beside the geometry. -/
def mapLibrary : Built :=
  Registry.ofModules none [("Geo", geometry)]

/-- A registry with points of its own, which are the corners of the geometry. -/
def survey : Built :=
  ((Builder.withParent mapLibrary).declareAll
    [.type "Point" ∅ [] (.reference "Geo.Corner")]).2.build

theorem survey_parent : survey.value.parent = some mapLibrary.value.toCatalog := by
  rw [survey, Builder.build_catalog, Builder.declareAll, Builder.registerAll_parent]
  rfl

theorem survey_entries :
    survey.value.entries.lookup "Point" = some (.typeAlias "Geo.Corner" ∅) ∧
      survey.value.entries.lookup "Geo.Corner" = none ∧
      geometry.value.entries.lookup "Corner" = some (.typeAlias "Point" ∅) ∧
      geometry.value.entries.lookup "Point" = some (.concrete "Point" ∅) := by
  decide +kernel

/-- From a point of the survey, the walk comes to the point of the geometry. -/
theorem survey_trail :
    Trail survey.value.toCatalog (.reference "Point")
      [⟨"Point", survey.value.toCatalog, "Point"⟩,
        ⟨"Geo.Corner", geometry.value.toCatalog, "Corner"⟩]
      geometry.value.toCatalog (.typeAlias "Point" ∅) := by
  obtain ⟨hpoint, hnone, hcorner, -⟩ := survey_entries
  have himports : survey.value.moduleOf? "Geo.Corner" = none := by
    rw [survey, Builder.build_catalog]
    cases hsplit : splitQualified "Geo.Corner" <;> simp [Catalog.moduleOf?, hsplit]
  have hmodule : mapLibrary.value.moduleOf? "Geo.Corner"
      = some (geometry.value.toCatalog, "Corner") := by
    have hsplit : splitQualified "Geo.Corner" = some ("Geo", "Corner") := by decide
    rw [Catalog.moduleOf?, hsplit]
    rfl
  have hsees : survey.value.Sees "Geo.Corner" geometry.value.toCatalog "Corner"
      (.typeAlias "Point" ∅) :=
    .inherited hnone himports survey_parent (.imported rfl hmodule (.own hcorner))
  exact .visit rfl (.own hpoint) (.visit rfl hsees (.here _ _))

/-- The walk from a point of the survey stops at a concrete type. Resolving reports a cyclic alias,
because the last name on the way is also the first one. -/
theorem resolve_follows_survey :
    survey.value.Stops (.reference "Point") ∧ survey.value.Confuses (.reference "Point") ∧
      ∃ e, survey.value.resolve (.reference "Point") = .error e ∧ e.code = .cyclicAlias := by
  obtain ⟨-, -, -, hpoint⟩ := survey_entries
  have hsees : geometry.value.Sees "Point" geometry.value.toCatalog "Point"
      (.concrete "Point" ∅) := .own hpoint
  have hconfuses : survey.value.Confuses (.reference "Point") := by
    refine ⟨_, _, _, "Point", survey_trail, rfl, _, List.mem_cons_self, rfl, ?_⟩
    rintro ⟨ty, hother⟩
    obtain ⟨hsame, -⟩ := hsees.unique hother
    dsimp only at hsame
    have hnone : geometry.value.parent = none := by
      rw [geometry, Builder.build_catalog, Builder.declareAll, Builder.registerAll_parent]
      rfl
    rw [hsame, survey_parent] at hnone
    exact Option.some_ne_none _ hnone
  refine ⟨?_, hconfuses, (resolve_follows survey.value (.reference "Point")).2 hconfuses⟩
  exact ⟨_, _, _, survey_trail.trans (.visit rfl hsees (.here _ _)), .inl rfl⟩

end TypeEngine

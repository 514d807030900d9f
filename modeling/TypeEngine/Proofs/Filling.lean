import TypeEngine.Proofs.Remembering

/-!
# What matching accepts, substitution can fill

Matching and substitution go through a pattern in the same way: they open the same names, go into
the same subjects and compute the same keys. So when matching a pattern with a type succeeds on
fresh bindings, every key is bound that substitution into the pattern looks up, and substitution
succeeds.

The one place where matching stops early is a compound pattern that meets a type variable: nothing
is bound there. What counts is how the registry at hand reads the type (`Registry.Reads`), also
where a name stands in a type of another module.

The proof needs no bindings on the way. The script of the match lists everything that will be bound,
so it is enough that each request of the script has a binding in the end
(`Setting.exists_substituteWithin`), by induction along the script.
-/

namespace TypeEngine

open Relation

/-- No type variable comes up when the registry reads the type. -/
def Registry.VariableFree (R : Registry) (ty : Ty) : Prop :=
  ∀ u, ReflTransGen R.Reads ty u → u.isParameter = false

theorem Registry.VariableFree.subject {R : Registry} {ty t : Ty} (h : R.VariableFree ty)
    (ht : t ∈ ty.subjects) : R.VariableFree t :=
  fun u hu => h u (.head (.subject ht) hu)

theorem Registry.VariableFree.resolved {R : Registry} {ty t : Ty} (h : R.VariableFree ty)
    (ht : R.resolve ty = .ok t) : R.VariableFree t.inner :=
  fun u hu => h u ((reads_resolved ht).trans hu)

theorem Outcome.exists_mapM_eq_ok {α β : Type} {f : α → Outcome β} {l : List α}
    (h : ∀ a ∈ l, ∃ b, f a = .ok b) : ∃ bs, l.mapM f = .ok bs := by
  induction l with
  | nil => exact ⟨[], rfl⟩
  | cons a l ih =>
    obtain ⟨b, hb⟩ := h a List.mem_cons_self
    obtain ⟨bs, hbs⟩ := ih fun c hc => h c (List.mem_cons_of_mem a hc)
    rw [List.mapM_cons, hb, Outcome.ok_bind, hbs]
    exact ⟨b :: bs, rfl⟩

/-! ## Pairs -/

theorem zipExact_eq_some {left right : List Ty} {pairs : List (Ty × Ty)}
    (h : zipExact left right = some pairs) :
    pairs.map (·.1) = left ∧ pairs.map (·.2) = right := by
  rw [zipExact] at h
  split_ifs at h with hlength
  cases h
  exact ⟨List.map_fst_zip hlength.le, List.map_snd_zip hlength.ge⟩

theorem zipCases_eq_some {left right : List Case} {pairs : List (Ty × Ty)}
    (h : zipCases left right = some pairs) :
    pairs.map (·.1) = left.flatMap (·.params) ∧ pairs.map (·.2) = right.flatMap (·.params) := by
  induction left generalizing right pairs with
  | nil =>
    cases right with
    | nil =>
      cases h
      exact ⟨rfl, rfl⟩
    | cons d right => cases h
  | cons c left ih =>
    cases right with
    | nil => cases h
    | cons d right =>
      rw [zipCases] at h
      split_ifs at h
      obtain ⟨first, hfirst, h⟩ := Option.bind_eq_some_iff.1 h
      obtain ⟨rest, hrest, h⟩ := Option.bind_eq_some_iff.1 h
      cases h
      obtain ⟨hc, hd⟩ := zipExact_eq_some hfirst
      obtain ⟨hleft, hright⟩ := ih hrest
      rw [List.map_append, List.map_append, hc, hd, hleft, hright]
      exact ⟨rfl, rfl⟩

/-- In a list of scripts one after another that end well, each ends well, and all that it asks for
is asked for. -/
theorem Script.inOrder_eq_ok {scripts : List Script} {matched : Bool}
    (h : (inOrder scripts).ending = .ok matched) {script : Script} (hmem : script ∈ scripts) :
    (∃ matched', script.ending = .ok matched') ∧
      script.requests ⊆ (inOrder scripts).requests := by
  induction scripts with
  | nil => cases hmem
  | cons first rest ih =>
    rw [inOrder] at h ⊢
    cases hfirst : first.ending with
    | ok matched' =>
      simp only [hfirst] at h ⊢
      rcases List.mem_cons.1 hmem with rfl | hmem
      · exact ⟨⟨matched', hfirst⟩, List.subset_append_left _ _⟩
      · obtain ⟨hend, hsubset⟩ := ih h hmem
        exact ⟨hend, List.subset_append_of_subset_right _ hsubset⟩
    | _ =>
      simp only [hfirst] at h
      cases h

namespace Setting

variable {s : Setting}

/-- The pairs of a compound pattern are its subjects, each with a subject of the type. -/
theorem argumentPairs_eq_some {pattern actual : Ty} {pairs : List (Ty × Ty)}
    (h : s.argumentPairs pattern actual = .ok (some pairs)) :
    pairs.map (·.1) = pattern.subjects ∧ pairs.map (·.2) = actual.subjects := by
  unfold argumentPairs at h
  split at h
  · exact zipExact_eq_some (Outcome.ok.inj h)
  · exact zipExact_eq_some (Outcome.ok.inj h)
  · exact zipExact_eq_some (Outcome.ok.inj h)
  · exact zipCases_eq_some (Outcome.ok.inj h)
  · obtain ⟨family, -, h⟩ := Outcome.bind_eq_ok.1 h
    obtain ⟨family', -, h⟩ := Outcome.bind_eq_ok.1 h
    split_ifs at h
    · exact zipExact_eq_some (Outcome.ok.inj h)
    · cases h
  · cases h

theorem planByStructure_eq_ok {pattern ty actual : Ty} {chosen : Plan}
    (h : plan.byStructure s pattern ty actual = .ok chosen) :
    ∃ pairs, chosen = .pairs pairs ∧ s.argumentPairs pattern actual = .ok (some pairs) := by
  obtain ⟨pairs?, hpairs, h⟩ := Outcome.bind_eq_ok.1 h
  cases pairs? with
  | none => cases h
  | some pairs =>
    cases h
    exact ⟨pairs, rfl, hpairs⟩

/-- **The plans of a compound pattern:** to skip a variable, to bind the pattern to a witness, or to
match its subjects. -/
theorem plan_eq_ok {pattern ty : Ty} {chosen : Plan} (h : s.plan pattern ty = .ok chosen) :
    ∃ t, s.types.resolve ty = .ok t ∧
      ((chosen = .skip ∧ t.inner.isParameter = true) ∨
        (∃ trait actual, chosen = .witness trait actual ∧
          s.boundTrait pattern = .ok (some trait)) ∨
        ∃ pairs trait?, chosen = .pairs pairs ∧ s.boundTrait pattern = .ok trait? ∧
          s.argumentPairs pattern t.inner = .ok (some pairs)) := by
  obtain ⟨t, ht, h⟩ := Outcome.bind_eq_ok.1 h
  refine ⟨t, Outcome.liftM_eq_ok.1 ht, ?_⟩
  dsimp only at h
  split_ifs at h with hparameter
  · cases h
    exact .inl ⟨rfl, hparameter⟩
  · obtain ⟨trait?, htrait, h⟩ := Outcome.bind_eq_ok.1 h
    cases trait? with
    | none =>
      obtain ⟨pairs, rfl, hpairs⟩ := planByStructure_eq_ok h
      exact .inr (.inr ⟨pairs, none, rfl, htrait, hpairs⟩)
    | some trait =>
      obtain ⟨applies, -, h⟩ := Outcome.bind_eq_ok.1 h
      split_ifs at h
      · obtain ⟨pairs, rfl, hpairs⟩ := planByStructure_eq_ok h
        exact .inr (.inr ⟨pairs, some trait, rfl, htrait, hpairs⟩)
      · cases h
        exact .inr (.inl ⟨trait, _, rfl, htrait⟩)
      · cases h

/-! ## Along the script -/

variable {σ : Bindings} {context : Ty}

/-- The keys that a script asks for are bound, without errors. -/
def Provides (s : Setting) (σ : Bindings) (context : Ty) (script : Script) : Prop :=
  ∀ request ∈ script.requests, ∃ ty, σ.get s.location request.1 context = .ok ty

theorem exists_witness? {pattern : Ty} {trait? : Option Trait}
    (h : s.boundTrait pattern = .ok trait?) :
    ∃ found?, s.witness? σ context pattern = .ok found? := by
  rw [witness?, h]
  cases trait? <;> exact ⟨_, rfl⟩

theorem exists_substituteWithin_of_key {n : Nat} {pattern ty : Ty} {key : String}
    (hkey : pattern.key? = some key) (h : s.Provides σ context (.one key ty)) :
    ∃ u, s.substituteWithin σ context (n + 1) pattern = .ok u := by
  obtain ⟨u, hu⟩ := h (key, ty) (List.mem_singleton_self _)
  rw [substituteWithin_succ, substituteStep_of_key hkey, hu]
  exact ⟨u, rfl⟩

theorem exists_substituteWithin_of_impl {n : Nat} {t : Trait} {implementation ty : Ty}
    {matched : Bool}
    (hend : (s.scriptImpl t (.impl t implementation) ty).ending = .ok matched)
    (h : s.Provides σ context (s.scriptImpl t (.impl t implementation) ty)) :
    ∃ u, s.substituteWithin σ context (n + 1) (.impl t implementation) = .ok u := by
  unfold scriptImpl at hend h
  cases hty : s.types.resolve ty with
  | error e =>
    rw [hty] at hend
    cases hend
  | ok resolved =>
    rw [hty] at hend h
    dsimp only at hend h
    split_ifs at hend h
    · exact exists_substituteWithin_of_key rfl h
    · exact exists_substituteWithin_of_key rfl h
    · cases hend

/-- A compound pattern is filled if its subjects are. -/
theorem exists_substituteWithin_of_compound {n : Nat} {pattern ty : Ty} {go : Ty → Ty → Script}
    {matched : Bool} (hkey : pattern.key? = none) (hname : pattern.lookup? = none)
    (hty : s.types.VariableFree ty)
    (hgo : ∀ p t matched, s.types.VariableFree t → (go p t).ending = .ok matched →
      s.Provides σ context (go p t) → ∃ u, s.substituteWithin σ context n p = .ok u)
    (hend : (s.scriptCompound go pattern ty).ending = .ok matched)
    (h : s.Provides σ context (s.scriptCompound go pattern ty)) :
    ∃ u, s.substituteWithin σ context (n + 1) pattern = .ok u := by
  rw [substituteWithin_succ]
  unfold scriptCompound at hend h
  cases hplan : s.plan pattern ty with
  | error e =>
    rw [hplan] at hend
    cases hend
  | outOfFuel =>
    rw [hplan] at hend
    cases hend
  | ok chosen =>
    rw [hplan] at hend h
    obtain ⟨t, ht, ⟨rfl, hparameter⟩ | ⟨trait, actual, rfl, htrait⟩ |
      ⟨pairs, trait?, rfl, htrait, hpairs⟩⟩ := plan_eq_ok hplan
    · -- The type has no variable that could be skipped.
      rw [hty _ (Registry.reads_resolved ht)] at hparameter
      cases hparameter
    · obtain ⟨u, hu⟩ := h _ (List.mem_singleton_self _)
      have hwitness : s.witness? σ context pattern = .ok (some u) := by
        dsimp only at hu
        rw [witness?_of_boundTrait htrait, hu]
        rfl
      exact ⟨u, substituteStep_of_found hkey hname hwitness _⟩
    · obtain ⟨hleft, hright⟩ := argumentPairs_eq_some hpairs
      obtain ⟨found?, hwitness⟩ : ∃ found?, s.witness? σ context pattern = .ok found? :=
        exists_witness? htrait
      cases found? with
      | some u => exact ⟨u, substituteStep_of_found hkey hname hwitness _⟩
      | none =>
        have hsubjects : ∀ p ∈ pattern.subjects, ∃ u, s.substituteWithin σ context n p = .ok u := by
          rw [← hleft]
          intro p hp
          obtain ⟨pair, hpair, rfl⟩ := List.mem_map.1 hp
          have hscript : go pair.1 pair.2 ∈ pairs.map fun q => go q.1 q.2 :=
            List.mem_map_of_mem (f := fun q : Ty × Ty => go q.1 q.2) hpair
          obtain ⟨⟨matched', hend'⟩, hsubset⟩ := Script.inOrder_eq_ok hend hscript
          have hactual : pair.2 ∈ t.inner.subjects := hright ▸ List.mem_map_of_mem hpair
          exact hgo _ _ matched' ((hty.resolved ht).subject hactual) hend'
            fun request hrequest => h request (hsubset hrequest)
        obtain ⟨us, hus⟩ := Outcome.exists_mapM_eq_ok hsubjects
        refine ⟨pattern.refill us, ?_⟩
        rw [substituteStep_of_subjects hkey hname hwitness, hus]
        rfl

/-- **A pattern is filled along the script of its match.** -/
theorem exists_substituteWithin {n : Nat} {pattern ty : Ty} {matched : Bool}
    (hty : s.types.VariableFree ty) (hend : (s.scriptWithin n pattern ty).ending = .ok matched)
    (h : s.Provides σ context (s.scriptWithin n pattern ty)) :
    ∃ u, s.substituteWithin σ context n pattern = .ok u := by
  induction n generalizing pattern ty matched with
  | zero => cases hend
  | succ n ih =>
    unfold scriptWithin at hend h
    cases pattern with
    | parameter name origin => exact exists_substituteWithin_of_key rfl h
    | impl t implementation => exact exists_substituteWithin_of_impl hend h
    | reference | typeAlias | constructor =>
      rw [substituteWithin_succ, substituteStep_of_lookup rfl]
      dsimp only at hend h
      generalize s.types.resolve _ = resolved at hend h ⊢
      cases resolved with
      | ok resolved => exact ih hty hend h
      | error e => cases hend
    | labeled label inner | annotated directives inner =>
      obtain ⟨u, hu⟩ := ih hty hend h
      rw [substituteWithin, hu]
      exact ⟨_, rfl⟩
    | parametric | function | tuple | union | intersection =>
      exact exists_substituteWithin_of_compound rfl rfl hty
        (fun p t matched ht hend h => ih ht hend h) hend h
    | fixedTrait | concrete | trait | method | numeric => exact ⟨_, rfl⟩

theorem bound_of_perform {ending : Outcome Bool} {requests : List (String × Ty)} {σ σ' : Bindings}
    {matched : Bool} (h : s.perform ending requests σ = (.ok matched, σ')) :
    ∀ request ∈ requests, ∃ ty, σ'.mappings.get? request.1 = some ty := by
  induction requests generalizing σ with
  | nil => simp
  | cons first requests ih =>
    obtain ⟨key, ty⟩ := first
    rw [perform] at h
    rcases s.addMapping_cases key ty σ with ⟨u, hbind⟩ | ⟨_, e, -, hbind⟩ | hbind
    · rw [hbind] at h
      dsimp only at h
      intro request hrequest
      rcases List.mem_cons.1 hrequest with rfl | hrequest
      · have hkeeps : (σ.bind key u).Keeps (s.perform ending requests (σ.bind key u)).2 :=
          keeps_perform ending
        rw [h] at hkeeps
        exact hkeeps key u (by simp [Bindings.bind])
      · exact ih h request hrequest
    · rw [hbind] at h
      cases h
    · rw [hbind] at h
      cases h

/-- What a successful match of fresh bindings asked for is bound, and nothing has an error. -/
theorem provides_of_extract {pattern ty : Ty} {matched : Bool}
    (h : s.extract pattern ty ∅ = (.ok matched, σ)) (context : Ty) :
    (s.script pattern ty).ending = .ok matched ∧ s.Provides σ context (s.script pattern ty) := by
  rw [extract_eq_follow] at h
  have hnone : s.failure? (s.script pattern ty).requests ∅ = none := by
    cases hf : s.failure? (s.script pattern ty).requests ∅ with
    | none => rfl
    | some f =>
      rw [follow, (perform_failed _ hf).1] at h
      cases h
  have herrors : σ.errors = ∅ := by
    have := errors_perform (s.script pattern ty).ending hnone
    rw [follow] at h
    rw [h] at this
    exact this
  refine ⟨s.ending_of_perform h, fun request hrequest => ?_⟩
  obtain ⟨u, hu⟩ := bound_of_perform h request hrequest
  refine ⟨u, ?_⟩
  rw [Bindings.get, herrors, hu]
  rfl

/-! ## What substitution visits -/

variable (s σ context) in
/-- `s.Visits σ context ty u`: substitution into `ty` comes to `u`. -/
inductive Visits : Ty → Ty → Prop
  | self (ty : Ty) : Visits ty ty
  | name {ty t u : Ty} {name : String} : ty.lookup? = some name → s.types.resolve ty = .ok t →
      Visits t u → Visits ty u
  | subject {ty t u : Ty} : ty.key? = none → ty.lookup? = none →
      s.witness? σ context ty = .ok none → t ∈ ty.subjects → Visits t u → Visits ty u

/-- Substitution succeeds in all that it comes to, or not at all. -/
theorem exists_substitute_of_visits {ty u v : Ty} (h : s.Visits σ context ty u)
    (hty : s.substitute σ ty context = .ok v) : ∃ w, s.substitute σ u context = .ok w := by
  induction h generalizing v with
  | self => exact ⟨v, hty⟩
  | name hname ht _ ih =>
    rw [substitute_eq, substituteStep_of_lookup hname, ht] at hty
    exact ih hty
  | subject hkey hname hwitness hmem _ ih =>
    rw [substitute_eq, substituteStep_of_subjects hkey hname hwitness] at hty
    obtain ⟨us, hus, -⟩ := Outcome.bind_eq_ok.1 hty
    obtain ⟨w, -, hw⟩ := exists_of_mem_forall₂ (Outcome.mapM_eq_ok.1 hus) hmem
    exact ih hw

end Setting

/-- **What matching accepts, substitution fills.** Let a pattern be matched with a type in which the
registry reads no type variable. If matching succeeds on fresh bindings, so does substitution into
the pattern afterwards. Every key that is looked up on the way has a binding; and where a trait with
arguments is met, there is a binding for it as a whole or one for each argument. -/
theorem extract_fills (R : Registry) (implements : Checker) (location : Location)
    {pattern ty : Ty} {matched : Bool} {σ : Bindings} (hty : R.VariableFree ty)
    (h : Setting.extract ⟨R, implements, location⟩ pattern ty ∅ = (.ok matched, σ)) (context : Ty) :
    (∃ u, Setting.substitute ⟨R, implements, location⟩ σ pattern context = .ok u) ∧
      (∀ u key, Setting.Visits ⟨R, implements, location⟩ σ context pattern u → u.key? = some key →
        ∃ bound, σ.get location key context = .ok bound) ∧
      ∀ u t, Setting.Visits ⟨R, implements, location⟩ σ context pattern u →
        Setting.boundTrait ⟨R, implements, location⟩ u = .ok (some t) →
        (∃ bound, σ.get location u.representation context = .ok bound) ∨
          ∀ p ∈ u.subjects,
            ∃ v, Setting.substitute ⟨R, implements, location⟩ σ p context = .ok v := by
  obtain ⟨hend, hprovides⟩ := Setting.provides_of_extract h context
  obtain ⟨v, hv⟩ := Setting.exists_substituteWithin hty hend hprovides
  have hfilled := Setting.substitute_of_substituteWithin hv (by simp)
  refine ⟨⟨v, hfilled⟩, ?_, ?_⟩
  · intro u key hu hkey
    obtain ⟨w, hw⟩ := Setting.exists_substitute_of_visits hu hfilled
    rw [Setting.substitute_eq, Setting.substituteStep_of_key hkey] at hw
    exact ⟨w, Outcome.liftM_eq_ok.1 hw⟩
  · intro u t hu ht
    obtain ⟨w, hw⟩ := Setting.exists_substitute_of_visits hu hfilled
    cases hget : σ.get location u.representation context with
    | ok bound => exact .inl ⟨bound, rfl⟩
    | error e =>
      obtain ⟨hkey, hname⟩ := Setting.key?_of_boundTrait ht
      have hwitness : Setting.witness? ⟨R, implements, location⟩ σ context u = .ok none := by
        rw [Setting.witness?_of_boundTrait ht, hget]
        rfl
      refine .inr fun p hp => ?_
      exact Setting.exists_substitute_of_visits (.subject hkey hname hwitness hp (.self p)) hw

/-- Numbers and lists. -/
def stock : Built :=
  (Builder.new.declareAll [.concrete "Int", .parametric "List" [.parameter "a"]]).2.build

/-- Boxes with one item, which is a list of numbers. -/
def depot : Built :=
  ((Builder.withParent stock).declareAll
    [.type "Item" ∅ [] (.parametric "List" [.reference "Int"]),
      .type "Box" ∅ [] (.tuple [.reference "Item"])]).2.build

/-- Above the depot as a module, a variable with the name of the item. -/
def wharf : Built :=
  ((Builder.withParent (Registry.ofModules (some stock) [("Geo", depot)])).declareAll
    [.type "Item" ∅ [] (.parameter "x")]).2.build

/-- A list of the stock. -/
def stockList (element : Ty) : Ty :=
  .parametric (.reference "List") [element] ∅

/-- A box with some list. -/
def boxPattern : Ty :=
  .tuple [stockList (.parameter "a" .written)] ∅

/-- All that the depot reads in a box. -/
def boxTypes : List Ty :=
  [.reference "Box", .tuple [.reference "Item"] ∅, .reference "Item", stockList (.reference "Int"),
    .reference "Int", .concrete "Int" ∅]

theorem depot_facts :
    depot.value.closes boxTypes = true ∧ (∀ u ∈ boxTypes, u.isParameter = false) ∧
      Setting.extract ⟨depot.value, fun _ _ => false, default⟩ boxPattern (.reference "Box") ∅
        = (.ok true, Bindings.bind ∅ "a" (.reference "Int")) := by
  decide +kernel

theorem wharf_facts :
    wharf.value.solve (.reference "Geo.Box")
        = .ok (.tuple [.parametric (.concrete "List" ∅) [.concrete "Int" ∅] ∅] ∅) ∧
      Setting.extract ⟨wharf.value, fun _ _ => false, default⟩ boxPattern (.reference "Geo.Box") ∅
        = (.ok true, ∅) ∧
      Setting.substitute ⟨wharf.value, fun _ _ => false, default⟩ ∅ boxPattern boxPattern
        = .error (.substitutionNotFound default "a" boxPattern) := by
  decide +kernel

/-- In the depot the item of a box is a list of `Int`, and the pattern can be filled after it was
matched with a box. Above the module, where the item of an imported box is read as a variable, it
cannot, although the box is solved to the same type. -/
theorem extract_fills_depot :
    depot.value.VariableFree (.reference "Box") ∧
      (∃ u, Setting.substitute ⟨depot.value, fun _ _ => false, default⟩
        (Bindings.bind ∅ "a" (.reference "Int")) boxPattern boxPattern = .ok u) ∧
      wharf.value.solve (.reference "Geo.Box")
        = .ok (.tuple [.parametric (.concrete "List" ∅) [.concrete "Int" ∅] ∅] ∅) ∧
      Setting.extract ⟨wharf.value, fun _ _ => false, default⟩ boxPattern (.reference "Geo.Box") ∅
        = (.ok true, ∅) ∧
      Setting.substitute ⟨wharf.value, fun _ _ => false, default⟩ ∅ boxPattern boxPattern
        = .error (.substitutionNotFound default "a" boxPattern) := by
  obtain ⟨hcloses, hparameter, hextract⟩ := depot_facts
  have hfree : depot.value.VariableFree (.reference "Box") := fun u hu =>
    hparameter u (Registry.mem_of_reads hcloses List.mem_cons_self hu)
  exact ⟨hfree, (extract_fills depot.value (fun _ _ => false) default hfree hextract boxPattern).1,
    wharf_facts⟩

end TypeEngine

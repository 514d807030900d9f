import TypeEngine.Proofs.Assemblies
import TypeEngine.Proofs.Termination

/-!
# Names left in a solved type

Inside a union case, solving leaves the name of a union as it is. It does so where it meets the
name, in the catalog that owns the type around it, but the name then stands in a result that is read
where solving was asked for. This module says what such a name means there.

A name that is left in the result was left at some place on the way (`SolveCall.traces`).
There it stands for a union. The registry that was asked reads it as the same union if it finds the
same entry under the name, and it misses the name if it finds none (`left_names_meaning`).

Along a chain of parents the entry is the same. So in a registry that is built in layers the name
always keeps its meaning, and in one with modules it does if it has no key and was met on the chain
of parents. Names that were met inside a module do not: `estate` does not know the trees that its
own solved type mentions, and `park` takes them for trees of another kind.
-/

namespace TypeEngine

open Relation

/-! ## Names inside union cases -/

mutual

/-- The names inside union cases of a type, in the parts that solving goes down to. All names of the
type count if it stands `inCase` itself. -/
def Ty.caseNames (inCase : Bool) : Ty → List String
  | .reference name | .typeAlias name _ => if inCase then [name] else []
  | .parametric head params _ => head.caseNames inCase ++ caseNamesAll inCase params
  | .function arguments _ _ => caseNamesAll inCase arguments
  | .tuple elements _ => caseNamesAll inCase elements
  | .union cases _ => caseNamesCases cases
  | .impl _ ty | .labeled _ ty | .annotated _ ty => ty.caseNames inCase
  | .parameter .. | .concrete .. | .numeric .. | .constructor .. => []
  | .intersection .. | .trait .. | .method .. | .fixedTrait .. => []

def caseNamesAll (inCase : Bool) : List Ty → List String
  | [] => []
  | t :: ts => t.caseNames inCase ++ caseNamesAll inCase ts

def caseNamesCases : List Case → List String
  | [] => []
  | ⟨_, params⟩ :: cs => caseNamesAll true params ++ caseNamesCases cs

end

theorem mem_caseNamesAll {b : Bool} {ts : List Ty} {name : String} :
    name ∈ caseNamesAll b ts ↔ ∃ t ∈ ts, name ∈ t.caseNames b := by
  induction ts with
  | nil => simp [caseNamesAll]
  | cons t ts ih => simp [caseNamesAll, ih]

theorem mem_caseNamesCases {cs : List Case} {name : String} :
    name ∈ caseNamesCases cs ↔ ∃ c ∈ cs, ∃ t ∈ c.params, name ∈ t.caseNames true := by
  induction cs with
  | nil => simp [caseNamesCases]
  | cons c cs ih =>
    obtain ⟨label, params⟩ := c
    simp [caseNamesCases, ih, mem_caseNamesAll]

/-! ## Where names are left -/

namespace SolveCall

/-- `Leaves c q name`: to answer `c`, solving comes to the place `q` and leaves the name there. -/
structure Leaves (c : SolveCall) (q : Place) (name : String) : Prop where
  called : ∃ expanding, ReflTransGen Calls c (.type q expanding)
  target : q.ty.target? = some name
  kept : q.Kept name

theorem Leaves.step {c d : SolveCall} {q : Place} {name : String} (hcall : Calls c d)
    (h : d.Leaves q name) : c.Leaves q name := by
  obtain ⟨expanding, hcalled⟩ := h.called
  exact ⟨⟨expanding, .head hcall hcalled⟩, h.target, h.kept⟩

/-- The names inside union cases of what is solved with this fuel were left on the way. -/
def Traces (n : Nat) : Prop :=
  ∀ {s : Expansion} {ty S : Ty} {name : String}, solveWithin n s ty = .ok S →
    name ∈ S.caseNames s.inUnion →
    ∃ q, Leaves (.type ⟨s.catalog, s.inUnion, ty⟩ s.expanding) q name

/-- The same for what is solved as a head. -/
def TracesHeads (n : Nat) : Prop :=
  ∀ {s : Expansion} {head H : Ty} {name : String}, solveHeadWithin n s head = .ok H →
    name ∈ H.caseNames s.inUnion →
    ∃ q, Leaves (.head ⟨s.catalog, s.inUnion, head⟩ s.expanding) q name

variable {n : Nat} {s : Expansion} {ty S : Ty} {name : String}

/-- A name is left here, or where the type it stands for is solved. -/
theorem Traces.target (ih : Traces n) {target : String} (htarget : ty.target? = some target)
    (h : solveWithin (n + 1) s ty = .ok S) (hname : name ∈ S.caseNames s.inUnion) :
    ∃ q, Leaves (.type ⟨s.catalog, s.inUnion, ty⟩ s.expanding) q name := by
  rw [solveWithin_target htarget] at h
  obtain ⟨kept, hkept, h⟩ := Outcome.bind_eq_ok.1 h
  rw [Outcome.liftM_eq_ok] at hkept
  cases kept with
  | true =>
    obtain ⟨hin, hunion⟩ := Expansion.keepsName_eq_true htarget hkept
    cases h
    rw [Ty.caseNames, if_pos hin, List.mem_singleton] at hname
    subst hname
    exact ⟨_, ⟨_, .refl⟩, htarget, hin, hunion⟩
  | false =>
    obtain ⟨⟨s', t⟩, hexpand, h⟩ := Outcome.bind_eq_ok.1 h
    rw [Outcome.liftM_eq_ok] at hexpand
    obtain ⟨hnew, hwalk, hs⟩ := Expansion.expand_eq_ok hexpand
    rw [hs] at h
    obtain ⟨q, hq⟩ := ih h hname
    exact ⟨q, hq.step (.name htarget (Place.not_kept_of_keepsName htarget hkept) hnew hwalk)⟩

/-- A name is left where the head is solved, the first time or another time. -/
theorem Traces.heads (ih : Traces n) (ihHead : TracesHeads n) : TracesHeads (n + 1) := by
  intro s head H name h hname
  rw [solveHeadWithin] at h
  obtain ⟨solved, hsolved, h⟩ := Outcome.bind_eq_ok.1 h
  have honce (hname : name ∈ solved.caseNames s.inUnion) :
      ∃ q, Leaves (.head ⟨s.catalog, s.inUnion, head⟩ s.expanding) q name := by
    obtain ⟨q, hq⟩ := ih hsolved hname
    exact ⟨q, hq.step .once⟩
  cases solved with
  | parametric again params attributes =>
    have houtcome : Place.outcome ⟨s.catalog, s.inUnion, head⟩ n s.walk s.expanding
        = .ok (.parametric again params attributes) := hsolved
    dsimp only at h
    split_ifs at h with hsame
    · cases h
      exact honce (List.mem_append_left _ hname)
    · obtain ⟨q, hq⟩ := ihHead h hname
      exact ⟨q, hq.step (.again houtcome (Bool.eq_false_iff.2 hsame))⟩
  | _ =>
    cases h
    exact honce hname

/-- A name in the result of a part is left in that part. -/
theorem Traces.part (ih : Traces n) {p q : Place} (hq : p.Part q) {walk : Nat}
    {expanding : List String}
    (h : q.outcome n walk expanding = .ok S) (hname : name ∈ S.caseNames q.inUnion) :
    ∃ r, Leaves (.type p expanding) r name := by
  obtain ⟨r, hr⟩ := ih h hname
  exact ⟨r, hr.step (.part hq)⟩

/-- **A name inside a union case of the result was left on the way.** -/
theorem traces (n : Nat) : Traces n ∧ TracesHeads n := by
  induction n with
  | zero => exact ⟨fun {_ _ _ _} h _ => (nomatch h), fun {_ _ _ _} h _ => (nomatch h)⟩
  | succ n ih =>
    obtain ⟨ih, ihHead⟩ := ih
    refine ⟨fun {s ty S name} h hname => ?_, ih.heads ihHead⟩
    have hall {ts us : List Ty} (hus : ts.mapM (solveWithin n s) = .ok us)
        (hpart : ∀ t ∈ ts, Place.Part ⟨s.catalog, s.inUnion, ty⟩ ⟨s.catalog, s.inUnion, t⟩)
        (hname : name ∈ caseNamesAll s.inUnion us) :
        ∃ q, Leaves (.type ⟨s.catalog, s.inUnion, ty⟩ s.expanding) q name := by
      obtain ⟨u, hu, hname⟩ := mem_caseNamesAll.1 hname
      obtain ⟨t, ht, hsolve⟩ := Outcome.exists_of_mem_mapM hus hu
      exact ih.part (hpart t ht) hsolve hname
    cases ty with
    | reference target => exact ih.target rfl h hname
    | typeAlias target attributes => exact ih.target rfl h hname
    | parametric head params attributes =>
      rw [solveWithin] at h
      obtain ⟨H, hH, h⟩ := Outcome.bind_eq_ok.1 h
      obtain ⟨us, hus, h⟩ := Outcome.bind_eq_ok.1 h
      cases h
      rcases List.mem_append.1 hname with hname | hname
      · obtain ⟨q, hq⟩ := ihHead hH hname
        exact ⟨q, hq.step .head⟩
      · exact hall hus (fun t ht => .param ht) hname
    | function arguments scope attributes =>
      rw [solveWithin] at h
      obtain ⟨us, hus, h⟩ := Outcome.bind_eq_ok.1 h
      cases h
      exact hall hus (fun t ht => .argument ht) hname
    | tuple elements attributes =>
      rw [solveWithin] at h
      obtain ⟨us, hus, h⟩ := Outcome.bind_eq_ok.1 h
      cases h
      exact hall hus (fun t ht => .element ht) hname
    | union cases attributes =>
      rw [solveWithin] at h
      obtain ⟨cs, hcs, h⟩ := Outcome.bind_eq_ok.1 h
      cases h
      obtain ⟨c', hc', u, hu, hname⟩ := mem_caseNamesCases.1 hname
      obtain ⟨c, hc, hcase⟩ := Outcome.exists_of_mem_mapM hcs hc'
      obtain ⟨us, hus, hcase⟩ := Outcome.bind_eq_ok.1 hcase
      cases hcase
      obtain ⟨t, ht, hsolve⟩ := Outcome.exists_of_mem_mapM hus hu
      exact ih.part (.case hc ht) hsolve hname
    | impl trait implementation =>
      rw [solveWithin] at h
      exact ih.part .implementation h hname
    | labeled label ty =>
      rw [solveWithin] at h
      obtain ⟨u, hu, h⟩ := Outcome.bind_eq_ok.1 h
      cases h
      exact ih.part .labeled hu hname
    | annotated directives ty =>
      rw [solveWithin] at h
      obtain ⟨u, hu, h⟩ := Outcome.bind_eq_ok.1 h
      cases h
      exact ih.part .annotated hu hname
    | _ =>
      cases h
      cases hname

/-- The place of a call. -/
def place : SolveCall → Place
  | .type p _ | .head p _ => p

theorem Calls.under {R : Catalog} (hR : R.Layered) {c d : SolveCall} (h : Calls c d)
    (hc : c.place.catalog.Under R) : d.place.catalog.Under R := by
  cases h with
  | part hq =>
    show Catalog.Under _ R
    rw [place, hq.catalog_eq]
    exact hc
  | name _ _ _ hwalk => exact (hwalk.under (hR.of_under hc)).trans hc
  | head => exact hc
  | once => exact hc
  | again => exact hc

/-- In a layered catalog, solving stays in its layers. -/
theorem under_of_calls {R : Catalog} (hR : R.Layered) {c d : SolveCall} (h : ReflTransGen Calls c d)
    (hc : c.place.catalog.Under R) : d.place.catalog.Under R := by
  induction h with
  | refl => exact hc
  | tail _ hcall ih => exact hcall.under hR ih

end SolveCall

/-! ## What left names mean -/

namespace Registry

/-- Solving the type, the registry comes to the place and leaves the name there. -/
def LeavesAt (R : Registry) (T : Ty) (q : Place) (name : String) : Prop :=
  SolveCall.Leaves (.type ⟨R.toCatalog, false, T⟩ []) q name

/-- A registry that finds the same entry under a name resolves it in the same way. -/
theorem resolveOwned_of_find?_eq {R : Registry} {C O : Catalog} {name : String} {U : Ty}
    (h : R.find? name = C.find? name) (hwalk : C.Walk [] (.reference name) O U) :
    R.resolveOwned (.reference name) = .ok (O, U) := by
  rw [resolveOwned_eq_ok_iff]
  cases hwalk with
  | reference hnew hfind hrest => exact .reference hnew (h.trans hfind) hrest
  | stop hty => cases hty

theorem resolve_of_find?_eq_none {R : Registry} {name : String} (h : R.find? name = none) :
    R.resolve (.reference name) = .error (.typeNotFound name) := by
  obtain ⟨n, hn⟩ := R.exists_walkFuel (.reference name)
  rw [resolve, resolveOwned, hn, Catalog.resolveWithin_reference, h]
  rfl

/-- Where all layers below agree on a name, a name that is left keeps its entry. -/
theorem LeavesAt.find?_eq {B : Built} {T : Ty} {q : Place} {name : String}
    (h : B.value.LeavesAt T q name)
    (hB : BuiltInLayers B ∨ Assembled Registration.Lawful B ∧
      q.catalog.Under B.value.toCatalog ∧ splitQualified name = none) :
    B.value.find? name = q.catalog.find? name := by
  obtain ⟨O, U, hwalk, -⟩ := h.kept.2
  obtain ⟨P, target, hfind⟩ := hwalk.find?_of_target rfl
  rw [hfind]
  rcases hB with hlayers | ⟨hassembled, hunder, hkey⟩
  · obtain ⟨expanding, hcalled⟩ := h.called
    have hunder := SolveCall.under_of_calls hlayers.layered hcalled (.refl _)
    exact hlayers.layered.find?_of_under hunder hfind
  · exact hassembled.stacked.find?_of_under hunder hkey hfind

end Registry

/-- **What the names left in a solved type mean.** Every name inside a union case of the result was
left at a place that solving came to, and stands for a union there. If the registry finds the same
entry under the name, it resolves the name to the same union of the same owner; if it finds none,
the name is not found. The entry is the same in every registry that is built in layers, and in a
registry with modules if the name has no key and was met on the chain of parents. -/
theorem left_names_meaning {R : Registry} {T S : Ty} (h : R.solve T = .ok S) :
    (∀ name ∈ S.caseNames false, ∃ q, R.LeavesAt T q name) ∧
    ∀ q name, R.LeavesAt T q name →
      ∃ O U, q.catalog.Walk [] (.reference name) O U ∧ U.inner.isUnion = true ∧
        (R.find? name = q.catalog.find? name → R.resolveOwned (.reference name) = .ok (O, U)) ∧
        (R.find? name = none → R.resolve (.reference name) = .error (.typeNotFound name)) ∧
        ∀ B : Built, B.value = R →
          (BuiltInLayers B ∨ Assembled Registration.Lawful B ∧ q.catalog.Under R.toCatalog ∧
            splitQualified name = none) →
          R.resolveOwned (.reference name) = .ok (O, U) := by
  refine ⟨fun name hname => (SolveCall.traces _).1 h hname, fun q name hleaves => ?_⟩
  obtain ⟨O, U, hwalk, hunion⟩ := hleaves.kept.2
  refine ⟨O, U, hwalk, hunion, fun hfind => Registry.resolveOwned_of_find?_eq hfind hwalk,
    Registry.resolve_of_find?_eq_none, ?_⟩
  rintro B rfl hB
  exact Registry.resolveOwned_of_find?_eq (hleaves.find?_eq hB) hwalk

/-- Trees of a nursery. -/
def nursery : Built :=
  (Builder.declaring none
    [.concrete "Int",
      .union "Tree" [⟨"Leaf", []⟩, ⟨"Node", [.reference "Int", .reference "Tree"]⟩]]).build

/-- An estate that imports the nursery. -/
def estate : Built :=
  Registry.ofModules none [("Nursery", nursery)]

/-- A park over the estate, with trees of its own. -/
def park : Built :=
  (Builder.declaring (some estate) [.union "Tree" [⟨"Pine", []⟩, ⟨"Oak", []⟩]]).build

/-- The trees of the nursery, whose nodes hold numbers of some kind. -/
def nurseryTree (number : Ty) : Ty :=
  .union [⟨"Leaf", []⟩, ⟨"Node", [number, .reference "Tree"]⟩] ∅

theorem nursery_facts :
    nursery.value.entries.lookup "Tree" = some (nurseryTree (.reference "Int")) ∧
    estate.value.contains "Tree" = false ∧
    estate.value.solve (.reference "Nursery.Tree") = .ok (nurseryTree (.concrete "Int" ∅)) ∧
    park.value.entries.lookup "Nursery.Tree" = none ∧
    park.value.solve (.reference "Nursery.Tree") = .ok (nurseryTree (.concrete "Int" ∅)) ∧
    park.value.resolve (.reference "Tree") = .ok (.union [⟨"Pine", []⟩, ⟨"Oak", []⟩] ∅) := by
  decide +kernel

theorem nursery_walk {chain : List String} (h : "Tree" ∉ chain) :
    nursery.value.Walk chain (.reference "Tree") nursery.value.toCatalog
      (nurseryTree (.reference "Int")) :=
  .reference h (Catalog.Sees.own nursery_facts.1).find? (.stop rfl)

/-- Inside a node, solving the trees of the nursery leaves their name. -/
theorem leavesAt_nursery {R : Registry}
    (h : R.find? "Nursery.Tree"
      = some (nursery.value.toCatalog, nurseryTree (.reference "Int"))) :
    R.LeavesAt (.reference "Nursery.Tree") ⟨nursery.value.toCatalog, true, .reference "Tree"⟩
      "Tree" := by
  have hname : SolveCall.Calls
      (.type ⟨R.toCatalog, false, .reference "Nursery.Tree"⟩ [])
      (.type ⟨nursery.value.toCatalog, false, nurseryTree (.reference "Int")⟩
        ["Nursery.Tree"]) :=
    .name rfl (fun hkept => (nomatch hkept.1)) List.not_mem_nil
      (.reference List.not_mem_nil h (.stop rfl))
  have hpart : Place.Part
      ⟨nursery.value.toCatalog, false, nurseryTree (.reference "Int")⟩
      ⟨nursery.value.toCatalog, true, .reference "Tree"⟩ :=
    .case (List.mem_cons_of_mem _ List.mem_cons_self) (List.mem_cons_of_mem _ List.mem_cons_self)
  exact ⟨⟨_, .head hname (.single (.part hpart))⟩, rfl, rfl, _, _,
    nursery_walk List.not_mem_nil, rfl⟩

theorem estate_sees :
    estate.value.Sees "Nursery.Tree" nursery.value.toCatalog "Tree"
      (nurseryTree (.reference "Int")) :=
  (Catalog.Sees.own nursery_facts.1).of_module "Nursery" rfl (by decide) rfl

theorem park_sees :
    park.value.Sees "Nursery.Tree" nursery.value.toCatalog "Tree"
      (nurseryTree (.reference "Int")) := by
  obtain ⟨-, -, -, hnone, -⟩ := nursery_facts
  exact estate_sees.of_parent hnone

/-- The estate leaves the name of the trees that it solves. Where it was met, in the nursery, it
stands for these trees. The estate does not find it, and the park takes it for pines and oaks. -/
theorem left_names_meaning_estate :
    estate.value.solve (.reference "Nursery.Tree") = .ok (nurseryTree (.concrete "Int" ∅)) ∧
    (∃ q, estate.value.LeavesAt (.reference "Nursery.Tree") q "Tree") ∧
    nursery.value.resolve (.reference "Tree") = .ok (nurseryTree (.reference "Int")) ∧
    estate.value.resolve (.reference "Tree") = .error (.typeNotFound "Tree") ∧
    park.value.solve (.reference "Nursery.Tree") = .ok (nurseryTree (.concrete "Int" ∅)) ∧
    park.value.LeavesAt (.reference "Nursery.Tree")
      ⟨nursery.value.toCatalog, true, .reference "Tree"⟩ "Tree" ∧
    park.value.resolve (.reference "Tree") = .ok (.union [⟨"Pine", []⟩, ⟨"Oak", []⟩] ∅) := by
  obtain ⟨-, hunseen, hestate, -, hpark, hpine⟩ := nursery_facts
  have hleft : "Tree" ∈ (nurseryTree (.concrete "Int" ∅)).caseNames false := by decide
  have hfind : estate.value.find? "Tree" = none := by
    rw [Catalog.contains, Catalog.get?, Option.isSome_map] at hunseen
    exact Option.isNone_iff_eq_none.1 (Option.isSome_eq_false_iff.1 hunseen)
  obtain ⟨hmet, hmeaning⟩ := left_names_meaning hestate
  obtain ⟨_, _, -, -, -, hmissing, -⟩ := hmeaning _ _ (leavesAt_nursery estate_sees.find?)
  refine ⟨hestate, hmet "Tree" hleft, ?_, hmissing hfind, hpark,
    leavesAt_nursery park_sees.find?, hpine⟩
  exact Registry.resolve_eq_ok_iff.2 ⟨_, nursery_walk List.not_mem_nil⟩

end TypeEngine

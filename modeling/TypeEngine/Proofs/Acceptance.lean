import TypeEngine.Proofs.Preorder
import TypeEngine.Proofs.Sufficiency

/-!
# What substituted types accept

Substitution opens the names of a type. Where unification opens names as well, this makes no
difference to what the type accepts: tuples, functions and parametric types compare their
components, and a name among these is opened when its turn comes.

Unions and intersections are different (`Ty.isVerbatim`). Unification compares them as they are
written and reads no name in them, except that an intersection asks for the traits that its
constituents name. A union or intersection with a name in it and the same one with the name opened
are two types that do not accept each other.

So a type accepts the same before and after substitution exactly if there is no name in any union or
intersection that unification comes to (`substitute_accepts_iff`). One direction goes along
`Registry.Opened`, for all actual types at once (`Setting.compatible_iff_of_opened`). For the other,
the substituted type itself is an actual type that tells them apart: it accepts itself
(`Setting.compatible_of_inner_eq`), and the original type refuses it
(`Setting.not_compatible_of_opened`).
-/

namespace TypeEngine

open Relation

/-- Whether unification compares the type as it is written, with the names in it unread. -/
def Ty.isVerbatim : Ty → Bool
  | .union .. | .intersection .. => true
  | _ => false

/-- Other components are no other shell. -/
theorem Registry.sameShell_refill {R : Registry} {a y : Ty} (ha : a.isStructure = true)
    (us : List Ty) : R.SameShell (a.refill us) y ↔ R.SameShell a y := by
  cases a with
  | function arguments scope attributes =>
    change R.SameShell (.function us scope attributes) y ↔ _
    exact ⟨fun h => by cases h; exact .function, fun h => by cases h; exact .function⟩
  | tuple elements attributes =>
    change R.SameShell (.tuple us attributes) y ↔ _
    exact ⟨fun h => by cases h; exact .tuple, fun h => by cases h; exact .tuple⟩
  | parametric head params attributes =>
    change R.SameShell (.parametric head us attributes) y ↔ _
    constructor
    · intro h
      cases h with
      | parametric hx hy => exact .parametric hx hy
    · intro h
      cases h with
      | parametric hx hy => exact .parametric hx hy
  | _ => cases ha

/-- A type with a plain head is in its own shell. -/
theorem Registry.sameShell_self {R : Registry} {a : Ty} (ha : a.isStructure = true)
    (hhead : R.PlainHead a) : R.SameShell a a := by
  cases a with
  | function => exact .function
  | tuple => exact .tuple
  | parametric head params attributes =>
    obtain ⟨solved, hsolved, -⟩ := hhead
    obtain ⟨name, hname⟩ : ∃ name, R.family head = .ok name := by
      rw [Registry.family, hsolved, Outcome.ok_bind]
      cases solved <;> exact ⟨_, rfl⟩
    exact .parametric hname hname
  | _ => cases ha

theorem forall₂_congr_left {P : Ty → Ty → Prop} {xs us ys : List Ty}
    (hlength : us.length = xs.length)
    (h : ∀ (i : Nat) x u, xs[i]? = some x → us[i]? = some u → ∀ y, P u y ↔ P x y) :
    List.Forall₂ P us ys ↔ List.Forall₂ P xs ys := by
  rw [forall₂_iff_getElem?, forall₂_iff_getElem?, hlength]
  refine and_congr_right fun _ => ⟨fun hus i x y hx hy => ?_, fun hxs i u y hu hy => ?_⟩
  · obtain ⟨u, hu⟩ := exists_getElem? hlength hx
    exact (h i x u hx hu y).1 (hus i u y hu hy)
  · obtain ⟨x, hx⟩ := exists_getElem? hlength.symm hu
    exact (h i x u hx hu y).2 (hxs i x y hx hy)

namespace Setting

variable {s : Setting} {a b u : Ty} {n : Nat}

theorem compatible_structure (ha : a.isStructure = true) (hhead : s.types.PlainHead a) :
    s.Compatible a b ↔ ∃ t, s.types.resolve b = .ok t ∧ (t.inner.isParameter = true ∨
      s.types.SameShell a t.inner ∧ List.Forall₂ s.Compatible a.subjects t.inner.components) := by
  constructor
  · rintro ⟨n, u, hu⟩
    cases n with
    | zero => cases hu
    | succ n =>
      obtain ⟨t, ht, h⟩ := (exists_unifyWithin_structure ha hhead).1 ⟨u, hu⟩
      exact ⟨t, ht, h.imp_right fun h => ⟨h.1, h.2.imp fun c d hcd => ⟨n, hcd⟩⟩⟩
  · rintro ⟨t, ht, h⟩
    obtain ⟨n, hn⟩ : ∃ n, t.inner.isParameter = true ∨ s.types.SameShell a t.inner ∧
        List.Forall₂ (fun c d => ∃ u, s.unifyWithin n c d = .ok u) a.subjects
          t.inner.components := by
      rcases h with h | ⟨hshell, hall⟩
      · exact ⟨0, .inl h⟩
      · obtain ⟨n, hn⟩ := exists_forall₂_unifyWithin hall
        exact ⟨n, .inr ⟨hshell, hn⟩⟩
    exact ⟨n + 1, (exists_unifyWithin_structure ha hhead).2 ⟨t, ht, hn⟩⟩

/-- **Where no name is compared verbatim, opening names does not change what is accepted.** -/
theorem compatible_iff_of_opened (h : s.types.Opened n a u)
    (hfree : ∀ v, ReflTransGen s.types.Unfolds a v → v.isVerbatim = true → v.NameFree) (b : Ty) :
    s.Compatible u b ↔ s.Compatible a b := by
  induction h generalizing b with
  | name hname ht _ ih =>
    rw [compatible_of_lookup hname ht]
    exact ih (fun v hv => hfree v (.head (.name hname ht) hv)) b
  | @node n ty us hname hstatic hhead hlength hall ih =>
    cases ty with
    | concrete | numeric | trait => exact Iff.rfl
    | union | intersection =>
      rw [(Registry.Opened.node hname hstatic hhead hlength hall).eq_of_nameFree
        (hfree _ .refl rfl)]
    | labeled label ty | annotated directives ty =>
      obtain ⟨w, rfl⟩ := List.length_eq_one_iff.1 hlength
      have hiff := ih 0 ty w rfl rfl
        (fun v hv => hfree v (.head (.part (List.mem_singleton_self ty)) hv)) b
      simpa only [Ty.refill, List.headD_cons, compatible_labeled, compatible_annotated] using hiff
    | parametric | function | tuple =>
      rw [compatible_structure rfl (hhead.refill us), compatible_structure rfl hhead]
      refine exists_congr fun t => and_congr_right fun _ => or_congr_right ?_
      refine and_congr (Registry.sameShell_refill rfl us) ?_
      refine forall₂_congr_left hlength fun i c w hc hw d => ?_
      exact ih i c w hc hw (fun v hv => hfree v (.head (.part (List.mem_of_getElem? hc)) hv)) d
    | reference | typeAlias | constructor => cases hname
    | parameter | method | impl | fixedTrait => cases hstatic

/-- **An opened type accepts itself,** under any labels and directives. -/
theorem compatible_of_inner_eq (h : s.types.Opened n a u) (hb : b.isSettled = true)
    (hinner : b.inner = u.inner) : s.Compatible u b := by
  have ht : s.types.resolve b = .ok b := Registry.resolve_of_settled hb
  induction h generalizing b with
  | name _ _ _ ih => exact ih hb hinner ht
  | @node n ty us hname hstatic hhead hlength hall ih =>
    cases ty with
    | concrete =>
      refine compatible_iff_answers.2 ⟨0, b, .concrete ht ?_⟩
      rw [hinner]
      exact Ty.same_refl _
    | numeric kind attributes =>
      refine ⟨1, exists_unifyWithin_numeric.2 ?_⟩
      exact .number ht hinner (Numeric.canRepresent_refl kind)
    | union | intersection | trait =>
      refine compatible_iff_answers.2 ⟨0, _, .whole rfl ht ?_⟩
      rw [hinner]
      exact Ty.same_refl _
    | labeled label ty | annotated directives ty =>
      obtain ⟨w, rfl⟩ := List.length_eq_one_iff.1 hlength
      have hself := ih 0 ty w rfl rfl hb hinner ht
      simpa only [Ty.refill, List.headD_cons, compatible_labeled, compatible_annotated] using hself
    | parametric | function | tuple =>
      refine (compatible_structure rfl (hhead.refill us)).2 ⟨b, ht, .inr ?_⟩
      rw [hinner]
      refine ⟨Registry.sameShell_self rfl (hhead.refill us), ?_⟩
      refine forall₂_iff_getElem?.2 ⟨rfl, fun i c d hc hd => ?_⟩
      change us[i]? = some c at hc
      change us[i]? = some d at hd
      rw [hc] at hd
      cases hd
      obtain ⟨x, hx⟩ := exists_getElem? hlength.symm hc
      have hsettled := (hall i x c hx hc).nameFree.isSettled
      exact ih i x c hx hc hsettled rfl (Registry.resolve_of_settled hsettled)
    | reference | typeAlias | constructor => cases hname
    | parameter | method | impl | fixedTrait => cases hstatic

/-- A union with names refuses the union with the names opened. -/
theorem not_compatible_union {cases : List Case} {attributes : Attributes} (hu : u.NameFree)
    (hnames : ¬ (Ty.union cases attributes).NameFree) (hb : b.isSettled = true)
    (hinner : b.inner = u) (hparameter : u.isParameter = false) :
    ¬ s.Compatible (.union cases attributes) b := by
  have hresolved {t : Ty} (ht : s.types.resolve b = .ok t) : t.inner = u :=
    Registry.eq_of_resolve hb ht ▸ hinner
  intro h
  obtain ⟨n, v, hv⟩ := compatible_iff_answers.1 h
  cases hv with
  | absorbed _ ht hparam =>
    rw [hresolved ht, hparameter] at hparam
    cases hparam
  | itself hself hsame =>
    obtain ⟨-, hself, -⟩ := Ty.stopsWalk_of_same hself hsame
    rw [← hself, hinner, Ty.same_comm] at hsame
    exact hnames (hu.of_same hsame)
  | whole _ ht hsame => exact hnames (hu.of_same (hresolved ht ▸ hsame))
  | label => cases hb
  | compound _ _ hshell => cases hshell
  | name hkind | bound hkind | implemented hkind => cases hkind

/-- Where no type has any trait, an intersection with names refuses the intersection with the names
opened. -/
theorem not_compatible_intersection {params : List Ty} {attributes : Attributes} (hu : u.NameFree)
    (hnames : ¬ (Ty.intersection params attributes).NameFree)
    (hs : ∀ t ty, s.implements t ty = false) (hb : b.isSettled = true) (hinner : b.inner = u)
    (hparameter : u.isParameter = false) : ¬ s.Compatible (.intersection params attributes) b := by
  have hasNone (param : Ty) : s.hasTraitNamed u param = false := by
    cases param with
    | reference name =>
      rw [hasTraitNamed]
      split
      · exact hs _ _
      · rfl
    | _ => rfl
  have hresolved {t : Ty} (ht : s.types.resolve b = .ok t) : t.inner = u :=
    Registry.eq_of_resolve hb ht ▸ hinner
  intro h
  obtain ⟨n, v, hv⟩ := compatible_iff_answers.1 h
  cases hv with
  | absorbed _ ht hparam =>
    rw [hresolved ht, hparameter] at hparam
    cases hparam
  | whole _ ht hsame => exact hnames (hu.of_same (hresolved ht ▸ hsame))
  | traits ht hall =>
    -- Without constituents there would be no names.
    refine hnames (.node rfl fun param hparam => ?_)
    have hhas := List.all_eq_true.1 hall param hparam
    rw [hresolved ht, hasNone] at hhas
    cases hhas
  | compound _ _ hshell => cases hshell
  | name hkind | itself hkind | bound hkind | implemented hkind => cases hkind

/-- **A type that comes to a name in a union or an intersection refuses its own opening.** -/
theorem not_compatible_of_opened (h : s.types.Opened n a u) {v : Ty}
    (hv : ReflTransGen s.types.Unfolds a v) (hverbatim : v.isVerbatim = true)
    (hnames : ¬ v.NameFree) (hs : ∀ t ty, s.implements t ty = false) (hb : b.isSettled = true)
    (hinner : b.inner = u.inner) : ¬ s.Compatible a b := by
  induction h generalizing b with
  | @name n ty t u name hname ht _ ih =>
    rw [compatible_of_lookup hname ht]
    refine ih ?_ hb hinner
    rcases hv.cases_head with rfl | ⟨w, hw, hrest⟩
    · cases ty <;> cases hname <;> cases hverbatim
    · cases hw with
      | part hmem => cases ty <;> cases hname <;> cases hmem
      | name _ hw =>
        rw [ht] at hw
        cases hw
        exact hrest
  | @node n ty us hname hstatic hhead hlength hall ih =>
    have hopened := Registry.Opened.node hname hstatic hhead hlength hall
    rcases hv.cases_head with rfl | ⟨w, hw, hrest⟩
    · cases ty with
      | union => exact not_compatible_union hopened.nameFree hnames hb hinner rfl
      | intersection => exact not_compatible_intersection hopened.nameFree hnames hs hb hinner rfl
      | _ => cases hverbatim
    · cases hw with
      | name hname' =>
        rw [hname] at hname'
        cases hname'
      | part hmem =>
        cases ty with
        | labeled label ty | annotated directives ty =>
          obtain ⟨x, rfl⟩ := List.length_eq_one_iff.1 hlength
          rw [List.mem_singleton.1 hmem] at hrest
          have hrefuses := ih 0 ty x rfl rfl hrest hb hinner
          simpa only [compatible_labeled, compatible_annotated] using hrefuses
        | parametric | function | tuple =>
          -- The component that refuses its own opening meets it there.
          obtain ⟨i, hi⟩ := List.getElem?_of_mem hmem
          obtain ⟨x, hx⟩ := exists_getElem? hlength hi
          intro hcompatible
          obtain ⟨t, ht, h⟩ := (compatible_structure rfl hhead).1 hcompatible
          rw [Registry.resolve_of_settled hb] at ht
          cases ht
          rw [hinner] at h
          rcases h with h | ⟨-, h⟩
          · cases h
          · have hsettled := (hall i w x hi hx).nameFree.isSettled
            exact ih i w x hi hx hrest hsettled rfl ((forall₂_iff_getElem?.1 h).2 i w x hi hx)
        | method | impl => cases hstatic
        | _ => cases hmem

end Setting

/-- **What a substituted type accepts.** Let substitution succeed in a type that bindings do not
change. The type and the result accept the same actual types, for all locations and checkers,
exactly if there is no name in any union or intersection that unification comes to in the type. -/
theorem substitute_accepts_iff (R : Registry) (implements : Checker) (location : Location)
    (σ : Bindings) {ty u context : Ty} (hty : R.Static ty)
    (h : Setting.substitute ⟨R, implements, location⟩ σ ty context = .ok u) :
    (∀ b location implements, (∃ v, R.unify location u b implements = .ok v)
        ↔ ∃ v, R.unify location ty b implements = .ok v)
      ↔ ∀ v, ReflTransGen R.Unfolds ty v → v.isVerbatim = true → v.NameFree := by
  have hopened : R.Opened (R.descentFuel ty) ty u := Setting.opened_of_substitute hty h
  have hself : R.Opened u.weight u u := hopened.self
  have hu : u.weight ≤ R.descentFuel u :=
    (Nat.le_add_right _ _).trans (R.weight_add_unspent_le_descentFuel u)
  have hresult (b : Ty) (location : Location) (implements : Checker) :
      Setting.Compatible ⟨R, implements, location⟩ u b
        ↔ ∃ v, R.unify location u b implements = .ok v :=
    Setting.compatible_iff_unify_of_opened (s := ⟨R, implements, location⟩) hself hu
  have htype (b : Ty) (location : Location) (implements : Checker) :
      Setting.Compatible ⟨R, implements, location⟩ ty b
        ↔ ∃ v, R.unify location ty b implements = .ok v :=
    Setting.compatible_iff_unify_of_opened (s := ⟨R, implements, location⟩) hopened (Nat.le_refl _)
  constructor
  · intro haccepts v hv hverbatim
    by_contra hnames
    have hsettled := hopened.nameFree.isSettled
    -- The result accepts itself, so the type would have to accept it.
    have haccepted : Setting.Compatible ⟨R, fun _ _ => false, location⟩ ty u := by
      rw [htype, ← haccepts, ← hresult]
      exact Setting.compatible_of_inner_eq (s := ⟨R, _, _⟩) hopened hsettled rfl
    exact Setting.not_compatible_of_opened (s := ⟨R, _, _⟩) hopened hv hverbatim hnames
      (fun _ _ => rfl) hsettled rfl haccepted
  · intro hfree b location implements
    rw [← hresult, ← htype]
    exact Setting.compatible_iff_of_opened (s := ⟨R, _, _⟩) hopened hfree b

/-- Points with a mark, whose union has no names, and shapes, whose union has one. -/
def drawing : Registry :=
  (Builder.new.declareAll
    [.concrete "Int", .union "Mark" [⟨"Dot", []⟩],
      .type "Point" ∅ [] (.tuple [.reference "Int", .reference "Mark"]),
      .union "Shape" [⟨"Circle", [.reference "Int"]⟩]]).2.build.value

/-- The union of marks. -/
def drawnMark : Ty :=
  .union [⟨"Dot", []⟩] ∅

/-- The union of shapes, with some radius. -/
def drawnShape (radius : Ty) : Ty :=
  .union [⟨"Circle", [radius]⟩] ∅

/-- All that a point comes to. -/
def pointTypes : List Ty :=
  [.reference "Point", .tuple [.reference "Int", .reference "Mark"] ∅, .reference "Int",
    .reference "Mark", .concrete "Int" ∅, drawnMark]

/-- All that a shape comes to. -/
def shapeTypes : List Ty :=
  [.reference "Shape", drawnShape (.reference "Int"), .reference "Int", .concrete "Int" ∅]

theorem drawing_facts :
    drawing.closes pointTypes = true ∧ drawing.closes shapeTypes = true ∧
      (∀ u ∈ pointTypes ++ shapeTypes, u.isStatic = true ∧ u.isParametric = false) ∧
      (∀ u ∈ pointTypes, u.isVerbatim = true → u = drawnMark) ∧
      drawing.resolve (.reference "Shape") = .ok (drawnShape (.reference "Int")) ∧
      Setting.substitute ⟨drawing, fun _ _ => false, default⟩ ∅ (.reference "Point")
        (.reference "Point") = .ok (.tuple [.concrete "Int" ∅, drawnMark] ∅) ∧
      Setting.substitute ⟨drawing, fun _ _ => false, default⟩ ∅ (.reference "Shape")
        (.reference "Shape") = .ok (drawnShape (.concrete "Int" ∅)) := by
  decide +kernel

theorem drawing_static {S : List Ty} {ty : Ty} (hS : drawing.closes S = true)
    (hkinds : ∀ u ∈ S, u.isStatic = true ∧ u.isParametric = false) (hty : ty ∈ S) :
    drawing.Static ty := by
  refine ⟨fun u hu => (hkinds u (Registry.mem_of_reads hS hty hu)).1, ?_⟩
  intro head params attributes hu
  cases (hkinds _ (Registry.mem_of_reads hS hty hu)).2

/-- A point accepts the same before and after substitution. A shape does not: the name in its union
is opened. -/
theorem substitute_accepts_iff_drawing :
    (drawing.Static (.reference "Point") ∧
      Setting.substitute ⟨drawing, fun _ _ => false, default⟩ ∅ (.reference "Point")
        (.reference "Point") = .ok (.tuple [.concrete "Int" ∅, drawnMark] ∅) ∧
      ∀ b location implements,
        (∃ v, drawing.unify location (.tuple [.concrete "Int" ∅, drawnMark] ∅) b implements = .ok v)
          ↔ ∃ v, drawing.unify location (.reference "Point") b implements = .ok v) ∧
    drawing.Static (.reference "Shape") ∧
      Setting.substitute ⟨drawing, fun _ _ => false, default⟩ ∅ (.reference "Shape")
        (.reference "Shape") = .ok (drawnShape (.concrete "Int" ∅)) ∧
      ¬ ∀ b location implements,
        (∃ v, drawing.unify location (drawnShape (.concrete "Int" ∅)) b implements = .ok v)
          ↔ ∃ v, drawing.unify location (.reference "Shape") b implements = .ok v := by
  obtain ⟨hpoint, hshape, hkinds, hverbatim, hresolve, hpointed, hshaped⟩ := drawing_facts
  have hstatic : drawing.Static (.reference "Point") := drawing_static hpoint
    (fun u hu => hkinds u (List.mem_append_left _ hu)) List.mem_cons_self
  have hstatic' : drawing.Static (.reference "Shape") := drawing_static hshape
    (fun u hu => hkinds u (List.mem_append_right _ hu)) List.mem_cons_self
  refine ⟨⟨hstatic, hpointed, ?_⟩, hstatic', hshaped, fun haccepts => ?_⟩
  · refine (substitute_accepts_iff drawing (fun _ _ => false) default ∅ hstatic hpointed).2 ?_
    intro v hv hunion
    rw [hverbatim v (Registry.mem_of_unfolds hpoint List.mem_cons_self hv) hunion]
    exact .node rfl fun t ht => by cases ht
  · have hfree := (substitute_accepts_iff drawing (fun _ _ => false) default ∅ hstatic' hshaped).1
      haccepts _ (.single (.name rfl hresolve)) rfl
    cases (hfree.subject List.mem_cons_self).lookup?_eq

end TypeEngine

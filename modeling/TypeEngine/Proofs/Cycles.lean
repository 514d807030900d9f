import Mathlib.Logic.Relation
import TypeEngine.Proofs.Descent

/-!
# Cycles of names

Names refer to names. A reference that stands inside a union case is nominal: it needs no expansion
as long as it stands for a union. A registry whose names refer to each other in circles only through
union cases is therefore no reason to report a cyclic alias. Solving reports one nevertheless when
it comes back, from inside a union case, to a name that it is still expanding and that is no union
by itself, such as a list of trees whose nodes hold lists of trees.

`Registry.Reenters` says that solving comes back in this way. `cyclicAlias_of_acyclic` shows that
without circles outside union cases there is no other way to a cyclic alias, and that every such way
is an error. Whether it is met depends on the name that solving starts from:
`woodland` is a registry in which it is met from one name and not from the other.

Both directions follow a path of opened names (`Place.Opens`). A failed descent has such a path to
the place where it failed (`Place.exists_opens_of_failure?`), and a descent that succeeds has
succeeded at the end of every such path (`Place.Opens.succeeds`).
-/

namespace TypeEngine

open Relation

/-! ## Mentions -/

mutual

/-- The names that a type refers to in the parts that solving goes down to. Those inside union cases
count only with `inCases`. -/
def Ty.mentions (inCases : Bool) : Ty → List String
  | .reference name | .typeAlias name _ => [name]
  | .constructor _ union _ => [union]
  | .parametric head params _ => head.mentions inCases ++ mentionsAll inCases params
  | .function arguments _ _ => mentionsAll inCases arguments
  | .tuple elements _ => mentionsAll inCases elements
  | .union cases _ => if inCases then mentionsCases inCases cases else []
  | .impl _ ty | .labeled _ ty | .annotated _ ty => ty.mentions inCases
  | .parameter .. | .concrete .. | .numeric .. => []
  | .intersection .. | .trait .. | .method .. | .fixedTrait .. => []

def mentionsAll (inCases : Bool) : List Ty → List String
  | [] => []
  | t :: ts => t.mentions inCases ++ mentionsAll inCases ts

def mentionsCases (inCases : Bool) : List Case → List String
  | [] => []
  | ⟨_, params⟩ :: cs => mentionsAll inCases params ++ mentionsCases inCases cs

end

theorem mem_mentionsAll {b : Bool} {ts : List Ty} {name : String} :
    name ∈ mentionsAll b ts ↔ ∃ t ∈ ts, name ∈ t.mentions b := by
  induction ts with
  | nil => simp [mentionsAll]
  | cons t ts ih => simp [mentionsAll, ih]

theorem mem_mentionsCases {b : Bool} {cs : List Case} {name : String} :
    name ∈ mentionsCases b cs ↔ ∃ c ∈ cs, ∃ t ∈ c.params, name ∈ t.mentions b := by
  induction cs with
  | nil => simp [mentionsCases]
  | cons c cs ih =>
    obtain ⟨label, params⟩ := c
    simp [mentionsCases, ih, mem_mentionsAll]

namespace Ty

theorem mentions_of_target {b : Bool} {ty : Ty} {name : String} (h : ty.target? = some name) :
    ty.mentions b = [name] := by
  cases ty <;> first | cases h; rfl | cases h

@[simp] theorem mentions_withAttributes (b : Bool) (a : Attributes) (ty : Ty) :
    (ty.withAttributes a).mentions b = ty.mentions b := by
  induction ty with
  | impl trait implementation _ ih => rw [withAttributes, mentions, mentions, ih]
  | labeled label ty ih => rw [withAttributes, mentions, mentions, ih]
  | annotated directives ty ih => rw [withAttributes, mentions, mentions, ih]
  | _ => rfl

theorem mentions_subset (ty : Ty) : ty.mentions false ⊆ ty.mentions true := by
  have hall {ts : List Ty} (ih : ∀ t ∈ ts, t.mentions false ⊆ t.mentions true) :
      mentionsAll false ts ⊆ mentionsAll true ts := by
    intro name h
    obtain ⟨t, ht, h⟩ := mem_mentionsAll.1 h
    exact mem_mentionsAll.2 ⟨t, ht, ih t ht h⟩
  induction ty with
  | parametric head params attributes ihHead ih =>
    rw [mentions, mentions]
    exact List.append_subset.2 ⟨List.subset_append_of_subset_left _ ihHead,
      List.subset_append_of_subset_right _ (hall ih)⟩
  | function arguments scope attributes ih => exact hall ih
  | tuple elements attributes ih => exact hall ih
  | union cases attributes ih => simp [mentions]
  | impl trait implementation _ ih => exact ih
  | labeled label ty ih => exact ih
  | annotated directives ty ih => exact ih
  | _ => exact List.Subset.refl _

end Ty

/-! ## The graph of names -/

namespace Catalog

/-- The type of `name` mentions `other`. -/
def RefersTo (R : Catalog) (inCases : Bool) (name other : String) : Prop :=
  ∃ O t, R.find? name = some (O, t) ∧ other ∈ t.mentions inCases

theorem RefersTo.inCases {R : Catalog} {name other : String} (h : R.RefersTo false name other) :
    R.RefersTo true name other := by
  obtain ⟨O, t, hf, hm⟩ := h
  exact ⟨O, t, hf, t.mentions_subset hm⟩

variable {R C O : Catalog} {chain : List String} {b : Bool}

/-- What is mentioned at the end of a walk is referred to from a name at its start, unless the walk
starts at no name and it is mentioned there. -/
theorem Walk.refers (hR : R.Layered) {ty t : Ty} (h : Walk C chain ty O t) (hC : C.Under R)
    {other : String} (hm : other ∈ t.mentions b) :
    (∃ name ∈ ty.mentions b, TransGen (R.RefersTo b) name other) ∨
      ty.target? = none ∧ other ∈ ty.mentions b := by
  induction h with
  | @stop C chain ty hty =>
    refine .inr ⟨?_, hm⟩
    cases ty <;> first | rfl | cases hty
  | @reference C O P chain name target t _ hf _ ih =>
    have hP := (hR.of_under hC).under_of_find? hf
    have hname := hR.find?_of_under hC hf
    refine .inl ⟨name, List.mem_singleton_self name, ?_⟩
    rcases ih (hP.trans hC) hm with ⟨next, hnext, hgen⟩ | ⟨-, hm⟩
    · exact .head ⟨P, target, hname, hnext⟩ hgen
    · exact .single ⟨P, target, hname, hm⟩
  | typeAlias _ ih =>
    rw [Ty.addAttributes, Ty.mentions_withAttributes] at hm
    rcases ih hC hm with hleft | ⟨hnone, -⟩
    · exact .inl hleft
    · cases hnone
  | labeled _ ih =>
    rcases ih hC hm with hleft | ⟨-, hm⟩
    · exact .inl hleft
    · exact .inr ⟨rfl, hm⟩
  | @constructor C O chain label union attributes t hf =>
    exact .inl ⟨union, List.mem_singleton_self union, .single ⟨O, t, hR.find?_of_under hC hf, hm⟩⟩

theorem Walk.refers_of_target (hR : R.Layered) {ty t : Ty} {name : String}
    (h : Walk C [] ty O t) (hname : ty.target? = some name) (hC : C.Under R) {other : String}
    (hm : other ∈ t.mentions b) : TransGen (R.RefersTo b) name other := by
  rcases h.refers hR hC hm with ⟨first, hfirst, hgen⟩ | ⟨hnone, -⟩
  · rw [Ty.mentions_of_target hname] at hfirst
    rwa [List.mem_singleton.1 hfirst] at hgen
  · rw [hnone] at hname
    cases hname

/-- **Why a walk fails.** A name is not declared, or there is a circle of names outside union cases
behind the first one. -/
theorem Layered.resolveWithin_eq_error (hR : R.Layered) {ty : Ty} {w : Nat} {e : TypeError}
    (hC : C.Under R) (hw : ty.weight + C.unseen chain ≤ w)
    (hchain : ∀ x ∈ chain, ∀ y ∈ ty.mentions false, TransGen (R.RefersTo false) x y)
    (h : resolveWithin w C chain ty = .error e) :
    e.code = .typeNotFound ∨ e.code = .cyclicAlias ∧ ∃ y ∈ ty.mentions false, ∃ x,
      ReflTransGen (R.RefersTo false) y x ∧ TransGen (R.RefersTo false) x x := by
  induction w generalizing C chain ty with
  | zero =>
    have := ty.weight_pos
    omega
  | succ w ih =>
    have hCl := hR.of_under hC
    -- The invariant: every name on the chain refers to every name mentioned at hand.
    have hreference {name : String} (hw : C.unseen chain ≤ w)
        (hchain : ∀ x ∈ chain, TransGen (R.RefersTo false) x name)
        (h : resolveWithin (w + 1) C chain (.reference name) = .error e) :
        e.code = .typeNotFound ∨ e.code = .cyclicAlias ∧ ∃ x,
          ReflTransGen (R.RefersTo false) name x ∧ TransGen (R.RefersTo false) x x := by
      rw [resolveWithin_reference] at h
      split_ifs at h with hmem
      · cases h
        exact .inr ⟨rfl, name, .refl, hchain name hmem⟩
      · cases hf : C.find? name with
        | none =>
          rw [hf] at h
          cases h
          exact .inl rfl
        | some found =>
          obtain ⟨P, target⟩ := found
          rw [hf] at h
          have henter := hCl.unseen_enter hf hmem
          have hstep (y : String) (hy : y ∈ target.mentions false) : R.RefersTo false name y :=
            ⟨P, target, hR.find?_of_under hC hf, hy⟩
          have hchain' (x : String) (hx : x ∈ chain ++ [name]) (y : String)
              (hy : y ∈ target.mentions false) : TransGen (R.RefersTo false) x y := by
            rcases List.mem_append.1 hx with hx | hx
            · exact (hchain x hx).tail (hstep y hy)
            · rw [List.mem_singleton.1 hx]
              exact .single (hstep y hy)
          rcases ih ((hCl.under_of_find? hf).trans hC) (by omega) hchain' h with
            he | ⟨he, y, hy, x, hyx, hxx⟩
          · exact .inl he
          · exact .inr ⟨he, x, .head (hstep y hy) hyx, hxx⟩
    have hpos := ty.weight_pos
    cases ty with
    | reference name =>
      rw [Ty.weight] at hw
      rcases hreference (by omega) (fun x hx => hchain x hx name (by simp [Ty.mentions])) h with
        he | ⟨he, x, hx⟩
      · exact .inl he
      · exact .inr ⟨he, name, by simp [Ty.mentions], x, hx⟩
    | typeAlias name attributes =>
      rw [Ty.weight] at hw
      rw [resolveWithin_typeAlias, except_map_eq_error] at h
      rcases hreference (by omega) (fun x hx => hchain x hx name (by simp [Ty.mentions])) h with
        he | ⟨he, x, hx⟩
      · exact .inl he
      · exact .inr ⟨he, name, by simp [Ty.mentions], x, hx⟩
    | labeled label ty =>
      rw [Ty.weight] at hw
      rw [resolveWithin_labeled, except_map_eq_error] at h
      exact @ih C chain ty hC (by omega) hchain h
    | constructor label union attributes =>
      rw [resolveWithin, getOwned] at h
      cases hf : C.find? union with
      | none =>
        rw [hf] at h
        cases h
        exact .inl rfl
      | some found => rw [hf] at h; cases h
    | _ => cases h

/-- There are no circles among names whose mentions have a lower rank. -/
theorem Layered.not_transGen_of_rank (hR : R.Layered) (rank : String → Nat)
    (h : ∀ p ∈ R.declared, ∀ other ∈ p.2.mentions b, rank other < rank p.1) (name : String) :
    ¬ TransGen (R.RefersTo b) name name := by
  have hstep {x y : String} (hxy : R.RefersTo b x y) : rank y < rank x := by
    obtain ⟨O, t, hf, hm⟩ := hxy
    have hmem := (declared_sublist (hR.under_of_find? hf)).subset (hR.mem_declared hf)
    exact h (x, t) hmem y hm
  have hgen {x y : String} (hxy : TransGen (R.RefersTo b) x y) : rank y < rank x := by
    induction hxy with
    | single hxy => exact hstep hxy
    | tail _ hyz ih => exact Nat.lt_trans (hstep hyz) ih
  intro hname
  exact Nat.lt_irrefl _ (hgen hname)

end Catalog

/-! ## Paths of opened names -/

namespace Place

/-- `Opens p names q`: going down into parts and opening `names` one after another, solving comes
from `p` to `q`. -/
inductive Opens : Place → List String → Place → Prop
  | here (p : Place) : Opens p [] p
  | part {p q r : Place} {names : List String} : p.Part q → Opens q names r → Opens p names r
  | name {p r : Place} {name : String} {names : List String} {O : Catalog} {t : Ty} :
      p.ty.target? = some name → ¬ p.Kept name → p.catalog.Walk [] p.ty O t →
      Opens ⟨O, p.inUnion, t⟩ names r → Opens p (name :: names) r

variable {R : Catalog} {walk : Nat} {p q : Place} {names expanding : List String}

theorem Opens.inUnion (h : p.Opens names q) (hp : p.inUnion = true) : q.inUnion = true := by
  induction h with
  | here => exact hp
  | part hq _ ih =>
    refine ih ?_
    cases hq <;> first | rfl | exact hp
  | name _ _ _ _ ih => exact ih hp

theorem Opens.within (hR : R.Layered) (h : p.Opens names q) (hp : p.Within R walk) :
    q.Within R walk := by
  induction h with
  | here => exact hp
  | part hq _ ih => exact ih (hp.part hq)
  | name _ _ hwalk _ ih => exact ih (hp.opened hR hwalk)

theorem Part.mentions {b : Bool} (h : p.Part q) (hb : q.inUnion = true → b = true)
    {name : String} (hm : name ∈ q.ty.mentions b) : name ∈ p.ty.mentions b := by
  cases h with
  | head => exact List.mem_append_left _ hm
  | param ht => exact List.mem_append_right _ (mem_mentionsAll.2 ⟨_, ht, hm⟩)
  | argument ht => exact mem_mentionsAll.2 ⟨_, ht, hm⟩
  | element ht => exact mem_mentionsAll.2 ⟨_, ht, hm⟩
  | case hc ht =>
    cases hb rfl
    exact mem_mentionsCases.2 ⟨_, hc, _, ht, hm⟩
  | implementation => exact hm
  | labeled => exact hm
  | annotated => exact hm

/-- **Opened names refer to the name at the end of the path,** and so does a name at its start. On a
path outside union cases the references are outside union cases. -/
theorem Opens.refers (hR : R.Layered) {b : Bool} (h : p.Opens names q) (hp : p.Within R walk)
    {name : String} (hname : q.ty.target? = some name) (hb : q.inUnion = true → b = true) :
    (∀ x ∈ names, TransGen (R.RefersTo b) x name) ∧
      ∃ y ∈ p.ty.mentions b, ReflTransGen (R.RefersTo b) y name := by
  induction h with
  | here p =>
    refine ⟨by simp, name, ?_, .refl⟩
    rw [Ty.mentions_of_target hname]
    exact List.mem_singleton_self name
  | part hq hopens ih =>
    obtain ⟨hnames, y, hy, hgen⟩ := ih (hp.part hq) hname hb
    exact ⟨hnames, y, hq.mentions (fun hin => hb (hopens.inUnion hin)) hy, hgen⟩
  | @name p r first names O t hfirst _ hwalk hopens ih =>
    obtain ⟨hnames, y, hy, hgen⟩ := ih (hp.opened hR hwalk) hname hb
    have hstart : TransGen (R.RefersTo b) first name :=
      .trans_left (hwalk.refers_of_target hR hfirst hp.under hy) hgen
    refine ⟨fun x hx => ?_, first, ?_, hstart.to_reflTransGen⟩
    · rcases List.mem_cons.1 hx with rfl | hx
      · exact hstart
      · exact hnames x hx
    · rw [Ty.mentions_of_target hfirst]
      exact List.mem_singleton_self first

/-- **What succeeds, succeeds along every path:** a name at its end is kept or new. -/
theorem Opens.succeeds (hR : R.Layered) (h : p.Opens names q) (hp : p.Within R walk) {n : Nat}
    (hok : (p.outcome n walk expanding).failure? = none) {name : String}
    (hname : q.ty.target? = some name) : q.Kept name ∨ name ∉ expanding ++ names := by
  induction h generalizing n expanding with
  | here p =>
    cases n with
    | zero => cases hok
    | succ n =>
      rw [List.append_nil]
      exact (succeeds_target hname hok).imp_right And.left
  | part hq _ ih =>
    obtain ⟨m, hm⟩ := hq.succeeds hR hp hok
    exact ih (hp.part hq) hm hname
  | @name p r first names O t hfirst hnot hwalk _ ih =>
    cases n with
    | zero => cases hok
    | succ n =>
      rcases succeeds_target hfirst hok with hkept | ⟨-, P, u, hwalk', hrest⟩
      · exact absurd hkept hnot
      · obtain ⟨rfl, rfl⟩ := hwalk.unique hwalk'
        have := ih (hp.opened hR hwalk) hrest hname
        rwa [List.append_assoc] at this

/-- **Where a descent fails.** There is a path to a name that does not resolve, or that is opened
already and is not kept. -/
theorem exists_opens_of_failure? (hR : R.Layered) (hp : p.Within R walk) {n : Nat}
    {e : TypeError} (h : (p.outcome n walk expanding).failure? = some (some e)) :
    ∃ names q name, p.Opens names q ∧ q.ty.target? = some name ∧
      (q.catalog.resolveWithin walk [] q.ty = .error e ∨
        ¬ q.Kept name ∧ name ∈ expanding ++ names ∧
          e = .cyclicAlias (expanding ++ names) name) := by
  -- By strong induction, because the way to a head takes two steps at once.
  induction n using Nat.strongRecOn generalizing p expanding with
  | ind n ih =>
    obtain ⟨n, rfl⟩ : ∃ m, n = m + 1 := by
      cases n with
      | zero => cases h
      | succ n => exact ⟨n, rfl⟩
    cases hname : p.ty.target? with
    | none =>
      obtain ⟨q, m, hq, hle, -, hfail⟩ := exists_part_of_failure? hR hp hname h
      obtain ⟨names, r, name, hopens, hrest⟩ := ih m (by omega) (hp.part hq) hfail
      exact ⟨names, r, name, .part hq hopens, hrest⟩
    | some first =>
      rcases failure?_target hname h with
        ⟨e', he, hresolve⟩ | ⟨hnot, ⟨hmem, he⟩ | ⟨-, O, t, hwalk, hfail⟩⟩
      · cases he
        exact ⟨[], p, first, .here p, hname, .inl hresolve⟩
      · cases he
        refine ⟨[], p, first, .here p, hname, .inr ?_⟩
        rw [List.append_nil]
        exact ⟨hnot, hmem, rfl⟩
      · obtain ⟨names, r, name, hopens, hend, hrest⟩ :=
          ih n (by omega) (hp.opened hR hwalk) hfail
        refine ⟨first :: names, r, name, .name hname hnot hwalk hopens, hend, ?_⟩
        rwa [List.append_assoc] at hrest

end Place

/-! ## Cyclic aliases -/

namespace Registry

/-- The type leads to the name: by references in union cases or outside. -/
def LeadsTo (R : Registry) (T : Ty) (name : String) : Prop :=
  ∃ y ∈ T.mentions true, ReflTransGen (R.RefersTo true) y name

/-- From inside a union case, solving comes back to a name that it is expanding and that does not
stand for a union. -/
def Reenters (R : Registry) (T : Ty) : Prop :=
  ∃ names q name, Place.Opens ⟨R.toCatalog, false, T⟩ names q ∧ q.ty.target? = some name ∧
    q.inUnion = true ∧ ¬ q.catalog.StandsForUnion name ∧ name ∈ names

variable {R : Registry}

/-- **Why solving fails.** A name is not declared, or there is a circle of names outside union cases
that the type leads to, or solving opens a name that it is expanding already. -/
theorem solve_eq_error (hR : R.toCatalog.Layered) {T : Ty} {e : TypeError}
    (h : R.solve T = .error e) :
    e.code = .typeNotFound ∨ e.code = .cyclicAlias ∧
      ((∃ x, R.LeadsTo T x ∧ TransGen (R.RefersTo false) x x) ∨
        ∃ names q name, Place.Opens ⟨R.toCatalog, false, T⟩ names q ∧ q.ty.target? = some name ∧
          ¬ q.Kept name ∧ name ∈ names) := by
  have hfail : (Place.outcome ⟨R.toCatalog, false, T⟩ (R.descentFuel T) (R.walkFuel T) []).failure?
      = some (some e) := by
    show (R.solve T).failure? = some (some e)
    rw [h]
    rfl
  obtain ⟨names, q, name, hopens, hname, hend⟩ :=
    Place.exists_opens_of_failure? hR (R.within T) hfail
  have hq := hopens.within hR (R.within T)
  rcases hend with hresolve | ⟨hnot, hmem, rfl⟩
  · have hw : q.ty.weight + q.catalog.unseen [] ≤ R.walkFuel T := by
      have := Ty.weight_of_target hname
      have := (hq.layered hR).unseen_le_weight []
      have := hq.weight_lt hR
      omega
    rcases hR.resolveWithin_eq_error hq.under hw (by simp) hresolve with
      he | ⟨he, y, hy, x, hyx, hxx⟩
    · exact .inl he
    · rw [Ty.mentions_of_target hname, List.mem_singleton] at hy
      subst hy
      obtain ⟨-, z, hz, hzy⟩ := hopens.refers hR (R.within T) (b := true) hname fun _ => rfl
      refine .inr ⟨he, .inl ⟨x, ⟨z, hz, hzy.trans ?_⟩, hxx⟩⟩
      exact ReflTransGen.mono (fun _ _ => Catalog.RefersTo.inCases) y x hyx
  · exact .inr ⟨rfl, .inr ⟨names, q, name, hopens, hname, hnot, hmem⟩⟩

/-- Coming back to a name that is not kept is an error. -/
theorem solve_ne_ok_of_opens (hR : R.toCatalog.Layered) {T : Ty} {names : List String} {q : Place}
    {name : String} (hopens : Place.Opens ⟨R.toCatalog, false, T⟩ names q)
    (hname : q.ty.target? = some name) (hnot : ¬ q.Kept name) (hmem : name ∈ names) (S : Ty) :
    R.solve T ≠ .ok S := by
  intro h
  have hok : (R.solve T).failure? = none := by
    rw [h]
    rfl
  rcases hopens.succeeds hR (R.within T) hok hname with hkept | hnew
  · exact hnot hkept
  · exact hnew hmem

end Registry

/-- **Cyclic aliases without circles outside union cases.** If the names that a type leads to make
no circle outside union cases, then a cyclic alias is reported only if solving comes back, from
inside a union case, to a name that it is expanding and that stands for no union. And where it does,
solving is an error. -/
theorem cyclicAlias_of_acyclic {B : Built} (hB : BuiltInLayers B) {T : Ty}
    (hT : ∀ name, B.value.LeadsTo T name → ¬ TransGen (B.value.RefersTo false) name name) :
    ((∃ e, B.value.solve T = .error e ∧ e.code = .cyclicAlias) → B.value.Reenters T) ∧
      (B.value.Reenters T → ∃ e, B.value.solve T = .error e ∧
        (e.code = .cyclicAlias ∨ e.code = .typeNotFound)) := by
  have hR := hB.layered
  constructor
  · rintro ⟨e, h, hcode⟩
    rcases Registry.solve_eq_error hR h with
      hnone | ⟨-, ⟨x, hx, hxx⟩ | ⟨names, q, name, hopens, hname, hnot, hmem⟩⟩
    · rw [hnone] at hcode
      cases hcode
    · exact absurd hxx (hT x hx)
    · by_cases hin : q.inUnion = true
      · exact ⟨names, q, name, hopens, hname, hin, fun hunion => hnot ⟨hin, hunion⟩, hmem⟩
      · -- A path that never enters a union case is a circle outside union cases.
        have hin : q.inUnion = true → false = true := fun h => absurd h hin
        obtain ⟨hcircle, -⟩ := hopens.refers hR (B.value.within T) hname hin
        have hlead := (hopens.refers hR (B.value.within T) (b := true) hname fun _ => rfl).2
        exact absurd (hcircle name hmem) (hT name hlead)
  · rintro ⟨names, q, name, hopens, hname, -, hnot, hmem⟩
    have hne := Registry.solve_ne_ok_of_opens hR hopens hname (fun hkept => hnot hkept.2) hmem
    cases h : B.value.solve T with
    | ok S => exact absurd h (hne S)
    | outOfFuel => exact absurd h (Registry.solve_ne_outOfFuel hR T)
    | error e =>
      refine ⟨e, rfl, ?_⟩
      rcases Registry.solve_eq_error hR h with hcode | ⟨hcode, -⟩
      · exact .inr hcode
      · exact .inl hcode

/-- Trees whose nodes hold forests, which are lists of trees. -/
def woodland : Built :=
  (Builder.new.declareAll
    [.concrete "Int",
      .parametric "List" [.parameter "a"],
      .type "Forest" ∅ [] (.parametric "List" [.reference "Tree"]),
      .union "Tree" [⟨"Node", [.reference "Int", .reference "Forest"]⟩]]).2.build

theorem woodland_builtInLayers : BuiltInLayers woodland :=
  .root (lawful_registrations _)

/-- Outside union cases, only the forest and the case label mention names. -/
theorem woodland_acyclic (name : String) :
    ¬ TransGen (woodland.value.RefersTo false) name name := by
  refine woodland_builtInLayers.layered.not_transGen_of_rank
    (fun name => if name = "Forest" ∨ name = "Node" then 1 else 0) ?_ name
  decide +kernel

/-- In the woodland, a forest is reported as a cyclic alias although its only circle goes through a
union case. A tree is not. -/
theorem cyclicAlias_of_acyclic_woodland :
    (∀ name, woodland.value.LeadsTo (.reference "Forest") name →
      ¬ TransGen (woodland.value.RefersTo false) name name) ∧
    woodland.value.solve (.reference "Forest")
      = .error (.cyclicAlias ["Forest", "Tree"] "Forest") ∧
    woodland.value.Reenters (.reference "Forest") ∧
    ∃ S, woodland.value.solve (.reference "Tree") = .ok S := by
  have hT (name : String) (_ : woodland.value.LeadsTo (.reference "Forest") name) :=
    woodland_acyclic name
  have h : woodland.value.solve (.reference "Forest")
      = .error (.cyclicAlias ["Forest", "Tree"] "Forest") := by decide +kernel
  refine ⟨hT, h, ?_, ?_⟩
  · exact (cyclicAlias_of_acyclic woodland_builtInLayers hT).1 ⟨_, h, rfl⟩
  · refine ⟨.union [⟨"Node", [.concrete "Int" ∅,
      .parametric (.concrete "List" ∅) [.reference "Tree"] ∅]⟩] ∅, ?_⟩
    decide +kernel

end TypeEngine

import Mathlib.Data.List.Forall2
import Mathlib.Data.Option.Basic
import Mathlib.Order.Basic
import TypeEngine.Json.Ty
import TypeEngine.Proofs.Canonical

/-!
# Reading attribute lists in any order

A set of attributes is written as an array. Two documents are relistings of each other when they
differ only in the order and the repeats of the arrays in their attribute fields
(`Json.Relisted`). No reader can tell them apart, each because the readers that it calls cannot
(`Agree`), down to the sets of attributes, where equal members make equal sets
(`Json.attributes_of_sameElements`).

The fuel of a reader is the size of its document, and relistings differ in size. The readers are
therefore compared for any two amounts of fuel that are enough (`tyWithin_relisted`). This also says
that more fuel never changes what is read.
-/

namespace TypeEngine

variable {α β : Type}

/-! ## Sets of attributes -/

/-- Reading each element gives the elements read, if all of them can be read. -/
theorem mapM_eq_filterMap (f : α → Option β) (l : List α) :
    l.mapM f = if ∀ a ∈ l, (f a).isSome then some (l.filterMap f) else none := by
  induction l with
  | nil => rfl
  | cons a l ih =>
    rw [List.mapM_cons, ih]
    cases h : f a with
    | none => simp [h]
    | some b =>
      have hcons : (∀ c ∈ a :: l, (f c).isSome) ↔ ∀ c ∈ l, (f c).isSome := by simp [h]
      rw [List.filterMap_cons_some h]
      simp only [hcons]
      split_ifs <;> rfl

namespace Json

/-- The arrays have the same elements, in any order and with any repeats. -/
def SameElements (vs ws : List Json) : Prop :=
  ∀ v, v ∈ vs ↔ v ∈ ws

/-- **The members of a set may be listed in any order and with repeats.** -/
theorem attributes_of_sameElements {vs ws : List Json} (h : SameElements vs ws) :
    Attributes.ofJson? (.arr vs) = Attributes.ofJson? (.arr ws) := by
  have hall : (∀ v ∈ vs, (Attribute.ofJson? v).isSome) ↔ ∀ w ∈ ws, (Attribute.ofJson? w).isSome :=
    forall_congr' fun v => by rw [h v]
  have hset : Attributes.ofList (vs.filterMap Attribute.ofJson?)
      = Attributes.ofList (ws.filterMap Attribute.ofJson?) := by
    refine Attributes.ext fun a => ?_
    simp only [Attributes.mem_ofList, List.mem_filterMap, h _]
  simp only [Attributes.ofJson?, arr?, Option.bind_eq_bind, Option.bind_some, mapM_eq_filterMap,
    hall]
  split_ifs
  · exact congrArg some hset
  · rfl

/-! ## Relistings -/

mutual

/-- The documents differ only in how they list attributes. -/
inductive Relisted : Json → Json → Prop
  | same (v : Json) : Relisted v v
  | arr {vs ws : List Json} : List.Forall₂ Relisted vs ws → Relisted (.arr vs) (.arr ws)
  | obj {fs gs : List (String × Json)} : List.Forall₂ RelistedField fs gs →
      Relisted (.obj fs) (.obj gs)

/-- The fields differ only in how they list attributes. -/
inductive RelistedField : String × Json → String × Json → Prop
  | same (p : String × Json) : RelistedField p p
  | attributes {vs ws : List Json} : SameElements vs ws →
      RelistedField ("attributes", .arr vs) ("attributes", .arr ws)
  | field {key : String} {v w : Json} : key ≠ "attributes" → Relisted v w →
      RelistedField (key, v) (key, w)

end

/-- The readers give the same on relistings that are smaller than the given documents. -/
def Agree (f g : Json → Option α) (v w : Json) : Prop :=
  ∀ x y, Relisted x y → x.size < v.size → y.size < w.size → f x = g y

theorem Agree.mono {f g : Json → Option α} {v w v' w' : Json} (h : Agree f g v w)
    (hv : v'.size < v.size) (hw : w'.size < w.size) : Agree f g v' w' :=
  fun x y hxy hx hy => h x y hxy (hx.trans hv) (hy.trans hw)

/-! ## Parts of a document -/

theorem size_le_sizeAll {v : Json} {vs : List Json} (h : v ∈ vs) : v.size ≤ sizeAll vs := by
  induction vs with
  | nil => cases h
  | cons w vs ih =>
    rw [sizeAll]
    rcases List.mem_cons.1 h with rfl | h
    · omega
    · exact (ih h).trans (by omega)

theorem size_lt_of_field? {v x : Json} {key : String} (h : v.field? key = some x) :
    x.size < v.size := by
  cases v with
  | obj fields =>
    have hle : x.size ≤ sizeFields fields := by
      induction fields with
      | nil => cases h
      | cons p fields ih =>
        obtain ⟨k, v⟩ := p
        rw [sizeFields]
        rw [field?, lookup_cons] at h
        split_ifs at h
        · cases h
          omega
        · exact (ih h).trans (by omega)
    rw [size]
    omega
  | _ => cases h

theorem relisted_refl_all (vs : List Json) : List.Forall₂ Relisted vs vs :=
  List.forall₂_same.2 fun v _ => .same v

namespace Relisted

variable {v w : Json}

theorem field? (h : Relisted v w) {key : String} (hkey : key ≠ "attributes") :
    Option.Rel Relisted (v.field? key) (w.field? key) := by
  cases h with
  | same =>
    cases v.field? key with
    | none => exact .none
    | some x => exact .some (.same x)
  | arr => exact .none
  | obj h =>
    rw [Json.field?, Json.field?]
    induction h with
    | nil => exact .none
    | @cons p _ _ _ hfield _ ih =>
      cases hfield with
      | same =>
        obtain ⟨k, x⟩ := p
        rw [lookup_cons, lookup_cons]
        split_ifs
        · exact .some (.same x)
        · exact ih
      | attributes =>
        rw [lookup_cons, lookup_cons, if_neg hkey, if_neg hkey]
        exact ih
      | field _ hxy =>
        rw [lookup_cons, lookup_cons]
        split_ifs
        · exact .some hxy
        · exact ih

/-- What is read from a field other than the attributes. -/
theorem bind_field? (h : Relisted v w) {key : String} (hkey : key ≠ "attributes")
    {f g : Json → Option α} (hfg : Agree f g v w) :
    (v.field? key >>= f) = (w.field? key >>= g) := by
  have hrel := h.field? hkey
  cases hv : v.field? key with
  | none =>
    rw [hv] at hrel
    cases hw : w.field? key with
    | none => rfl
    | some y =>
      rw [hw] at hrel
      cases hrel
  | some x =>
    rw [hv] at hrel
    cases hw : w.field? key with
    | none =>
      rw [hw] at hrel
      cases hrel
    | some y =>
      rw [hw] at hrel
      cases hrel with
      | some hxy => exact hfg x y hxy (size_lt_of_field? hv) (size_lt_of_field? hw)

theorem str? (h : Relisted v w) : v.str? = w.str? := by
  cases h <;> rfl

theorem bool? (h : Relisted v w) : v.bool? = w.bool? := by
  cases h <;> rfl

theorem text? (h : Relisted v w) {key : String} (hkey : key ≠ "attributes") :
    v.text? key = w.text? key :=
  h.bind_field? hkey fun _ _ hxy _ _ => hxy.str?

/-- What is read from an array, element by element. -/
theorem bind_arr? (h : Relisted v w) {f g : Json → Option α} (hfg : Agree f g v w) :
    (v.arr? >>= List.mapM f) = (w.arr? >>= List.mapM g) := by
  have hlist {vs ws : List Json} (hrel : List.Forall₂ Relisted vs ws)
      (hall : ∀ x ∈ vs, ∀ y ∈ ws, Relisted x y → f x = g y) : vs.mapM f = ws.mapM g := by
    induction hrel with
    | nil => rfl
    | cons hxy _ ih =>
      rw [List.mapM_cons, List.mapM_cons, hall _ List.mem_cons_self _ List.mem_cons_self hxy,
        ih fun x hx y hy => hall x (List.mem_cons_of_mem _ hx) y (List.mem_cons_of_mem _ hy)]
  have hsize {vs : List Json} {x : Json} (hx : x ∈ vs) : x.size < (Json.arr vs).size := by
    have := size_le_sizeAll hx
    rw [size]
    omega
  cases h with
  | same =>
    cases v with
    | arr vs =>
      exact hlist (relisted_refl_all vs) fun x hx y hy hxy => hfg x y hxy (hsize hx) (hsize hy)
    | _ => rfl
  | arr hrel => exact hlist hrel fun x hx y hy hxy => hfg x y hxy (hsize hx) (hsize hy)
  | obj => rfl

theorem list? (h : Relisted v w) {key : String} (hkey : key ≠ "attributes")
    {f g : Json → Option α} (hfg : Agree f g v w) : v.list? f key = w.list? g key :=
  h.bind_field? hkey fun _ _ hxy hx hy => hxy.bind_arr? (hfg.mono hx hy)

theorem attributes? (h : Relisted v w) : v.attributes? = w.attributes? := by
  cases h with
  | same => rfl
  | arr => rfl
  | obj h =>
    rw [Json.attributes?, Json.attributes?, Json.field?, Json.field?]
    induction h with
    | nil => rfl
    | @cons p _ _ _ hfield _ ih =>
      cases hfield with
      | same =>
        obtain ⟨k, x⟩ := p
        rw [lookup_cons, lookup_cons]
        split_ifs
        · rfl
        · exact ih
      | attributes hsame =>
        rw [lookup_cons, lookup_cons, if_pos rfl, if_pos rfl]
        exact attributes_of_sameElements hsame
      | field hkey =>
        rw [lookup_cons, lookup_cons, if_neg hkey.symm, if_neg hkey.symm]
        exact ih

/-! ## Small values -/

theorem origin? (h : Relisted v w) : Origin.ofJson? v = Origin.ofJson? w := by
  cases h <;> rfl

theorem numeric? (h : Relisted v w) : Numeric.ofJson? v = Numeric.ofJson? w := by
  rw [Numeric.ofJson?, Numeric.ofJson?, h.str?]

theorem scope? (h : Relisted v w) : Scope.ofJson? v = Scope.ofJson? w := by
  have hone (key : String) (x : Json) : Scope.ofJson? (.obj [(key, x)])
      = if key = "Trait" then x.str?.map .trait else none := by
    split_ifs with hkey
    · subst hkey
      cases x <;> rfl
    · simp [Scope.ofJson?, hkey]
  have hmore (p q : String × Json) (fs : List (String × Json)) :
      Scope.ofJson? (.obj (p :: q :: fs)) = none := by
    simp [Scope.ofJson?]
  cases h with
  | same => rfl
  | arr => rfl
  | obj h =>
    rcases h with _ | ⟨hfield, _ | _⟩
    · rfl
    · cases hfield with
      | same => rfl
      | attributes => rfl
      | field _ hxy => rw [hone, hone, hxy.str?]
    · rw [hmore, hmore]

theorem pair? (h : Relisted v w) : Directive.pairOfJson? v = Directive.pairOfJson? w := by
  have hone (a : Json) : Directive.pairOfJson? (.arr [a]) = none := by
    cases a <;> rfl
  have htwo (a b : Json) : Directive.pairOfJson? (.arr [a, b])
      = a.str?.bind fun first => b.str?.bind fun second => some (first, second) := by
    cases a <;> cases b <;> rfl
  have hmore (a b c : Json) (vs : List Json) :
      Directive.pairOfJson? (.arr (a :: b :: c :: vs)) = none := by
    simp [Directive.pairOfJson?]
  cases h with
  | same => rfl
  | obj => rfl
  | arr h =>
    rcases h with _ | ⟨ha, _ | ⟨hb, _ | _⟩⟩
    · rfl
    · rw [hone, hone]
    · rw [htwo, htwo, ha.str?, hb.str?]
    · rw [hmore, hmore]

theorem directive? (h : Relisted v w) : Directive.ofJson? v = Directive.ofJson? w := by
  refine h.bind_field? (by decide) fun x y hxy _ _ => ?_
  rw [hxy.str?]
  refine bind_congr fun name => h.bind_field? (by decide) fun x y hxy _ _ => ?_
  rw [← bind_assoc, ← bind_assoc, hxy.bind_arr? fun _ _ hab _ _ => hab.pair?]

/-! ## Types -/

variable {go go' : Json → Option Ty}

theorem case? (h : Relisted v w) (hgo : Agree go go' v w) : v.case? go = w.case? go' := by
  rw [Json.case?, Json.case?, h.text? (by decide), h.list? (by decide) hgo]

theorem method? (h : Relisted v w) (hgo : Agree go go' v w) : v.method? go = w.method? go' := by
  rw [Json.method?, Json.method?, h.text? (by decide), h.text? (by decide),
    h.list? (by decide) hgo, h.attributes?]
  refine bind_congr fun traitName => bind_congr fun name => bind_congr fun arguments =>
    h.bind_field? (by decide) fun x y hxy _ _ => ?_
  rw [hxy.bool?]

theorem trait? (h : Relisted v w) (hgo : Agree go go' v w) : v.trait? go = w.trait? go' := by
  rw [Json.trait?, Json.trait?, h.text? (by decide), h.text? (by decide),
    h.list? (by decide) fun x y hxy hx hy => hxy.method? (hgo.mono hx hy), h.attributes?]

theorem content? (h : Relisted v w) (hgo : Agree go go' v w) (tag : String) :
    v.content? go tag = w.content? go' tag := by
  have hattributes := h.attributes?
  -- The cases are those of the reader, in its order.
  unfold Json.content?
  split
  · rw [h.text? (by decide)]
    refine bind_congr fun name => h.bind_field? (by decide) fun x y hxy _ _ => ?_
    rw [hxy.origin?]
  · rw [h.text? (by decide), hattributes]
  · rw [h.text? (by decide)]
  · rw [h.text? (by decide), hattributes]
  · refine h.bind_field? (by decide) fun x y hxy hx hy => ?_
    rw [hgo x y hxy hx hy, h.list? (by decide) hgo, hattributes]
  · rw [h.list? (by decide) hgo, hattributes]
    refine bind_congr fun arguments => h.bind_field? (by decide) fun x y hxy _ _ => ?_
    rw [hxy.scope?]
  · rw [h.list? (by decide) hgo, hattributes]
  · rw [h.list? (by decide) fun x y hxy hx hy => hxy.case? (hgo.mono hx hy), hattributes]
  · rw [h.list? (by decide) hgo, hattributes]
  · rw [h.trait? hgo]
  · rw [h.method? hgo]
  · refine h.bind_field? (by decide) fun x y hxy hx hy => ?_
    rw [hxy.trait? (hgo.mono hx hy)]
    refine bind_congr fun trait => h.bind_field? (by decide) fun x y hxy hx hy => ?_
    rw [hgo x y hxy hx hy]
  · rw [h.trait? hgo]
  · rw [h.text? (by decide), h.text? (by decide), hattributes]
  · rw [h.text? (by decide)]
    refine bind_congr fun label => h.bind_field? (by decide) fun x y hxy hx hy => ?_
    rw [hgo x y hxy hx hy]
  · rw [h.list? (by decide) fun x y hxy _ _ => hxy.directive?]
    refine bind_congr fun directives => h.bind_field? (by decide) fun x y hxy hx hy => ?_
    rw [hgo x y hxy hx hy]
  · refine h.bind_field? (by decide) fun x y hxy _ _ => ?_
    rw [hxy.numeric?, hattributes]
  · rfl

theorem obj_inv {fs : List (String × Json)} (h : Relisted (.obj fs) w) :
    ∃ gs, w = .obj gs ∧ List.Forall₂ RelistedField fs gs := by
  cases h with
  | same => exact ⟨fs, rfl, List.forall₂_same.2 fun p _ => .same p⟩
  | obj h => exact ⟨_, rfl, h⟩

end Relisted

theorem size_pos (v : Json) : 0 < v.size := by
  cases v <;> simp [size]

/-- A tagged document is read as its content. -/
theorem tyWithin_tagged (n : Nat) (tag : String) (content : Json) :
    (Json.tagged tag content).tyWithin (n + 1) = content.content? (tyWithin n) tag :=
  rfl

theorem size_tagged (tag : String) (content : Json) :
    (Json.tagged tag content).size = content.size + 1 :=
  rfl

/-- No kind of type has the tag of an attribute field. -/
theorem tyWithin_attributes (n : Nat) (content : Json) :
    (Json.tagged "attributes" content).tyWithin (n + 1) = none := by
  rw [tyWithin_tagged, content?]
  all_goals simp

/-- **Relistings are read alike,** by all readers that have enough fuel. -/
theorem tyWithin_relisted {n m : Nat} {v w : Json} (h : Relisted v w) (hn : v.size ≤ n)
    (hm : w.size ≤ m) : v.tyWithin n = w.tyWithin m := by
  induction n generalizing m v w with
  | zero => exact absurd v.size_pos (by omega)
  | succ n ih =>
    obtain ⟨m, rfl⟩ : ∃ k, m = k + 1 := ⟨m - 1, by have := w.size_pos; omega⟩
    -- What a document with one field holds is read by what is left of the fuel.
    have hcontent {tag : String} {x y : Json} (hxy : Relisted x y)
        (hn : (Json.tagged tag x).size ≤ n + 1) (hm : (Json.tagged tag y).size ≤ m + 1) :
        (Json.tagged tag x).tyWithin (n + 1) = (Json.tagged tag y).tyWithin (m + 1) := by
      rw [size_tagged] at hn hm
      rw [tyWithin_tagged, tyWithin_tagged]
      exact hxy.content? (fun a b hab ha hb => ih hab (by omega) (by omega)) tag
    cases v with
    | obj fs =>
      obtain ⟨gs, rfl, hfields⟩ := h.obj_inv
      rcases hfields with _ | ⟨hfield, _ | _⟩
      · rfl
      · cases hfield with
        | same => exact hcontent (.same _) hn hm
        | attributes => exact (tyWithin_attributes n _).trans (tyWithin_attributes m _).symm
        | field _ hxy => exact hcontent hxy hn hm
      · rfl
    | _ => cases h <;> rfl

end Json

/-- **Relisted attributes do not change what is read.** -/
theorem Ty.ofJson?_relisted {v w : Json} (h : v.Relisted w) : Ty.ofJson? v = Ty.ofJson? w :=
  Json.tyWithin_relisted h (Nat.le_refl _) (Nat.le_refl _)

end TypeEngine

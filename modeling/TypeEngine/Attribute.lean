import TypeEngine.Table

/-!
# Attributes

Attributes are metadata carried by types: whether a symbol is native, exported, impure and so on,
and the names it has in other languages. They never change what a type *is*: equality of types
passes over them.

An `Attributes` value is a finite set. It is kept as a list in attribute order (the flags as
declared below, then the name tables, compared pair by pair), so equal sets are equal values and
the listed order is the one that answers show. `mem_insert` and `mem_union` give its meaning.
-/

namespace TypeEngine

open Std

/-- One piece of metadata. -/
inductive Attribute where
  | native
  | exported
  | internal
  | impure
  | constant
  | traitMethod
  | name (names : Table String)
deriving DecidableEq

namespace Attribute

/-- Position among the attribute kinds. -/
def rank : Attribute → Nat
  | .native => 0
  | .exported => 1
  | .internal => 2
  | .impure => 3
  | .constant => 4
  | .traitMethod => 5
  | .name _ => 6

/-- The pairs of a name attribute; no other attribute has any. -/
def pairs : Attribute → List (String × String)
  | .name names => names.entries
  | _ => []

/-- Compare two pairs by key, then by value. -/
def comparePairs : String × String → String × String → Ordering :=
  compareLex (compareOn Prod.fst) (compareOn Prod.snd)

/-- Attributes compare by kind; two name attributes compare as lists of pairs. -/
def cmp : Attribute → Attribute → Ordering :=
  compareLex (compareOn rank)
    fun a b => List.compareLex comparePairs a.pairs b.pairs

instance : TransCmp comparePairs := by
  unfold comparePairs
  infer_instance

instance : LawfulEqCmp comparePairs where
  eq_of_compare {a b} h := by
    simp only [comparePairs, compareLex_eq_eq, compareOn] at h
    exact Prod.ext (LawfulEqOrd.eq_of_compare h.1) (LawfulEqOrd.eq_of_compare h.2)

instance : TransCmp fun a b : Attribute => List.compareLex comparePairs a.pairs b.pairs where
  eq_swap {a b} := by
    have : OrientedCmp (List.compareLex comparePairs) := inferInstance
    exact this.eq_swap
  isLE_trans {a b c} := by
    have : TransCmp (List.compareLex comparePairs) := inferInstance
    exact this.isLE_trans

instance : TransCmp cmp := by
  unfold cmp
  infer_instance

instance : LawfulEqCmp cmp where
  eq_of_compare {a b} h := by
    simp only [cmp, compareLex_eq_eq, compareOn] at h
    have hr := LawfulEqOrd.eq_of_compare h.1
    have hp := LawfulEqCmp.eq_of_compare h.2
    cases a <;> cases b <;> simp_all [rank, pairs]
    rename_i s t
    cases s
    cases t
    simp_all

/-- The name that a name attribute gives for a target language. -/
def nameFor? (target : String) : Attribute → Option String
  | .name names => names.get? target
  | _ => none

end Attribute

/-- A finite set of attributes, listed in attribute order. -/
structure Attributes where
  toList : List Attribute
  increasing : Increasing Attribute.cmp toList
deriving DecidableEq

namespace Attributes

/-- No attribute at all. -/
def none : Attributes :=
  ⟨[], increasing_nil⟩

instance : EmptyCollection Attributes := ⟨none⟩

instance : Inhabited Attributes := ⟨none⟩

instance : Membership Attribute Attributes := ⟨fun s a => a ∈ s.toList⟩

instance (a : Attribute) (s : Attributes) : Decidable (a ∈ s) :=
  inferInstanceAs (Decidable (a ∈ s.toList))

/-- Whether an attribute is in the set. -/
def contains (s : Attributes) (a : Attribute) : Bool :=
  decide (a ∈ s)

/-- Add one attribute. -/
def insert (s : Attributes) (a : Attribute) : Attributes :=
  ⟨insertBy Attribute.cmp a s.toList, increasing_insertBy a s.increasing⟩

/-- The attributes of either set. -/
def union (s t : Attributes) : Attributes :=
  ⟨insertAllBy Attribute.cmp s.toList t.toList, increasing_insertAllBy _ s.increasing⟩

/-- The set of a list's members. -/
def ofList (l : List Attribute) : Attributes :=
  ⟨insertAllBy Attribute.cmp [] l, increasing_insertAllBy l increasing_nil⟩

/-- The number of attributes. -/
def size (s : Attributes) : Nat :=
  s.toList.length

/-- Whether the set has no member. -/
def isEmpty (s : Attributes) : Bool :=
  s.toList.isEmpty

/-- The name for a target language: that of the first name attribute which has one. -/
def nameFor? (s : Attributes) (target : String) : Option String :=
  s.toList.findSome? (Attribute.nameFor? target)

/-! ## Membership -/

theorem mem_insertBy {a b : Attribute} {l : List Attribute} :
    b ∈ insertBy Attribute.cmp a l ↔ b = a ∨ b ∈ l := by
  induction l with
  | nil => simp [insertBy]
  | cons c l ih =>
    rw [insertBy]
    split
    · simp
    next h =>
      have : a = c := LawfulEqCmp.eq_of_compare h
      simp [this]
    · simp only [List.mem_cons, ih]
      grind

@[simp] theorem mem_insert {s : Attributes} {a b : Attribute} :
    b ∈ s.insert a ↔ b = a ∨ b ∈ s :=
  mem_insertBy

theorem mem_insertAllBy {a : Attribute} {l r : List Attribute} :
    a ∈ insertAllBy Attribute.cmp r l ↔ a ∈ r ∨ a ∈ l := by
  induction l generalizing r with
  | nil => simp [insertAllBy]
  | cons b l ih =>
    rw [insertAllBy, ih, mem_insertBy, List.mem_cons]
    grind

@[simp] theorem mem_union {s t : Attributes} {a : Attribute} :
    a ∈ s.union t ↔ a ∈ s ∨ a ∈ t :=
  mem_insertAllBy

@[simp] theorem mem_ofList {l : List Attribute} {a : Attribute} : a ∈ ofList l ↔ a ∈ l :=
  mem_insertAllBy.trans (by simp)

end Attributes

end TypeEngine

import TypeEngine.Sorted

/-!
# Finite maps with text keys

A `Table α` holds at most one value per key and lists its pairs by key, in code point order. Two
tables with the same contents are the same value, so a table may stand inside other data and be
compared there. The view of a table is `get?`; `get?_insert` says all that an insertion does to it.
-/

namespace TypeEngine

open Std

variable {α : Type}

/-- Compare two pairs by their keys alone. -/
def compareKeys (p q : String × α) : Ordering :=
  compare p.1 q.1

instance : TransCmp (@compareKeys α) where
  eq_swap := OrientedOrd.eq_swap
  isLE_trans := TransOrd.isLE_trans

/-- A finite map from texts, its pairs listed by increasing key. -/
structure Table (α : Type) where
  entries : List (String × α)
  increasing : Increasing compareKeys entries
deriving DecidableEq

theorem lookup_cons (k key : String) (value : α) (l : List (String × α)) :
    ((key, value) :: l).lookup k = if k = key then some value else l.lookup k := by
  by_cases h : k = key
  · simp [h]
  · have : (k == key) = false := by simpa using h
    simp [List.lookup_cons, this, h]

namespace Table

/-- The table without any pair. -/
def empty : Table α :=
  ⟨[], increasing_nil⟩

instance : EmptyCollection (Table α) := ⟨empty⟩

instance : Inhabited (Table α) := ⟨empty⟩

/-- The value under a key. -/
def get? (t : Table α) (key : String) : Option α :=
  t.entries.lookup key

/-- Bind a key, replacing the value it had. -/
def insert (t : Table α) (key : String) (value : α) : Table α :=
  ⟨insertBy compareKeys (key, value) t.entries, increasing_insertBy _ t.increasing⟩

/-- Whether the key is bound. -/
def contains (t : Table α) (key : String) : Bool :=
  (t.get? key).isSome

/-- The number of bound keys. -/
def size (t : Table α) : Nat :=
  t.entries.length

/-- The table of a list of pairs; of two pairs with one key the later one stays. -/
def ofList (pairs : List (String × α)) : Table α :=
  ⟨insertAllBy compareKeys [] pairs, increasing_insertAllBy pairs increasing_nil⟩

@[simp] theorem get?_empty (key : String) : (empty : Table α).get? key = none := rfl

theorem lookup_insertBy (entries : List (String × α)) (key : String) (value : α) (k : String) :
    (insertBy compareKeys (key, value) entries).lookup k
      = if k = key then some value else entries.lookup k := by
  induction entries with
  | nil => simp [insertBy, lookup_cons]
  | cons p l ih =>
    obtain ⟨key', value'⟩ := p
    rw [insertBy]
    split
    · simp [lookup_cons]
    next heq =>
      have : key = key' := LawfulEqOrd.eq_of_compare heq
      subst this
      by_cases h : k = key <;> simp [lookup_cons, h]
    next hgt =>
      have hne : key ≠ key' := by
        rintro rfl
        simp [compareKeys] at hgt
      by_cases h : k = key <;> grind [lookup_cons]

/-- An insertion shows at its own key and nowhere else. -/
@[simp] theorem get?_insert (t : Table α) (key : String) (value : α) (k : String) :
    (t.insert key value).get? k = if k = key then some value else t.get? k :=
  lookup_insertBy t.entries key value k

end Table

end TypeEngine

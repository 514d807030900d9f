/-!
# Strictly increasing lists

A finite set or map is kept as a list that strictly increases under a comparison, so that equal
contents give equal lists. `insertBy` is the only way in: it puts an element at its place and
replaces the element that compares equal, if there is one.

The comparison is any lawful `cmp`; a map compares its pairs by their keys.
-/

namespace TypeEngine

open Std

variable {α : Type}

/-- The list strictly increases under `cmp`. -/
def Increasing (cmp : α → α → Ordering) (l : List α) : Prop :=
  l.Pairwise fun a b => cmp a b = .lt

/-- Put `a` at its place, replacing the element that compares equal to it. -/
def insertBy (cmp : α → α → Ordering) (a : α) : List α → List α
  | [] => [a]
  | b :: l =>
    match cmp a b with
    | .lt => a :: b :: l
    | .eq => a :: l
    | .gt => b :: insertBy cmp a l

/-- Insert all elements of a list, the later ones last. -/
def insertAllBy (cmp : α → α → Ordering) (l : List α) : List α → List α
  | [] => l
  | a :: as => insertAllBy cmp (insertBy cmp a l) as

theorem eq_or_mem_of_mem_insertBy {cmp : α → α → Ordering} {a b : α} {l : List α}
    (h : b ∈ insertBy cmp a l) : b = a ∨ b ∈ l := by
  induction l with
  | nil => simpa [insertBy] using h
  | cons c l ih =>
    rw [insertBy] at h
    split at h <;> grind

theorem increasing_insertBy {cmp : α → α → Ordering} [TransCmp cmp] (a : α) {l : List α}
    (h : Increasing cmp l) : Increasing cmp (insertBy cmp a l) := by
  induction l with
  | nil => simp [insertBy, Increasing]
  | cons b l ih =>
    obtain ⟨hb, hl⟩ := List.pairwise_cons.1 h
    rw [insertBy]
    split
    next hlt =>
      refine List.pairwise_cons.2 ⟨fun c hc => ?_, h⟩
      rcases List.mem_cons.1 hc with rfl | hc
      · exact hlt
      · exact TransCmp.lt_trans hlt (hb c hc)
    next heq =>
      exact List.pairwise_cons.2 ⟨fun c hc => TransCmp.lt_of_eq_of_lt heq (hb c hc), hl⟩
    next hgt =>
      refine List.pairwise_cons.2 ⟨fun c hc => ?_, ih hl⟩
      rcases eq_or_mem_of_mem_insertBy hc with rfl | hc
      · exact OrientedCmp.lt_of_gt hgt
      · exact hb c hc

theorem increasing_insertAllBy {cmp : α → α → Ordering} [TransCmp cmp] (as : List α)
    {l : List α} (h : Increasing cmp l) : Increasing cmp (insertAllBy cmp l as) := by
  induction as generalizing l with
  | nil => exact h
  | cons a as ih => exact ih (increasing_insertBy a h)

theorem increasing_nil {cmp : α → α → Ordering} : Increasing cmp [] :=
  List.Pairwise.nil

end TypeEngine

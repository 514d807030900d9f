import TypeEngine.Ty.Basic

/-!
# The weight of a type

The number of nodes of a type. Sums of weights bound how long an engine can follow names before it
has to meet one of them again. Every step into a type makes it lighter
(`weight_lt_of_mem_children`).
-/

namespace TypeEngine

mutual

/-- The number of nodes of a type. -/
def Ty.weight : Ty → Nat
  | .parametric head params _ => head.weight + weightAll params + 1
  | .function arguments _ _ => weightAll arguments + 1
  | .tuple elements _ => weightAll elements + 1
  | .union cases _ => weightCases cases + 1
  | .intersection params _ => weightAll params + 1
  | .trait trait => weightTrait trait + 1
  | .method method => weightMethod method + 1
  | .impl trait implementation => weightTrait trait + implementation.weight + 1
  | .fixedTrait trait => weightTrait trait + 1
  | .labeled _ ty => ty.weight + 1
  | .annotated _ ty => ty.weight + 1
  | .parameter .. | .concrete .. | .reference .. | .typeAlias .. => 1
  | .constructor .. | .numeric .. => 1

def weightAll : List Ty → Nat
  | [] => 0
  | t :: ts => t.weight + weightAll ts

def weightCases : List Case → Nat
  | [] => 0
  | ⟨_, params⟩ :: cs => weightAll params + weightCases cs

def weightMethod : Method → Nat
  | ⟨_, _, arguments, _, _⟩ => weightAll arguments

def weightMethods : List Method → Nat
  | [] => 0
  | m :: ms => weightMethod m + weightMethods ms

def weightTrait : Trait → Nat
  | ⟨_, _, methods, _⟩ => weightMethods methods

end

theorem weightAll_append (ts us : List Ty) :
    weightAll (ts ++ us) = weightAll ts + weightAll us := by
  induction ts with
  | nil => simp [weightAll]
  | cons t ts ih => simp [weightAll, ih, Nat.add_assoc]

theorem weight_le_weightAll {t : Ty} {ts : List Ty} (h : t ∈ ts) : t.weight ≤ weightAll ts := by
  induction ts with
  | nil => cases h
  | cons u ts ih =>
    rw [weightAll]
    rcases List.mem_cons.1 h with rfl | h
    · omega
    · have := ih h
      omega

theorem weight_le_weightCases {c : Case} {cs : List Case} (h : c ∈ cs) :
    weightAll c.params ≤ weightCases cs := by
  induction cs with
  | nil => cases h
  | cons d cs ih =>
    obtain ⟨label, params⟩ := d
    rw [weightCases]
    rcases List.mem_cons.1 h with rfl | h
    · exact Nat.le_add_right _ _
    · have := ih h
      omega

theorem weight_le_weightMethods {m : Method} {ms : List Method} (h : m ∈ ms) :
    weightAll m.arguments ≤ weightMethods ms := by
  induction ms with
  | nil => cases h
  | cons o ms ih =>
    rw [weightMethods]
    rcases List.mem_cons.1 h with rfl | h
    · rw [weightMethod]
      exact Nat.le_add_right _ _
    · have := ih h
      omega

namespace Ty

theorem weight_pos (ty : Ty) : 0 < ty.weight := by
  cases ty <;> simp [weight]

/-- The types directly below a type, those of methods included. -/
def children : Ty → List Ty
  | .parametric head params _ => head :: params
  | .function arguments _ _ => arguments
  | .tuple elements _ => elements
  | .union cases _ => cases.flatMap (·.params)
  | .intersection params _ => params
  | .trait t | .fixedTrait t => t.methods.flatMap (·.arguments)
  | .method m => m.arguments
  | .impl t implementation => implementation :: t.methods.flatMap (·.arguments)
  | .labeled _ ty | .annotated _ ty => [ty]
  | .parameter .. | .concrete .. | .reference .. | .typeAlias .. => []
  | .constructor .. | .numeric .. => []

theorem weight_lt_of_mem_children {ty t : Ty} (h : t ∈ ty.children) : t.weight < ty.weight := by
  have hmethods {trait : Trait} (h : t ∈ trait.methods.flatMap (·.arguments)) :
      t.weight ≤ weightTrait trait := by
    obtain ⟨m, hm, ht⟩ := List.mem_flatMap.1 h
    rw [weightTrait]
    exact Nat.le_trans (weight_le_weightAll ht) (weight_le_weightMethods hm)
  cases ty with
  | parametric head params attributes =>
    rw [weight]
    rcases List.mem_cons.1 h with rfl | h
    · omega
    · have := weight_le_weightAll h
      omega
  | function | tuple | intersection => exact Nat.lt_succ_of_le (weight_le_weightAll h)
  | union cases attributes =>
    obtain ⟨c, hc, ht⟩ := List.mem_flatMap.1 h
    have := weight_le_weightCases hc
    have := weight_le_weightAll ht
    rw [weight]
    omega
  | trait | fixedTrait => exact Nat.lt_succ_of_le (hmethods h)
  | method =>
    rw [weight, weightMethod]
    exact Nat.lt_succ_of_le (weight_le_weightAll h)
  | impl trait implementation =>
    rw [weight]
    rcases List.mem_cons.1 h with rfl | h
    · omega
    · have := hmethods h
      omega
  | labeled | annotated =>
    rw [List.mem_singleton.1 h, weight]
    omega
  | _ => cases h

end Ty

end TypeEngine

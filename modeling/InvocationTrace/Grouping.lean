/-!
# Grouping by a key

A list divided by a text that some of its elements carry. Groups come in the order of their keys,
and each keeps the order of the list.
-/

namespace InvocationTrace.Grouping

variable {α : Type}

/-- Puts a key into an increasing list of keys, once. -/
def insertKey (k : String) : List String → List String
  | [] => [k]
  | l :: ls => if k < l then k :: l :: ls else if k = l then l :: ls else l :: insertKey k ls

/-- The distinct keys of a list in increasing order. -/
def keys (key : α → Option String) (xs : List α) : List String :=
  (xs.filterMap key).foldr insertKey []

def members (key : α → Option String) (k : String) (xs : List α) : List α :=
  xs.filter fun x => key x == some k

def groups (key : α → Option String) (xs : List α) : List (String × List α) :=
  (keys key xs).map fun k => (k, members key k xs)

theorem mem_insertKey {k l : String} {ls : List String} :
    k ∈ insertKey l ls ↔ k = l ∨ k ∈ ls := by
  induction ls with
  | nil => simp [insertKey]
  | cons m ms ih =>
    rw [insertKey]
    split
    · simp
    split
    · subst l
      simp
    · simp only [List.mem_cons, ih]
      exact or_left_comm

theorem mem_keys {key : α → Option String} {xs : List α} {k : String} :
    k ∈ keys key xs ↔ ∃ x ∈ xs, key x = some k := by
  have h : ∀ ks : List String, k ∈ ks.foldr insertKey [] ↔ k ∈ ks := fun ks => by
    induction ks with
    | nil => simp
    | cons l ls ih => simp [mem_insertKey, ih]
  simp [keys, h]

end InvocationTrace.Grouping

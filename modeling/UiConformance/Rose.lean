/-!
# Rose trees

Trees whose nodes carry a value and any number of children in order, their values in document
order, and a fallible map over the values, which stops at the first failure.
-/

namespace UiConformance

inductive Rose (α : Type) where
  | node (value : α) (children : List (Rose α))

namespace Rose

variable {α β ε : Type}

def value : Rose α → α
  | node a _ => a

def children : Rose α → List (Rose α)
  | node _ cs => cs

mutual

/-- The number of nodes. -/
def size : Rose α → Nat
  | node _ cs => 1 + sizeForest cs

def sizeForest : List (Rose α) → Nat
  | [] => 0
  | t :: ts => t.size + sizeForest ts

end

mutual

/-- The values, every node before its children and those from left to right. -/
def preorder : Rose α → List α
  | node a cs => a :: preorderForest cs

def preorderForest : List (Rose α) → List α
  | [] => []
  | t :: ts => t.preorder ++ preorderForest ts

end

mutual

/-- Maps every value in document order; the first failure is the outcome. -/
def traverse (f : α → Except ε β) : Rose α → Except ε (Rose β)
  | node a cs => do
    let b ← f a
    let ds ← traverseForest f cs
    return node b ds

def traverseForest (f : α → Except ε β) : List (Rose α) → Except ε (List (Rose β))
  | [] => .ok []
  | t :: ts => do
    let u ← t.traverse f
    let us ← traverseForest f ts
    return u :: us

end

mutual

theorem length_preorder : (t : Rose α) → t.preorder.length = t.size
  | node a cs => by
    rw [preorder, size, List.length_cons, length_preorderForest cs, Nat.add_comm]

theorem length_preorderForest : (ts : List (Rose α)) → (preorderForest ts).length = sizeForest ts
  | [] => rfl
  | t :: ts => by
    rw [preorderForest, sizeForest, List.length_append, length_preorder t, length_preorderForest ts]

end

theorem size_pos (t : Rose α) : 0 < t.size := by
  cases t
  rw [size]
  omega

end Rose

end UiConformance

/-!
# Trees

A tree is a value with the trees below it, in order.  The preorder of a tree lists a value before
those below it.
-/

namespace Markbook

inductive Tree (α : Type) where
  | node (value : α) (children : List (Tree α))

namespace Tree

variable {α β : Type}

def value : Tree α → α
  | .node a _ => a

def children : Tree α → List (Tree α)
  | .node _ l => l

mutual

/-- The values of a tree, each before those below it. -/
def preorder : Tree α → List α
  | .node a l => a :: preorderAll l

def preorderAll : List (Tree α) → List α
  | [] => []
  | t :: r => preorder t ++ preorderAll r

end

/-- The number of values in a tree. -/
def count (t : Tree α) : Nat := t.preorder.length

mutual

/-- Computes from a tree, a node from its value and from what its children gave. -/
def fold (f : α → List β → β) : Tree α → β
  | .node a l => f a (foldAll f l)

def foldAll (f : α → List β → β) : List (Tree α) → List β
  | [] => []
  | t :: r => fold f t :: foldAll f r

end

end Tree

end Markbook

import Arbor.Tree

/-!
Nodes as places in a tree. A node is a subtree together with its number: the root has number 0, and
the numbers run through the tree in pre-order. The nodes below a node `n` are those whose numbers
lie between `n.number` and `n.number + n.size`, so two nodes of one tree are the same place just in
case their numbers agree.
-/

namespace Arbor

/-- A subtree and its pre-order number in the tree that it belongs to. -/
structure Node where
  number : Nat
  tree : Tree
  deriving Inhabited

namespace Node

/-- The root of a tree. -/
def root (t : Tree) : Node := ⟨0, t⟩

/-- The name of the node's kind. -/
def kind (n : Node) : String := n.tree.kind

/-- The text that the node covers. -/
def text (n : Node) : String := n.tree.text

/-- The span of the node's text. -/
def span (n : Node) : Span := n.tree.span

/-- The number of nodes at and below the node. -/
def size (n : Node) : Nat := n.tree.size

/-- Whether two nodes of one tree are the same place. -/
def same (m n : Node) : Bool := m.number == n.number

/-- Trees that stand side by side, numbered from `k` on. -/
def numbered (k : Nat) : List Tree → List Node
  | [] => []
  | t :: ts => ⟨k, t⟩ :: numbered (k + t.size) ts

/-- The children from left to right. -/
def children (n : Node) : List Node :=
  numbered (n.number + 1) n.tree.children

/-- The child that a field name stands for. -/
def field? (n : Node) (name : String) : Option Node :=
  (n.tree.fields.get? name).bind (n.children[·]?)

/-- The child under the first of two field names that has one. -/
def fieldOr? (n : Node) (name other : String) : Option Node :=
  (n.field? name).or (n.field? other)

/-- The node reached by child indices. -/
def follow? (n : Node) : List Nat → Option Node
  | [] => some n
  | i :: is => n.children[i]?.bind (follow? · is)

/-! ### The children are smaller -/

theorem tree_mem_of_mem_numbered {k : Nat} {ts : List Tree} {c : Node} (h : c ∈ numbered k ts) :
    c.tree ∈ ts := by
  induction ts generalizing k with
  | nil => simp [numbered] at h
  | cons t ts ih =>
    rcases List.mem_cons.1 h with rfl | h
    · simp
    · exact List.mem_cons_of_mem _ (ih h)

theorem size_lt_of_mem_children {n c : Node} (h : c ∈ n.children) : c.size < n.size :=
  Tree.size_lt_of_mem (tree_mem_of_mem_numbered h)

theorem mem_children_of_field? {n c : Node} {name : String} (h : n.field? name = some c) :
    c ∈ n.children := by
  obtain ⟨i, _, hi⟩ := Option.bind_eq_some_iff.1 h
  exact List.mem_of_getElem? hi

theorem mem_children_of_fieldOr? {n c : Node} {name other : String}
    (h : n.fieldOr? name other = some c) : c ∈ n.children := by
  rcases Option.or_eq_some_iff.1 h with h | ⟨_, h⟩ <;> exact mem_children_of_field? h

/-! ### Pre-order -/

mutual

/-- The nodes of a tree numbered from `k` on, in pre-order. -/
def preorderFrom (k : Nat) : Tree → List Node
  | t@⟨_, _, _, children, _⟩ => ⟨k, t⟩ :: preorderAll (k + 1) children

/-- The nodes of several trees numbered from `k` on, in pre-order. -/
def preorderAll (k : Nat) : List Tree → List Node
  | [] => []
  | t :: ts => preorderFrom k t ++ preorderAll (k + t.size) ts

end

/-- The node and the nodes below it, in pre-order. -/
def preorder (n : Node) : List Node :=
  preorderFrom n.number n.tree

end Node

end Arbor

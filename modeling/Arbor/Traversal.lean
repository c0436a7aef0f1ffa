import Arbor.Node

/-!
Walks over a tree and the questions they answer: the nodes of a kind, the node at a position, the
ancestors of a node, and the shape of the tree in numbers.
-/

namespace Arbor

/-- What a visitor wants after a node. -/
inductive Visit where
  /-- Go on with the children. -/
  | descend
  /-- Leave the children out. -/
  | skip
  /-- End the walk. -/
  | stop
  deriving DecidableEq, Repr

namespace Node

universe u

variable {σ : Type u}

mutual

/-- Walks over a tree numbered from `k` on; the answer says whether the walk may go on after it. -/
def walkFrom (visit : Node → Nat → σ → Visit × σ) (k depth : Nat) : Tree → σ → Bool × σ
  | t@⟨_, _, _, children, _⟩, s =>
    match visit ⟨k, t⟩ depth s with
    | (.stop, s) => (false, s)
    | (.skip, s) => (true, s)
    | (.descend, s) => walkAll visit (k + 1) (depth + 1) children s

/-- Walks over several trees numbered from `k` on, up to the first that ends the walk. -/
def walkAll (visit : Node → Nat → σ → Visit × σ) (k depth : Nat) : List Tree → σ → Bool × σ
  | [], s => (true, s)
  | t :: ts, s =>
    match walkFrom visit k depth t s with
    | (false, s) => (false, s)
    | (true, s) => walkAll visit (k + t.size) depth ts s

end

/-- Walks over the node and the nodes below it in pre-order. The visitor sees each node with its
depth below the first, and carries a state along. -/
def traverse (n : Node) (visit : Node → Nat → σ → Visit × σ) (s : σ) : σ :=
  (walkFrom visit n.number 0 n.tree s).2

/-- The nodes of a kind in pre-order. -/
def ofKind (n : Node) (kind : String) : List Node :=
  (n.traverse (fun m _ found => (.descend, if m.kind = kind then found.push m else found))
    #[]).toList

/-- The nodes below the node in pre-order. -/
def descendants (n : Node) : List Node :=
  n.children.flatMap fun c => (c.traverse (fun m _ found => (.descend, found.push m)) #[]).toList

/-! ### Nodes by place -/

mutual

/-- The deepest node that contains a position, in a tree that does. -/
def deepestFrom (p : Position) (k : Nat) : Tree → Node
  | t@⟨_, _, _, children, _⟩ => (deepestAmong? p (k + 1) children).getD ⟨k, t⟩

/-- The deepest node in the first of several trees that contains a position. -/
def deepestAmong? (p : Position) (k : Nat) : List Tree → Option Node
  | [] => none
  | t :: ts =>
    if t.span.contains p then some (deepestFrom p k t) else deepestAmong? p (k + t.size) ts

end

/-- The deepest node at or below the node whose span contains a position. -/
def atPosition? (n : Node) (p : Position) : Option Node :=
  if n.span.contains p then some (deepestFrom p n.number n.tree) else none

mutual

/-- The way from the root of a tree down to a node, both ends included. Only children that reach
over the node's span are searched. -/
def pathFrom? (target : Node) (k : Nat) : Tree → Option (List Node)
  | t@⟨_, _, _, children, _⟩ =>
    if k = target.number then some [⟨k, t⟩]
    else (pathAmong? target (k + 1) children).map (⟨k, t⟩ :: ·)

/-- The way to a node in the first of several trees that holds it. -/
def pathAmong? (target : Node) (k : Nat) : List Tree → Option (List Node)
  | [] => none
  | t :: ts =>
    if t.span.encloses target.span then
      (pathFrom? target k t).or (pathAmong? target (k + t.size) ts)
    else pathAmong? target (k + t.size) ts

end

/-- The ancestors of a node, its parent first and `n` last. There are none for `n` itself and for a
node that does not lie below `n`. -/
def ancestors (n target : Node) : List Node :=
  ((pathFrom? target n.number n.tree).getD []).dropLast.reverse

end Node

/-! ### Statistics -/

/-- The shape of a tree in numbers. -/
structure Shape where
  nodes : Nat
  /-- How many nodes there are of each kind. -/
  byKind : Table Nat
  /-- The number of steps from the root to the deepest node. -/
  depth : Nat
  /-- The number of children of all nodes together. -/
  children : Nat
  deriving Inhabited

namespace Shape

/-- The shape with one more node. -/
def count (s : Shape) (n : Node) (depth : Nat) : Shape where
  nodes := s.nodes + 1
  byKind := s.byKind.insert n.kind ((s.byKind.get? n.kind).getD 0 + 1)
  depth := max s.depth depth
  children := s.children + n.tree.children.length

/-- The mean number of children of a node. -/
def meanChildren (s : Shape) : Float :=
  if s.nodes = 0 then 0 else s.children.toFloat / s.nodes.toFloat

end Shape

/-- The shape of the tree at and below the node. -/
def Node.shape (n : Node) : Shape :=
  n.traverse (fun m depth s => (.descend, s.count m depth)) ⟨0, ∅, 0, 0⟩

end Arbor

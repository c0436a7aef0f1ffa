import Arbor.Binding

/-!
Nodes that are smaller than a given node, such as its children and their parts. A definition on all
nodes may call itself on them.
-/

namespace Arbor

/-- A node smaller than `n`. -/
abbrev Below (n : Node) := { c : Node // c.size < n.size }

namespace Node

theorem size_lt_of_mem_bindingDefaults {n d : Node} (h : d ∈ n.bindingDefaults) :
    d.size < n.size := by
  rw [bindingDefaults] at h
  rcases List.mem_append.1 h with h | h
  · exact size_lt_of_mem_children (mem_children_of_ownDefault? (Option.mem_toList.1 h))
  · obtain ⟨c, _, h⟩ := List.mem_flatMap.1 h
    have hc : c.1.size < n.size :=
      size_lt_of_mem_children (mem_children_of_mem_defaultingParts c.2)
    exact Nat.lt_trans (size_lt_of_mem_bindingDefaults h) hc
termination_by n.size

/-- The children of a node, as nodes below it. -/
def below (n : Node) : List (Below n) :=
  n.children.attach.map fun c => ⟨c.1, size_lt_of_mem_children c.2⟩

/-- The child under a field, as a node below its parent. -/
def belowField? (n : Node) (name : String) : Option (Below n) :=
  match h : n.field? name with
  | some c => some ⟨c, size_lt_of_mem_children (mem_children_of_field? h)⟩
  | none => none

end Node

namespace Below

variable {n : Node}

/-- The children of a node below `n` lie below `n`. -/
def children (c : Below n) : List (Below n) :=
  c.1.below.map fun d => ⟨d.1, Nat.lt_trans d.2 c.2⟩

/-- The child under a field of a node below `n` lies below `n`. -/
def field? (c : Below n) (name : String) : Option (Below n) :=
  (c.1.belowField? name).map fun d => ⟨d.1, Nat.lt_trans d.2 c.2⟩

/-- The default expressions in a target below `n` lie below `n`. -/
def bindingDefaults (c : Below n) : List (Below n) :=
  c.1.bindingDefaults.attach.map fun d =>
    ⟨d.1, Nat.lt_trans (Node.size_lt_of_mem_bindingDefaults d.2) c.2⟩

end Below

/-- The parameters of a function, as nodes below it. -/
def Node.belowParameters (n : Node) : List (Below n) :=
  match n.belowField? "parameters" with
  | some list => list.children
  | none => (n.belowField? "parameter").toList

end Arbor

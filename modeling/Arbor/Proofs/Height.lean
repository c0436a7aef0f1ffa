import Arbor.Proofs.Subtree

/-!
# The height of a node

Every step from a node to a part of it leads to a lower node, so a walk that may go down as many
levels as a node is high gets to the end of every branch below it.
-/

namespace Arbor

namespace Tree

mutual

/-- The number of levels of a tree. -/
def height : Tree → Nat
  | ⟨_, _, _, children, _⟩ => heightAll children + 1

/-- The number of levels of the highest of some trees. -/
def heightAll : List Tree → Nat
  | [] => 0
  | t :: ts => max t.height (heightAll ts)

end

lemma height_pos (t : Tree) : 0 < t.height := by
  cases t
  simp [height]

lemma height_lt_of_mem {t c : Tree} (h : c ∈ t.children) : c.height < t.height := by
  obtain ⟨_, _, _, children, _⟩ := t
  rw [height]
  induction children with
  | nil => simp at h
  | cons d ds ih =>
    rw [heightAll]
    rcases List.mem_cons.1 h with rfl | h
    · omega
    · have := ih h
      omega

end Tree

namespace Node

/-- The number of levels from the node down. -/
def height (n : Node) : Nat := n.tree.height

lemma height_pos (n : Node) : 0 < n.height := n.tree.height_pos

lemma height_lt_of_mem_children {n c : Node} (h : c ∈ n.children) : c.height < n.height :=
  Tree.height_lt_of_mem (tree_mem_of_mem_numbered h)

lemma height_lt_of_field? {n c : Node} {name : String} (h : n.field? name = some c) :
    c.height < n.height :=
  height_lt_of_mem_children (mem_children_of_field? h)

lemma height_le_of_mem_preorder {m n : Node} (h : m ∈ n.preorder) : m.height ≤ n.height := by
  rcases mem_preorder.1 h with rfl | ⟨c, hc, hm⟩
  · exact Nat.le_refl _
  · exact Nat.le_trans (height_le_of_mem_preorder hm) (Nat.le_of_lt (height_lt_of_mem_children hc))
termination_by n.size
decreasing_by exact size_lt_of_mem_children hc

lemma height_lt_of_inside {m n : Node} (h : m.Inside n) : m.height < n.height := by
  obtain ⟨c, hc, hm⟩ := h
  exact Nat.lt_of_le_of_lt (height_le_of_mem_preorder hm) (height_lt_of_mem_children hc)

end Node

end Arbor

import Arbor.Table
import Arbor.Span

/-!
Syntax trees. A node carries the name of its kind, the text that it covers, the span of that text,
its children from left to right, and a table that names some of the children: each field name
stands for an index into the children, and an index past the end names no child.
-/

namespace Arbor

/-- A syntax tree, given by its root. -/
structure Tree where
  kind : String
  text : String
  span : Span
  children : List Tree
  fields : Table Nat
  deriving Inhabited

namespace Tree

/-- A node without children at the start of the text. -/
def leaf (kind text : String) : Tree :=
  ⟨kind, text, .zero, [], ∅⟩

/-- The tree with its root moved to another span. -/
def spanning (t : Tree) (start stop : Position) : Tree :=
  { t with span := ⟨start, stop⟩ }

/-- The tree with further children behind those it has. -/
def withChildren (t : Tree) (more : List Tree) : Tree :=
  { t with children := t.children ++ more }

/-- The tree with one more child behind those it has. -/
def withChild (t child : Tree) : Tree :=
  t.withChildren [child]

/-- The tree with one more child, to which the field name now belongs. -/
def withField (t : Tree) (name : String) (child : Tree) : Tree :=
  { t with children := t.children ++ [child], fields := t.fields.insert name t.children.length }

mutual

/-- The number of nodes. -/
def size : Tree → Nat
  | ⟨_, _, _, children, _⟩ => sizeAll children + 1

/-- The number of nodes of several trees. -/
def sizeAll : List Tree → Nat
  | [] => 0
  | t :: ts => t.size + sizeAll ts

end

theorem size_pos (t : Tree) : 0 < t.size := by
  cases t; simp [size]

theorem size_lt_of_mem {t c : Tree} (h : c ∈ t.children) : c.size < t.size := by
  obtain ⟨_, _, _, children, _⟩ := t
  rw [size]
  induction children with
  | nil => simp at h
  | cons d ds ih =>
    rw [sizeAll]
    rcases List.mem_cons.1 h with rfl | h
    · omega
    · have := ih h
      omega

end Tree

end Arbor

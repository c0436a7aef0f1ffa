import Arbor.Span
import Arbor.Text.Printable

/-!
Differences between two trees, and the places where they are.
-/

namespace Arbor.Comparison

/-- How two nodes at one place differ. -/
inductive Kind where
  | type (left right : String)
  | text (left right : String)
  /-- The numbers of children differ. -/
  | count (left right : Nat)
  /-- There is a node of this kind in the first tree only. -/
  | missing (kind : String)
  /-- There is a node of this kind in the second tree only. -/
  | extra (kind : String)
  deriving DecidableEq, Repr

/-- The two sides of a difference, or the kind of the node that stands alone. -/
def Kind.detail : Kind → String
  | type left right => left ++ " vs " ++ right
  | text left right => quoted left ++ " vs " ++ quoted right
  | count left right => s!"{left} vs {right}"
  | missing kind => kind
  | extra kind => kind

/-- A difference. -/
structure Difference where
  kind : Kind
  /-- The child indices that lead to the place in both trees. -/
  path : List Nat
  left : Option Span
  right : Option Span
  deriving DecidableEq, Repr

/-- The text of a path: its indices with points between them. -/
def renderPath (path : List Nat) : String :=
  ".".intercalate (path.map toString)

end Arbor.Comparison

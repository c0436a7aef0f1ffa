import Arbor.Error
import Arbor.Node
import Arbor.Regex.Reader

/-!
Patterns that nodes are held against. A pattern makes demands on the node itself, all of which have
to be met, and has parts that are looked for below the node, of which some may be missing.
-/

namespace Arbor

/-- A demand on a text. -/
inductive TextMatcher where
  | exact (text : String)
  /-- Some part of the text has to match. -/
  | regex (r : Regex)

namespace TextMatcher

/-- The demand that an expression occurs in a text. -/
def ofRegex (source : String) : Except Error TextMatcher :=
  match Regex.read? source with
  | some r => .ok (.regex r)
  | none => .error (.pattern source)

/-- Whether a text meets the demand. -/
def accepts : TextMatcher → String → Bool
  | exact s, text => s == text
  | regex r, text => r.occursIn text

end TextMatcher

/-- What a pattern demands of the node itself. -/
structure Demands where
  kind : Option String := none
  text : Option TextMatcher := none
  minChildren : Option Nat := none
  maxChildren : Option Nat := none
  predicate : Option (Node → Bool) := none

/-- Whether a node meets the demands. -/
def Demands.admits (d : Demands) (n : Node) : Bool :=
  d.kind.all (· == n.kind) && d.text.all (·.accepts n.text)
    && d.minChildren.all (· ≤ n.children.length) && d.maxChildren.all (n.children.length ≤ ·)
    && d.predicate.all (· n)

/-- A pattern. -/
structure Pattern where
  demands : Demands := {}
  /-- What is looked for below the node. -/
  parts : List Pattern := []
  /-- Whether parts may lie anywhere below the node and not only among its children. -/
  deep : Bool := false
  /-- The name under which a match is reported. -/
  capture : Option String := none

end Arbor

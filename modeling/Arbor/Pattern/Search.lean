import Arbor.Pattern.Options
import Arbor.Pattern.Score

/-!
The search for nodes that match a pattern.
-/

namespace Arbor.Pattern

/-- A node that matches, with its score and its place in the text. -/
structure Hit where
  node : Node
  score : Score
  span : Span

/-- The score of a node, if it is within the bounds of a search and high enough. -/
def hit? (p : Pattern) (o : Options) (n : Node) : Option Hit :=
  if o.admits n.span then
    let s := score n p
    if s.confidence ≤ o.minConfidence || !s.isMatch then none else some ⟨n, s, n.span⟩
  else none

/-- Whether a limit is reached by a number of matches. -/
def Options.isReached (o : Options) (count : Nat) : Bool :=
  o.limit.any (· ≤ count)

/-- The nodes at and below a node that match a pattern, in pre-order. A node that is out of bounds
or does not match does not keep the search from the nodes below it. -/
def find (p : Pattern) (o : Options) (n : Node) : List Hit :=
  if o.isReached 0 then []
  else
    let visit (m : Node) (_ : Nat) (found : Array Hit) : Visit × Array Hit :=
      match p.hit? o m with
      | none => (.descend, found)
      | some h =>
        let found := found.push h
        (if o.isReached found.size then .stop else if o.includeNested then .descend else .skip,
          found)
    (n.traverse visit #[]).toList

end Arbor.Pattern

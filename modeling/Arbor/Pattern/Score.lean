import Arbor.Pattern.Basic
import Arbor.Traversal

/-!
How well a node matches a pattern. A node that does not meet the demands scores nothing; any other
scores by the share of the parts that some node below it matches, at least in part, and fully if
there are no parts.
-/

namespace Arbor.Pattern

/-- The share of the parts of a pattern that are satisfied, and the nodes that matched under a
name. -/
structure Score where
  satisfied : Nat
  total : Nat
  captures : Table Node := .empty

namespace Score

/-- The score of a node that does not match. -/
def failed : Score := ⟨0, 1, .empty⟩

/-- Whether a node with this score matches. -/
def isMatch (s : Score) : Bool := 0 < s.satisfied

/-- The score as a number from zero to one. -/
def confidence (s : Score) : Float := s.satisfied.toFloat / s.total.toFloat

/-- The first of the highest scores, if any is a match. The scores are those of several nodes for
one pattern, so they have the same total unless they are zero. -/
def best? (scores : List Score) : Option Score :=
  scores.foldl
    (fun best s => if best.elim 0 satisfied < s.satisfied then some s else best)
    none

/-- The score with a further part, which the best of the candidates' scores may satisfy. Names that
it captures replace those captured before. -/
def addPart (s : Score) (candidates : List Score) : Score :=
  match best? candidates with
  | some b => ⟨s.satisfied + 1, s.total + 1, s.captures.union b.captures⟩
  | none => { s with total := s.total + 1 }

/-- The score of a node that meets the demands of a pattern without parts. -/
def full : Score := ⟨1, 1, .empty⟩

/-- The score in which a match is captured under a name. -/
def named (s : Score) (capture : Option String) (n : Node) : Score :=
  match capture with
  | some name => if s.isMatch then { s with captures := s.captures.insert name n } else s
  | none => s

end Score

mutual

/-- How well a node matches a pattern. -/
def score (n : Node) : Pattern → Score
  | ⟨demands, parts, deep, capture⟩ =>
    if demands.admits n then
      let found :=
        if parts.isEmpty then .full
        else scoreParts (if deep then n.descendants else n.children) parts ⟨0, 0, .empty⟩
      found.named capture n
    else .failed

/-- The score with further parts, which are looked for among candidates. -/
def scoreParts (candidates : List Node) : List Pattern → Score → Score
  | [], s => s
  | p :: ps, s => scoreParts candidates ps (s.addPart (candidates.map fun c => score c p))

end

end Arbor.Pattern
